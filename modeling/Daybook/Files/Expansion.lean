import Daybook.Files.Basic
import Daybook.Journal.Basic
import Daybook.Store.Error

/-!
# Included files

A journal may include others. Its expansion has the directives of an included file in the place of
the line that includes it. No file is read twice: where a file that has been read is included again,
nothing stands, and a file that includes itself, directly or through others, is an error.
-/

namespace Daybook

/-- The files that have been read, and those that are being expanded, the outermost first. -/
structure Inclusions where
  known : List String
  chain : List String
  deriving DecidableEq, Repr

def Inclusions.none : Inclusions := ⟨[], []⟩

/-- Directives with those of included files in place, and the files that they were read from. -/
structure Expansion where
  directives : List (Spanned Directive)
  files : List String
  deriving DecidableEq, Repr

/-- A step of an expansion. What has been read stays so if it fails. -/
abbrev Expanding := ExceptT LedgerError (StateM Inclusions)

namespace Expansion

def empty : Expansion := ⟨[], []⟩

def append (a b : Expansion) : Expansion := ⟨a.directives ++ b.directives, a.files ++ b.files⟩

instance : Append Expansion := ⟨append⟩

/-- Expands what a path leads to. -/
def locating (files : Files) (path : String) (expand : String → Expanding Expansion) :
    Expanding Expansion :=
  match files.locate path with
  | some file => expand file
  | none => throw (.unreadable path)

/-- The directives of a file in `directory`, each included file expanded by `expand`. -/
def expandAll (files : Files) (directory : String) (expand : String → Expanding Expansion) :
    List (Spanned Directive) → Expanding Expansion
  | [] => return empty
  | d :: rest => do
    let first ← match d.value with
      | .includeFile path => locating files (Path.join directory path) expand
      | _ => pure ⟨[d], []⟩
    return first ++ (← expandAll files directory expand rest)

def enter (file : String) : Expanding Unit :=
  modify fun i => ⟨file :: i.known, i.chain ++ [file]⟩

/-- Notes that the innermost file has been expanded. -/
def leave : Expanding Unit := modify fun i => { i with chain := i.chain.dropLast }

theorem length_erase_lt {file : String} {names : List String} (h : file ∈ names) :
    (names.erase file).length < names.length := by
  have := List.length_erase_of_mem h
  have := List.length_pos_of_mem h
  omega

/-- Expands a file. Those in `unopened` are the files that are not being expanded; each of them may
still be entered once at this depth, so that the depth is bounded. -/
def expandFile (files : Files) (today : Date) (unopened : List String) (file : String) :
    Expanding Expansion := do
  let i ← get
  if i.chain.contains file then throw (.includeCycle (i.chain ++ [file]))
  if i.known.contains file then return empty
  if h : file ∈ unopened then
    have _shorter := length_erase_lt h
    match files.texts.find? file with
    | none => throw (.unreadable file)
    | some text =>
      enter file
      let journal := Journal.ofText text today
      if !journal.faults.isEmpty then throw (.faults file journal.faults)
      let inner ← expandAll files (Path.directory file)
        (expandFile files today (unopened.erase file)) journal.directives
      leave
      return ⟨inner.directives, file :: inner.files⟩
  else throw (.unreadable file)
termination_by unopened.length

def ofPath (files : Files) (today : Date) (path : String) : Expanding Expansion :=
  locating files path (expandFile files today files.texts.names)

def ofPaths (files : Files) (today : Date) : List String → Expanding Expansion
  | [] => return empty
  | path :: rest => do
    let first ← ofPath files today path
    return first ++ (← ofPaths files today rest)

end Expansion

end Daybook
