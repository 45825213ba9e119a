import Daybook.Files.Path
import Daybook.NameMap

/-!
# Files

The files that journals are read from: what a written path leads to, and the text of each file
that holds one. A finite tree of files is one way to give them.
-/

namespace Daybook

/-- The files there are. `locate` gives the one proper path of what a written path leads to, if it
leads anywhere; `texts` holds the text of every file that can be read, by its proper path. -/
structure Files where
  locate : String → Option String
  texts : NameMap String

/-- Files in directories: the segments of their paths, from the root down, and their bytes. -/
structure FileTree where
  entries : List (List String × ByteArray)

namespace FileTree

/-- Whether there is a directory of that path: the root, or one with a file in or below it. -/
def isDirectory (t : FileTree) (path : List String) : Bool :=
  path = [] || t.entries.any fun (file, _) => path ≠ file && path.isPrefixOf file

def contains (t : FileTree) (path : List String) : Bool :=
  t.isDirectory path || t.entries.any fun (file, _) => path = file

/-- Where the segments lead from a directory. An empty one or a dot stays there, two dots lead to
the directory above, and only directories can be walked through. -/
def walk (t : FileTree) (place : List String) : List String → Option (List String)
  | [] => if t.contains place then some place else none
  | name :: rest =>
    if !t.isDirectory place then none
    else if name = "" || name = "." then t.walk place rest
    else if name = ".." then t.walk place.dropLast rest
    else t.walk (place ++ [name]) rest

/-- The text of each file whose bytes are a text in UTF-8. -/
def texts (t : FileTree) : NameMap String :=
  t.entries.foldl
    (fun m (path, bytes) =>
      match String.fromUTF8? bytes with
      | some text => m.insert (Path.ofSegments path) text
      | none => m)
    .empty

/-- The files of a tree. A path that is not absolute starts at the root as well. -/
def files (t : FileTree) : Files where
  locate path := if path = "" then none else (t.walk [] (Path.segments path)).map Path.ofSegments
  texts := t.texts

end FileTree

end Daybook
