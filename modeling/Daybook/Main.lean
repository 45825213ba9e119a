import Std.Time.Zoned
import Daybook.Command.Run

/-!
# The program

Gathers the files that the arguments name, and all that these include, and runs the command on
them. Everything that is decided is decided by `Command.run`.
-/

namespace Daybook

/-- What has been found out about files: where paths lead, and the texts of files. -/
structure Gathered where
  located : NameMap String
  texts : NameMap String

namespace Gathered

def files (g : Gathered) : Files := ⟨g.located.find?, g.texts⟩

/-- The paths that a text includes, as seen from the directory of its file. -/
def includedPaths (file text : String) (today : Date) : List String :=
  (Journal.ofText text today).directives.filterMap fun d =>
    match d.value with
    | .includeFile path => some (Path.join (Path.directory file) path)
    | _ => none

/-- Follows the paths, and those that the files there include. -/
partial def gather (today : Date) (g : Gathered) : List String → IO Gathered
  | [] => return g
  | path :: rest => do
    if g.located.contains path then return ← gather today g rest
    match ← (IO.FS.realPath path).toBaseIO with
    | .error _ => gather today g rest
    | .ok found =>
      let file := found.toString
      let g := { g with located := g.located.insert path file }
      if g.texts.contains file then return ← gather today g rest
      match ← (IO.FS.readFile file).toBaseIO with
      | .error _ => gather today g rest
      | .ok text =>
        let g := { g with texts := g.texts.insert file text }
        gather today g (rest ++ includedPaths file text today)

end Gathered

def readToday : IO Date := do
  let now ← Std.Time.PlainDate.now
  match Date.ofYmd? now.year.toInt now.month.val.toNat now.day.val.toNat with
  | some today => return today
  | none => throw (.userError "the clock is beyond the calendar")

/-- Runs the command that the arguments ask for, and gives the exit status. -/
def runArguments (a : Arguments) : IO UInt32 := do
  let today ← readToday
  let g ← Gathered.gather today ⟨.empty, .empty⟩ a.options.files
  let outcome := Command.run g.files today a
  if a.options.switches.contains .verbose then
    g.texts.names.forM fun file => IO.eprintln s!"read {file}"
  outcome.warnings.forM fun w => IO.eprintln s!"warning: {w.message}"
  IO.print outcome.output
  match outcome.result with
  | .ok _ => return 0
  | .error e =>
    IO.eprint e.diagnostics
    return e.exitStatus.toUInt32

end Daybook

/-- Arguments that make no sense give the usage and the exit status 2. -/
def main (arguments : List String) : IO UInt32 := do
  match Daybook.Arguments.ofList? arguments with
  | some a => Daybook.runArguments a
  | none =>
    IO.eprintln Daybook.Arguments.usage
    return 2
