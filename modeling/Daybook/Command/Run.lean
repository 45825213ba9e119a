import Daybook.Command.Settings
import Daybook.Files.Expansion
import Daybook.Report.Balance
import Daybook.Report.Register
import Daybook.Report.Statistics
import Daybook.Store.Admission
import Daybook.Store.Posting

/-!
# Running a command

What a command line does: it reads the files, fills a store and lets the report show it. What has
been shown before a failure stays shown.
-/

namespace Daybook

/-- Why a command fails. -/
inductive CommandError where
  | settings (e : SettingError)
  | filter (words : List String) (e : FilterError)
  | ledger (e : LedgerError)
  deriving DecidableEq, Repr

namespace CommandError

def messages : CommandError → List String
  | settings e => e.messages
  | filter words e =>
    ["invalid filter " ++ Text.Quoted.encode (" ".intercalate words), e.message]
  | ledger e => e.message :: e.cause?.toList

def text (e : CommandError) : String := ": ".intercalate e.messages

/-- Whether a number has left its range, where the program ends without more ado. -/
def overflows : CommandError → Bool
  | settings e => e = .overflow
  | filter .. => false
  | ledger e => e.overflows

/-- The exit status: a journal that is at fault gives 1; a command that is, or a file that cannot
be read, gives 2; an overflow gives 101. -/
def exitStatus (e : CommandError) : Nat :=
  if e.overflows then 101 else
  match e with
  | ledger (.unreadable _) => 2
  | ledger _ => 1
  | settings _ | filter .. => 2

/-- What is said about the error: the faults of a journal one by one, and the error itself. -/
def diagnostics (e : CommandError) : String :=
  let faults := match e with
    | ledger (.faults path faults) => Report.faultsText path faults
    | _ => ""
  faults ++ "error: " ++ e.text ++ "\n"

end CommandError

/-- What a command shows, warns of and ends with. -/
structure Outcome where
  output : String
  warnings : List Warning
  result : Except CommandError Unit

namespace Command

def readSelection (words : List String) : Except CommandError Selection :=
  (Filter.ofWords words).mapError (.filter words)

/-- Fills the store with directives, both passes, and lets the reporter show it. -/
def fill {σ : Type} (r : Reporter σ) (directives : List (Spanned Directive)) : Filling σ Unit := do
  Filling.firstPass r directives
  Filling.secondPass r
  Filling.render r

/-- Shows the journals of the files by the reporter, whose state `output` turns into text. -/
def showJournals {σ : Type} (files : Files) (today : Date) (paths : List String) (options : Options)
    (r : Reporter σ) (start : σ) (output : σ → String) : Outcome :=
  match ((Expansion.ofPaths files today paths).run.run .none).1 with
  | .error e => ⟨output start, [], .error (.ledger e)⟩
  | .ok expansion =>
    let (result, progress) := (fill r expansion.directives).runOn (.empty options) start
    ⟨output progress.report, progress.warnings.reverse, result.mapError .ledger⟩

def showRequest (files : Files) (today : Date) (paths : List String) (options : Options)
    (request : ReportRequest) : Except CommandError Outcome := do
  let lines (r : Reporter (List String)) : Outcome :=
    showJournals files today paths options r [] Report.textOf
  match request with
  | .balance words => return lines (Report.balance (← readSelection words))
  | .accounts words => return lines (Report.accounts (← readSelection words))
  | .statistics => return lines Report.statistics
  | .register words =>
    let r := Report.register (← readSelection words)
    return showJournals files today paths options r .empty fun g => Report.textOf g.lines

/-- Does what the arguments ask for. -/
def run (files : Files) (today : Date) (a : Arguments) : Outcome :=
  let outcome : Except CommandError Outcome := do
    let options ← (a.settings today).mapError .settings
    showRequest files today a.options.files options a.request
  match outcome with
  | .ok outcome => outcome
  | .error e => ⟨"", [], .error e⟩

end Command

end Daybook
