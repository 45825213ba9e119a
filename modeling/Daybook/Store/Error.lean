import Daybook.Booking
import Daybook.Journal.Fault

/-!
# Errors and warnings

Why a journal cannot be loaded or posted, and what is only worth a warning.
-/

namespace Daybook

/-- How far a store has come. -/
inductive Stage where
  | parsed | admitted | posted | rendered
  deriving DecidableEq, Repr

def Stage.name : Stage → String
  | parsed => "parsed"
  | admitted => "firstpass"
  | posted => "secondpass"
  | rendered => "rendered"

/-- What takes a store from one stage to the next. -/
inductive Pass where
  | first | second | render
  deriving DecidableEq, Repr

namespace Pass

def stage : Pass → Stage
  | first => .parsed
  | second => .admitted
  | render => .posted

def action : Pass → String
  | first => "run the first pass"
  | second => "run the second pass"
  | render => "render"

end Pass

/-- The kinds of names that are declared. -/
inductive NameKind where
  | account | commodity | payee
  deriving DecidableEq, Repr

def NameKind.text : NameKind → String
  | account => "account"
  | commodity => "commodity"
  | payee => "payee"

/-- Why a journal cannot be loaded or posted. -/
inductive LedgerError where
  | unreadable (path : String)
  | includeCycle (cycle : List String)
  | faults (path : String) (faults : List JournalFault)
  | booking (date : Date) (payee : String) (lines : Nat × Nat) (e : BookingError)
  | amount (e : AmountError)
  | unresolved (account payee : String)
  | unmatchedEnd (span : Span)
  | unclosedRoot (root : String)
  | undeclared (kind : NameKind) (name : String)
  | invalidPattern (pattern : String)
  | wrongStage (pass : Pass) (found : Stage)
  | report (message : String)
  deriving DecidableEq, Repr

/-- The wording of the error, as far as it does not come from elsewhere. -/
def LedgerError.message : LedgerError → String
  | unreadable path => s!"failed to read file {path}"
  | includeCycle cycle => "include cycle detected: " ++ " -> ".intercalate cycle
  | faults path fs => s!"{fs.length} parse error(s) in {path}"
  | booking date payee lines e =>
    date.textWith "-" ++ " " ++ Text.Quoted.encode payee ++
      s!" (lines {lines.1}-{lines.2}): " ++ e.message
  | amount e => e.message
  | unresolved account payee =>
    s!"no payee rule resolves {account} for payee " ++ Text.Quoted.encode payee
  | unmatchedEnd span => span.text ++ ": 'end' without a matching 'apply account'"
  | unclosedRoot root => s!"'apply account {root}' is never closed"
  | undeclared kind name => "undeclared " ++ kind.text ++ " " ++ Text.Quoted.encode name
  | invalidPattern pattern => "invalid pattern " ++ Text.Quoted.encode pattern
  | wrongStage pass found =>
    s!"cannot {pass.action} at stage {found.name}, expected {pass.stage.name}"
  | report message => message

/-- Whether a number has left its range. No error is returned then: the program ends. -/
def LedgerError.overflows : LedgerError → Bool
  | faults _ fs => fs.any (·.fault.overflows)
  | booking _ _ _ (.amount .overflow) | amount .overflow => true
  | _ => false

/-- The wording of what the error comes from, where it has been said already. -/
def LedgerError.cause? : LedgerError → Option String
  | booking _ _ _ e => some e.message
  | _ => none

/-- What is worth a warning. -/
inductive Warning where
  | undeclared (kind : NameKind) (name : String)
  | unknownType (account type : String)
  | duplicate (date : Date) (payee : String) (lines : Nat × Nat)
  deriving DecidableEq, Repr

def Warning.message : Warning → String
  | undeclared kind name => "undeclared " ++ kind.text ++ " " ++ Text.Quoted.encode name
  | unknownType account type =>
    "unknown type " ++ Text.Quoted.encode type ++ " of account " ++ account
  | duplicate date payee lines =>
    "duplicate transaction " ++ date.textWith "-" ++ " " ++ Text.Quoted.encode payee ++
      s!" (lines {lines.1}-{lines.2})"

end Daybook
