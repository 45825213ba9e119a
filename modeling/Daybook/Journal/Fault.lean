import Daybook.Calendar.Spec
import Daybook.Journal.Amount
import Daybook.Journal.Span
import Daybook.Text.Quoted

/-!
# Faults of a journal

What can be wrong with a line of a journal. A faulty line is reported, and reading goes on behind
it.
-/

namespace Daybook

/-- What is wrong with a line. -/
inductive LineFault where
  | invalidDate (e : DateError)
  | invalidNumber (raw : String)
  | invalidAmount (e : NotationError)
  | missingAccount
  | missingField (what : String)
  | unexpectedIndent
  | unknownDirective (keyword : String)
  | unknownSubDirective (keyword : String)
  | unterminatedBlock (keyword : String)
  | unclosedCode
  | unmatchedEnd (what : String)
  deriving DecidableEq, Repr

namespace LineFault

def message : LineFault → String
  | invalidDate e => s!"invalid date: {e.message}"
  | invalidNumber raw => s!"invalid number '{raw}'"
  | invalidAmount e => s!"invalid amount: {e.message}"
  | missingAccount => "expected account name"
  | missingField what => s!"missing required field: {what}"
  | unexpectedIndent => "indented line outside of a block"
  | unknownDirective keyword => s!"unknown directive '{keyword}'"
  | unknownSubDirective keyword => s!"unknown sub-directive '{keyword}'"
  | unterminatedBlock keyword => s!"'{keyword}' block is never closed"
  | unclosedCode => "parse error: unclosed '(' in code"
  | unmatchedEnd what => s!"parse error: 'end {what}' without a matching block"

/-- The heading under which the fault is shown. -/
def label : LineFault → String
  | invalidDate _ => "invalid date"
  | invalidNumber _ => "invalid number"
  | invalidAmount _ => "invalid amount"
  | missingAccount => "expected account name"
  | missingField _ => "missing field"
  | unexpectedIndent => "unexpected indentation"
  | unknownDirective _ => "unknown directive"
  | unknownSubDirective _ => "unknown sub-directive"
  | unterminatedBlock _ => "unterminated block"
  | unclosedCode | unmatchedEnd _ => "syntax error"

/-- Whether the year of a date has left 32 bits. That is no fault of the line: the program ends. -/
def overflows : LineFault → Bool
  | invalidDate .overflow => true
  | _ => false

end LineFault

/-- A fault with the line that has it. -/
structure JournalFault where
  fault : LineFault
  span : Span
  text : String
  deriving DecidableEq, Repr

def JournalFault.message (f : JournalFault) : String :=
  f.span.text ++ ": " ++ f.fault.message ++ ": " ++ Text.Quoted.encode f.text

end Daybook
