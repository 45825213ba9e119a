import Daybook.Filter
import Daybook.Store.Reporter

/-!
# What reports have in common

Which accounts they are about, how they show amounts and long names, and how they write lines.
-/

namespace Daybook

abbrev Selection := Option (Filter Pattern)

/-- Whether the account of that name is selected; without a filter all are. -/
def Selection.selects (s : Selection) (name : String) : Bool := s.all (·.selects name)

namespace Report

open Daybook.Text

def amountWidth : Nat := 16

/-- The amount as it is shown: written like the sample of its commodity. -/
def amountText (s : Store) (c : Commodity) : String :=
  match s.samples.find? c.name with
  | some sample => (sample.similar c.amount).text
  | none => c.text

def amountCell (s : Store) (c : Commodity) : String := alignRight amountWidth (amountText s c)

/-- The text, cut off to `width` characters if it is longer. Two dots show the cut where there is
room for them. -/
def shorten (width : Nat) (text : String) : String :=
  if text.length ≤ width then text
  else if width < 3 then String.ofList (text.toList.take width)
  else String.ofList (text.toList.take (width - 2)) ++ ".."

/-- How a report fails on an amount. One that leaves the range of the numbers is no matter of the
report. -/
def failure : AmountError → LedgerError
  | .overflow => .amount .overflow
  | e => .report e.message

/-- Writes a line, the last one first. -/
def writeLine (line : String) : Reporting (List String) Unit := modify (line :: ·)

/-- The text of lines that were written, the last one first. -/
def textOf (lines : List String) : String := String.join (lines.reverse.map (· ++ "\n"))

/-! ## Accounts and faults -/

def accounts (selection : Selection) : Reporter (List String) :=
  { Reporter.silent (List String) with
    rendered := fun s => (s.accounts.names.filter selection.selects).forM writeLine }

/-- The fault of a line of the file, with the line itself. -/
def faultText (path : String) (f : JournalFault) : String :=
  s!"{path}:{f.span.first}: " ++ f.fault.label ++ ": " ++ f.fault.message ++ "\n  | " ++ f.text ++
    "\n"

def faultsText (path : String) (faults : List JournalFault) : String :=
  String.join (faults.map (faultText path))

end Report

end Daybook
