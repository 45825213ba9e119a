import Daybook.Report.Basic
import Daybook.Report.Totals

/-!
# The register

All postings to the selected accounts in the order of their dates, with a running total for each
commodity.
-/

namespace Daybook.Report

open Daybook.Text

def payeeWidth : Nat := 22

def accountWidth : Nat := 30

/-- A row of the register. The date and the payee stand on the first row of a transaction. -/
structure RegisterRow where
  heading : Option (Date × String)
  account : String
  amount : Commodity
  running : Commodity
  deriving DecidableEq, Repr

def RegisterRow.text (s : Store) (r : RegisterRow) : String :=
  let (date, payee) := match r.heading with
    | some (date, payee) => (date.text, shorten payeeWidth payee)
    | none => ("", "")
  alignLeft 10 date ++ " " ++ alignLeft payeeWidth payee ++ " " ++
    alignLeft accountWidth (shorten accountWidth r.account) ++ " " ++
    amountCell s r.amount ++ " " ++ amountCell s r.running

/-- The register so far: whether the transaction has a row already, the running totals, and the
lines, the last one first. -/
structure Register where
  underway : Bool
  totals : Totals
  lines : List String
  deriving DecidableEq, Repr

namespace Register

def empty : Register := ⟨false, .empty, []⟩

/-- Enters a posting of an amount to an account. -/
def enter (s : Store) (t : Transaction) (p : Posting) (account : String) (amount : Commodity)
    (g : Register) : Except AmountError Register := do
  let totals ← g.totals.add amount
  let running := (totals.find? amount.name).getD amount
  let heading := if g.underway then none else some (t.date, p.payee t)
  return ⟨true, totals, RegisterRow.text s ⟨heading, account, amount, running⟩ :: g.lines⟩

end Register

/-- Shows the postings to the selected accounts. -/
def register (selection : Selection) : Reporter Register :=
  { Reporter.silent Register with
    posted := fun s t p => do
      match p.account.name?, p.amount with
      | some account, some amount =>
        if selection.selects account then
          match (← get).enter s t p account amount with
          | .ok g => set g
          | .error e => throw (failure e)
      | _, _ => return ()
    closed := fun _ _ => modify fun g => { g with underway := false } }

end Daybook.Report
