import Daybook.Report.Basic
import Daybook.Report.Totals

/-!
# Balances

The balances of accounts, a row for each commodity, and their grand total. What is posted to an
account counts for the accounts above it too, so the total takes in only those accounts above which
none is shown.
-/

namespace Daybook.Report

open Daybook.Text

/-- The sums that the grand total consists of. -/
structure GrandTotal where
  balances : Totals
  debits : Totals
  credits : Totals
  deriving DecidableEq, Repr

namespace GrandTotal

def empty : GrandTotal := ⟨.empty, .empty, .empty⟩

/-- The total with what has been posted to one account more. -/
def add (g : GrandTotal) (t : Turnover) : Except AmountError GrandTotal := do
  let balances ← g.balances.addAll t.balances.values
  let debits ← g.debits.addAll t.debits.values
  let credits ← g.credits.addAll t.credits.values
  return ⟨balances, debits, credits⟩

end GrandTotal

/-- A row of the report. The label stands on the last row of an account. -/
structure BalanceRow where
  balance : Commodity
  debit : Option Commodity
  credit : Option Commodity
  label : String
  deriving DecidableEq, Repr

/-- The amount in its column, which is empty without one. -/
def optionalCell (s : Store) (c : Option Commodity) : String :=
  match c with
  | some c => amountCell s c
  | none => alignRight amountWidth ""

/-- The row as it is written; debits and credits are shown if the options say so. -/
def BalanceRow.text (s : Store) (r : BalanceRow) : String :=
  let sides :=
    if s.options.debitCredit then optionalCell s r.debit ++ " " ++ optionalCell s r.credit ++ " "
    else ""
  String.ofList (trimEnd (sides ++ amountCell s r.balance ++ "  " ++ r.label).toList)

/-- Whether something has been posted to an account right beneath. -/
def hasPostedChild (s : Store) (name : String) : Bool :=
  s.accounts.values.any fun a => AccountName.parent? a.name = some name && !a.turnover.isEmpty

/-- The accounts that are shown: selected ones that have a balance, and without subtotals only
those right beneath which nothing has been posted. -/
def shownAccounts (selection : Selection) (s : Store) : List Account :=
  s.accounts.values.filter fun a =>
    selection.selects a.name && a.turnover.balances.values.any (!·.isZero) &&
      (!s.options.noSubtotal || !hasPostedChild s a.name)

/-- Whether the account lies beneath another one of the list. -/
def isNested (shown : List Account) (a : Account) : Bool :=
  shown.any fun other => other.name ≠ a.name && AccountName.isWithin a.name other.name

/-- A row for each balance of an account. With debits and credits zero balances have rows too, and
an account that grows by credits shows its balance from that side. -/
def balanceRows (options : Options) (a : Account) : List BalanceRow :=
  let t := a.turnover
  let balances := t.balances.values.filter fun c => options.debitCredit || !c.isZero
  let fromCredit := options.debitCredit && !a.isDebitNormal
  let row (label : String) (c : Commodity) : BalanceRow :=
    ⟨if fromCredit then c.invert else c, t.debits.find? c.name, t.credits.find? c.name, label⟩
  balances.dropLast.map (row "") ++ balances.getLast?.toList.map (row a.name)

/-- The rows of the grand total, one without a commodity if all sums are zero. -/
def totalRows (g : GrandTotal) : List BalanceRow :=
  match g.balances.nonzero with
  | [] => [⟨.plain "" .zero, none, none, ""⟩]
  | sums => sums.map fun c => ⟨c, g.debits.find? c.name, g.credits.find? c.name, ""⟩

/-- The line above the grand total, as wide as the columns of amounts. -/
def rule (options : Options) : String :=
  let columns := if options.debitCredit then 3 else 1
  String.ofList (List.replicate (columns * amountWidth + columns - 1) '-')

/-- Writes the rows of accounts, and adds those that are not nested to the grand total. -/
def writeAccounts (s : Store) (shown : List Account) (g : GrandTotal) :
    List Account → Reporting (List String) GrandTotal
  | [] => return g
  | a :: rest => do
    let g ← if isNested shown a then pure g else
      match g.add a.turnover with
      | .ok g => pure g
      | .error e => throw (failure e)
    (balanceRows s.options a).forM fun r => writeLine (r.text s)
    writeAccounts s shown g rest

/-- Shows the balances of the selected accounts. -/
def balance (selection : Selection) : Reporter (List String) :=
  { Reporter.silent (List String) with
    rendered := fun s => do
      let shown := shownAccounts selection s
      let g ← writeAccounts s shown .empty shown
      writeLine (rule s.options)
      (totalRows g).forM fun r => writeLine (r.text s) }

end Daybook.Report
