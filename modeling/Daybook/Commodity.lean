import Daybook.Decimal.Arith
import Daybook.Decimal.Printing

/-!
# Commodities

An amount of a commodity: a decimal number, the name of what is counted, and how the amount is
written. Only amounts of one name and one notation can be added (`add_eq_mismatch_iff`).
-/

namespace Daybook

/-- An amount of what `name` names. A currency stands before its number; the precision is the
number of decimals shown; `fixprice` and `total` qualify the amount when it is a price. -/
structure Commodity where
  name : String
  amount : Decimal
  currency : Bool
  precision : Nat
  fixprice : Bool
  total : Bool
  deriving DecidableEq, Repr

/-- Why two amounts have no sum. -/
inductive AmountError where
  | mismatch (left right : Commodity)
  | overflow
  deriving DecidableEq, Repr

namespace Commodity

/-- An amount with its unit behind it, shown with the decimals that it has. -/
def plain (name : String) (amount : Decimal) : Commodity :=
  ⟨name, amount, false, amount.scale, false, false⟩

/-- An amount with its unit before it, shown with the decimals that it has. -/
def ofCurrency (name : String) (amount : Decimal) : Commodity :=
  ⟨name, amount, true, amount.scale, false, false⟩

/-- Another amount of the commodity, written alike. -/
def similar (c : Commodity) (amount : Decimal) : Commodity := { c with amount := amount }

/-- Whether two amounts have one name and stand on the same side of it. -/
def isSimilar (a b : Commodity) : Bool := a.name = b.name && a.currency = b.currency

def invert (c : Commodity) : Commodity := c.similar c.amount.neg

def abs (c : Commodity) : Commodity := c.similar c.amount.abs

def isZero (c : Commodity) : Bool := c.amount.isZero

def isNegative (c : Commodity) : Bool := c.amount.isBelowZero

/-- The largest amount that counts as balanced, nine thousandths. -/
def tolerance : Decimal := ⟨false, 9, 3, by decide, by decide⟩

/-- Whether the amount is close enough to zero. -/
def isBalanced (c : Commodity) : Bool := c.amount.abs.le tolerance

/-- The amount as journals write it, rounded to its precision. -/
def text (c : Commodity) : String :=
  let number := c.amount.textWithPlaces c.precision
  if c.currency then
    match number.toList with
    | '-' :: digits => "-" ++ c.name ++ String.ofList digits
    | _ => c.name ++ number
  else if c.name = "" then number
  else number ++ " " ++ c.name

instance : ToString Commodity := ⟨text⟩

/-- The amount `n`, which a sum or product led to, with the larger of two precisions. -/
def settled (c other : Commodity) (n : Option Decimal) : Except AmountError Commodity :=
  match n with
  | some n => .ok { c with amount := n, precision := max c.precision other.precision }
  | none => .error .overflow

/-- The sum of two similar amounts, written as the first one. -/
def add (a b : Commodity) : Except AmountError Commodity :=
  if a.isSimilar b then a.settled b (a.amount.add? b.amount) else .error (.mismatch a b)

/-- The difference of two similar amounts, written as the first one. -/
def sub (a b : Commodity) : Except AmountError Commodity :=
  if a.isSimilar b then a.settled b (a.amount.sub? b.amount) else .error (.mismatch a b)

theorem add_eq_mismatch_iff {a b x y : Commodity} :
    a.add b = .error (.mismatch x y) ↔ a.isSimilar b = false ∧ x = a ∧ y = b := by
  simp only [add]
  split
  case isTrue h =>
    simp only [settled, h]
    split <;> simp
  case isFalse h =>
    simp only [Bool.not_eq_true] at h
    simp [h, eq_comm]

end Commodity

def AmountError.message : AmountError → String
  | mismatch left right => s!"commodity mismatch: cannot combine {left.text} with {right.text}"
  | overflow => ""

end Daybook
