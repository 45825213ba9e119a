import Daybook.Decimal.Basic
import Daybook.Text.Basic
import Daybook.Text.Numeral

/-!
# Reading decimal numbers

A number is written with digits, at most one point among or beside them, an optional sign before
and an optional exponent behind; an underscore may follow a digit or the point. Decimals beyond
what a number can hold are rounded, a half away from zero, by the first digit that is left out.
-/

namespace Daybook.Decimal

open Daybook.Text

/-- The number that ends with the mantissa `m`, rounded by the first character left out. What
follows that character has no influence. -/
def roundedBy (negative : Bool) (m scale : Nat) (c : Char) : Option Decimal :=
  if isDigit c then
    if digitValue c < 5 then ofParts? negative m scale
    else if m + 1 < mantissaLimit then ofParts? negative (m + 1) scale
    else if scale = 0 then none
    else ofParts? negative ((m + 5) / 10) (scale - 1)
  else if c = '_' || c = '.' then ofParts? negative m scale
  else none

/-- Reads on after the mantissa `m` with `scale` decimals; `point` tells whether the point has been
read, `seen` whether a digit has. -/
def readFrom? (negative point seen : Bool) (m scale : Nat) : List Char → Option Decimal
  | [] => if seen then ofParts? negative m scale else none
  | c :: rest =>
    if scale = maxScale then roundedBy negative m scale c
    else if isDigit c then
      let n := 10 * m + digitValue c
      if n < mantissaLimit then
        readFrom? negative point true n (if point then scale + 1 else scale) rest
      else if point then roundedBy negative m scale c
      else none
    else if c = '.' && !point then readFrom? negative true seen m scale rest
    else if c = '_' && seen then readFrom? negative point seen m scale rest
    else none

/-- A number without an exponent. -/
def readPlain? : List Char → Option Decimal
  | '-' :: rest => readFrom? true false false 0 0 rest
  | '+' :: rest => readFrom? false false false 0 0 rest
  | cs => readFrom? false false false 0 0 cs

/-- The number times `10 ^ -n`. -/
def lowered? (a : Decimal) (n : Nat) : Option Decimal :=
  if h : a.scale + n ≤ maxScale then some { a with scale := a.scale + n, scale_le := h } else none

/-- The number times `10 ^ n`: decimals are used up first. -/
def raised? (a : Decimal) (n : Nat) : Option Decimal :=
  if n ≤ a.scale then
    some { a with scale := a.scale - n, scale_le := Nat.le_trans (Nat.sub_le ..) a.scale_le }
  else if n ≤ maxScale then ofParts? a.negative (a.mantissa * powerOfTen (n - a.scale)) 0
  else none

def read? (cs : List Char) : Option Decimal :=
  match cut? (fun c => c = 'e' || c = 'E') cs with
  | none => readPlain? cs
  | some (base, exponent) => do
    let a ← readPlain? base
    match exponent with
    | '-' :: digits =>
      let n ← readNat32? digits
      if n ≤ maxScale then a.lowered? n else none
    | digits => a.raised? (← readNat32? digits)

end Daybook.Decimal
