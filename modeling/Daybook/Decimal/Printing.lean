import Daybook.Decimal.Arith
import Daybook.Text.Numeral

/-!
# Printing decimal numbers

A number is printed with all decimals of its scale, or with a given number of places.
-/

namespace Daybook.Decimal

open Daybook.Text

/-- The digits of the number without sign, a point before the last `scale` of them. -/
def digits (a : Decimal) : List Char :=
  let all := (zeroPadded (a.scale + 1) a.mantissa).toList
  let whole := all.take (all.length - a.scale)
  if a.scale = 0 then whole else whole ++ '.' :: all.drop (all.length - a.scale)

/-- The number with the decimals of its scale; a minus sign stands also before a negative zero. -/
def text (a : Decimal) : String :=
  String.ofList (if a.negative then '-' :: a.digits else a.digits)

/-- The number rounded to `places` decimals, half to even, and filled up with zeros to as many. -/
def textWithPlaces (a : Decimal) (places : Nat) : String :=
  let r := a.round places
  let filling := List.replicate (places - r.scale) '0'
  let point := if r.scale = 0 && places ≠ 0 then ['.'] else []
  r.text ++ String.ofList (point ++ filling)

instance : ToString Decimal := ⟨text⟩

end Daybook.Decimal
