/-!
# Whole numbers in text

Reading numbers of 32 bits, and writing numbers with a least number of digits.
-/

namespace Daybook.Text

def isDigit (c : Char) : Bool := '0' ≤ c && c ≤ '9'

def digitValue (c : Char) : Nat := c.toNat - '0'.toNat

/-- The number that the digits write, most significant first. -/
def digitsValue (cs : List Char) : Nat := cs.foldl (fun n c => 10 * n + digitValue c) 0

/-- A number written with digits alone, at least one. -/
def readDigits? (cs : List Char) : Option Nat :=
  if cs ≠ [] ∧ cs.all isDigit then some (digitsValue cs) else none

/-- A number below `2 ^ 32`; a plus sign may stand before it. -/
def readNat32? (cs : List Char) : Option Nat := do
  let n ← readDigits? (match cs with | '+' :: rest => rest | _ => cs)
  if n < 4294967296 then some n else none

/-- Whether the number has a two's complement form of 32 bits. -/
def fitsInt32 (n : Int) : Bool := -2147483648 ≤ n && n < 2147483648

/-- The number, if it has 32 bits. -/
def checked? (n : Int) : Option Int := if fitsInt32 n then some n else none

/-- A number of 32 bits; a sign may stand before it. -/
def readInt32? (cs : List Char) : Option Int := do
  let n : Int ← match cs with
    | '+' :: rest => (readDigits? rest).map Int.ofNat
    | '-' :: rest => (readDigits? rest).map (-Int.ofNat ·)
    | _ => (readDigits? cs).map Int.ofNat
  checked? n

def zeroPadded (width n : Nat) : String :=
  let digits := (toString n).toList
  String.ofList (List.replicate (width - digits.length) '0' ++ digits)

end Daybook.Text
