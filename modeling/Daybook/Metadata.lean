import Daybook.Calendar.Date
import Daybook.Decimal.Reading
import Daybook.Decimal.Printing
import Daybook.NameMap

/-!
# Metadata

A value attached to a transaction or a posting is a number, a date or any other text. Its kind is
inferred from how it is written.
-/

namespace Daybook

open Daybook.Text

/-- A value that an annotation gives. -/
inductive MetaValue where
  | text (s : String)
  | number (n : Decimal)
  | date (d : Date)
  deriving DecidableEq, Repr

namespace MetaValue

/-- At most `most` digits at the start of the text, at least one, and what follows them. -/
def takeDigits? (most : Nat) (cs : List Char) : Option (Nat × List Char) :=
  let digits := (cs.take most).takeWhile isDigit
  if digits = [] then none else some (digitsValue digits, cs.drop digits.length)

/-- A year: four digits at most, or any number of them behind a sign. -/
def takeYear? (cs : List Char) : Option (Int × List Char) :=
  match trimStart cs with
  | '-' :: rest => (takeDigits? rest.length rest).map fun (n, rest) => (-(n : Int), rest)
  | '+' :: rest => (takeDigits? rest.length rest).map fun (n, rest) => ((n : Int), rest)
  | cs => (takeDigits? 4 cs).map fun (n, rest) => ((n : Int), rest)

/-- A date with the given separator, blanks allowed before each number. -/
def readDate? (separator : Char) (cs : List Char) : Option Date := do
  let (year, cs) ← takeYear? cs
  let cs ← dropStart? [separator] cs
  let (month, cs) ← takeDigits? 2 (trimStart cs)
  let cs ← dropStart? [separator] cs
  let (day, cs) ← takeDigits? 2 (trimStart cs)
  if cs = [] then Date.ofYmd? year month day else none

/-- The value that a text writes, blanks around it apart: a number, else a date, else text. -/
def infer (raw : String) : MetaValue :=
  let cs := trim raw.toList
  match Decimal.read? cs with
  | some n => number n
  | none =>
    match ['/', '-', '.'].findSome? (readDate? · cs) with
    | some d => date d
    | none => text (String.ofList cs)

def shown : MetaValue → String
  | text s => s
  | number n => n.text
  | date d => d.text

def asText? : MetaValue → Option String
  | text s => some s
  | number _ | date _ => none

end MetaValue

/-- Values by the keys of the annotations. -/
abbrev Metadata := NameMap MetaValue

end Daybook
