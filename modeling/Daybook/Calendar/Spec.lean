import Daybook.Calendar.Moment
import Daybook.Calendar.Unit
import Daybook.Text.Basic
import Daybook.Text.LowerCase
import Daybook.Text.Numeral

/-!
# Written dates

A date specification names a day, a month, a quarter, a week or a year, in numbers or in words; it
stands for the range of days that it covers. A journal date names a single day in numbers.
-/

namespace Daybook

open Daybook.Text

/-- Why a text is no date. -/
inductive DateError where
  | empty
  | unrecognized (text : String)
  | outOfRange (text : String)
  | invalidTime (text : String)
  | invalidPeriod (text : String)
  | overflow
  deriving DecidableEq, Repr

/-- The wording of the error; an overflow has none. -/
def DateError.message : DateError → String
  | empty => "empty date"
  | unrecognized s => s!"unrecognized date '{s}'"
  | outOfRange s => s!"date out of range '{s}'"
  | invalidTime s => s!"invalid time '{s}'"
  | invalidPeriod s => s!"invalid period '{s}'"
  | overflow => ""

/-- The days from `start` up to, but not with, `stop`. -/
structure DateRange where
  start : Date
  stop : Date
  deriving DecidableEq, Repr

namespace DateRange

def ofUnit (raw : String) (unit : CalendarUnit) (start : Date) : Except DateError DateRange :=
  match unit.shift? start 1 with
  | some stop => .ok ⟨start, stop⟩
  | none => .error (.outOfRange raw)

def contains (r : DateRange) (d : Date) : Bool := r.start ≤ d && d < r.stop

end DateRange

namespace DateSpec

/-- The names of the months, whole or cut to three letters. -/
def monthNames : List (String × Nat) :=
  [("jan", 1), ("january", 1), ("feb", 2), ("february", 2), ("mar", 3), ("march", 3), ("apr", 4),
   ("april", 4), ("may", 5), ("jun", 6), ("june", 6), ("jul", 7), ("july", 7), ("aug", 8),
   ("august", 8), ("sep", 9), ("september", 9), ("oct", 10), ("october", 10), ("nov", 11),
   ("november", 11), ("dec", 12), ("december", 12)]

/-- The first year of the century of a year. -/
def century (year : Int) : Int := year / 100 * 100

/-- A year of two digits, taken to lie in the century of `reference`; nothing if the first year of
the century or the sum leaves 32 bits. -/
def expandYear? (yy reference : Int) : Option Int := do
  let first ← checked? (century reference)
  checked? (first + yy)

/-- The date that the numbers name, or an error about the text that holds them. -/
def dayOf (raw : String) (year : Int) (month day : Nat) : Except DateError Date :=
  match Date.ofYmd? year month day with
  | some d => .ok d
  | none => .error (.outOfRange raw)

def readYear (raw : String) (digits : List Char) : Except DateError Int :=
  match readInt32? digits with
  | some n => .ok n
  | none => .error (.unrecognized raw)

def readPart (raw : String) (digits : List Char) : Except DateError Nat :=
  match readNat32? digits with
  | some n => .ok n
  | none => .error (.unrecognized raw)

/-- A year in digits; one of at most two digits lies in the century of `reference`. -/
def readFullYear (raw : String) (reference : Int) (digits : List Char) : Except DateError Int := do
  let y ← readYear raw digits
  if digits.length ≤ 2 then
    match expandYear? y reference with
    | some y => return y
    | none => throw .overflow
  else return y

/-- Whether the character separates the numbers of a date. -/
def isSeparator (c : Char) : Bool := c = '/' || c = '-' || c = '.'

/-- The range that numbers name: year, month and day; year and month; month and day of `year`; a
year; or a month of `year`. A year that stands first has four digits unless a day follows. -/
def readNumeric (raw : String) (year : Int) : Except DateError DateRange := do
  let parts := pieces isSeparator raw.toList
  if parts.any (fun p => p = [] || !p.all isDigit) then throw (.unrecognized raw)
  match parts with
  | [y, m, d] =>
    let y ← readFullYear raw year y
    let m ← readPart raw m
    let d ← readPart raw d
    DateRange.ofUnit raw .day (← dayOf raw y m d)
  | [a, b] =>
    if a.length = 4 then
      let y ← readYear raw a
      let m ← readPart raw b
      DateRange.ofUnit raw .month (← dayOf raw y m 1)
    else
      let m ← readPart raw a
      let d ← readPart raw b
      DateRange.ofUnit raw .day (← dayOf raw year m d)
  | [a] =>
    if a.length = 4 then
      DateRange.ofUnit raw .year (← dayOf raw (← readYear raw a) 1 1)
    else if a.length ≤ 2 then
      DateRange.ofUnit raw .month (← dayOf raw year (← readPart raw a) 1)
    else throw (.unrecognized raw)
  | _ => throw (.unrecognized raw)

/-- The unit `last`, `this` or `next`, seen from `today`. -/
def readRelative (raw modifier unit : String) (today : Date) : Except DateError DateRange := do
  let some unit := CalendarUnit.ofWord? unit | throw (.unrecognized raw)
  let offset ← match modifier with
    | "last" => pure (-1)
    | "this" => pure 0
    | "next" => pure 1
    | _ => throw (.unrecognized raw)
  match unit.shift? (unit.startOf today) offset with
  | some start => DateRange.ofUnit raw unit start
  | none => throw (.outOfRange raw)

def nearDay (raw : String) (today : Date) (n : Int) : Except DateError DateRange :=
  match today.addDays? n with
  | some d => DateRange.ofUnit raw .day d
  | none => .error (.outOfRange raw)

/-- The range of days that a specification names. -/
def readRange (input : String) (today : Date) : Except DateError DateRange :=
  let trimmed := trim input.toList
  let raw := String.ofList trimmed
  if trimmed = [] then .error .empty else
  match (words (toLower raw).toList).map String.ofList with
  | ["today"] => DateRange.ofUnit raw .day today
  | ["yesterday"] => nearDay raw today (-1)
  | ["tomorrow"] => nearDay raw today 1
  | [modifier, unit] => readRelative raw modifier unit today
  | [word] =>
    match monthNames.lookup word with
    | some month => do DateRange.ofUnit raw .month (← dayOf raw today.year month 1)
    | none => readNumeric word today.year
  | _ => .error (.unrecognized raw)

/-- The first day that a specification names. -/
def readDate (input : String) (today : Date) : Except DateError Date :=
  return (← readRange input today).start

/-- A time of day: hours and minutes, with or without seconds. -/
def readTime (input : String) : Except DateError TimeOfDay :=
  let parts := (pieces (· = ':') input.toList).mapM readNat32?
  let time := match parts with
    | some [h, m] => TimeOfDay.ofHms? h m 0
    | some [h, m, s] => TimeOfDay.ofHms? h m s
    | _ => none
  match time with
  | some t => .ok t
  | none => .error (.invalidTime input)

/-- A date specification, with or without a time of day behind it. -/
def readMoment (input : String) (today : Date) : Except DateError Moment := do
  let raw := trim input.toList
  match cutLast? isBlank raw with
  | some (date, time) =>
    if time.contains ':' then
      let d ← readDate (String.ofList date) today
      let t ← readTime (String.ofList time)
      return ⟨d, t⟩
    else return .ofDate (← readDate (String.ofList raw) today)
  | none => return .ofDate (← readDate (String.ofList raw) today)

/-- A single day in numbers; `year` completes a date that has none. -/
def readJournalDate (input : String) (year : Int) : Except DateError Date := do
  let trimmed := trim input.toList
  let raw := String.ofList trimmed
  if trimmed = [] then throw .empty
  let range ← readNumeric raw year
  if CalendarUnit.day.shift? range.start 1 = some range.stop then return range.start
  else throw (.unrecognized raw)

end DateSpec

end Daybook
