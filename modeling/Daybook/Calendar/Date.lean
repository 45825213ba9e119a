import Daybook.Text.Numeral

/-!
# Calendar dates

Dates of the Gregorian calendar, extended to all years from `firstYear` to `lastYear`; the year
before year 1 is year 0. A date has a day number, which orders the dates and in which days are
counted.
-/

namespace Daybook

def firstYear : Int := -262143

def lastYear : Int := 262142

def isLeapYear (year : Int) : Bool :=
  (year % 4 = 0 && year % 100 ≠ 0) || year % 400 = 0

def daysInMonth (year : Int) : (month : Nat) → Nat
  | 4 | 6 | 9 | 11 => 30
  | 2 => if isLeapYear year then 29 else 28
  | _ => 31

/-- Whether the three numbers name a day of the calendar. -/
def IsDay (year : Int) (month day : Nat) : Prop :=
  (firstYear ≤ year ∧ year ≤ lastYear) ∧ (1 ≤ month ∧ month ≤ 12) ∧
    1 ≤ day ∧ day ≤ daysInMonth year month

instance (year : Int) (month day : Nat) : Decidable (IsDay year month day) :=
  inferInstanceAs (Decidable (_ ∧ _))

/-- A day of the calendar. -/
structure Date where
  year : Int
  month : Nat
  day : Nat
  isDay : IsDay year month day
  deriving DecidableEq, Repr

namespace Date

/-- The date that the three numbers name. -/
def ofYmd? (year : Int) (month day : Nat) : Option Date :=
  if h : IsDay year month day then some ⟨year, month, day, h⟩ else none

theorem ofYmd?_eq_some_iff {y : Int} {m d : Nat} {date : Date} :
    ofYmd? y m d = some date ↔ date.year = y ∧ date.month = m ∧ date.day = d := by
  simp only [ofYmd?]
  split
  case isTrue h =>
    constructor
    · rintro ⟨rfl⟩; exact ⟨rfl, rfl, rfl⟩
    · rintro ⟨rfl, rfl, rfl⟩; rfl
  case isFalse h =>
    constructor
    · simp
    · rintro ⟨rfl, rfl, rfl⟩; exact absurd date.isDay h

def first : Date := ⟨firstYear, 1, 1, by decide⟩

def last : Date := ⟨lastYear, 12, 31, by decide⟩

instance : Inhabited Date := ⟨first⟩

/-- The days from the first of March of year 0 to the first of March of the year, a year being
counted from March to February. -/
def daysBeforeYear (year : Int) : Int := 365 * year + year / 4 - year / 100 + year / 400

/-- The days from the first of March to the first day of a month, the months counted from March. -/
def daysBeforeMonth (month : Nat) : Nat := (153 * month + 2) / 5

/-- The days from the first of March of year 0. -/
def dayNumber (d : Date) : Int :=
  let year := if d.month ≤ 2 then d.year - 1 else d.year
  daysBeforeYear year + daysBeforeMonth ((d.month + 9) % 12) + (d.day - 1 : Nat)

/-- The year, counted from March, that holds a day of a cycle of 400 years. -/
def yearOfCycle (day : Int) : Int := (day - day / 1460 + day / 36524 - day / 146096) / 365

def ofDayNumber? (n : Int) : Option Date :=
  let day := n % 146097
  let year := n / 146097 * 400 + yearOfCycle day
  let ofYear := (n - daysBeforeYear year).toNat
  let month := (5 * ofYear + 2) / 153
  let dayOfMonth := ofYear - daysBeforeMonth month + 1
  if month < 10 then ofYmd? year (month + 3) dayOfMonth
  else ofYmd? (year + 1) (month - 9) dayOfMonth

/-- The date `n` days later, unless it lies outside the calendar. -/
def addDays? (d : Date) (n : Int) : Option Date := ofDayNumber? (d.dayNumber + n)

def sinceSunday (d : Date) : Int := (d.dayNumber + 3) % 7

instance : LE Date := ⟨fun a b => a.dayNumber ≤ b.dayNumber⟩

instance : LT Date := ⟨fun a b => a.dayNumber < b.dayNumber⟩

instance (a b : Date) : Decidable (a ≤ b) := inferInstanceAs (Decidable (a.dayNumber ≤ b.dayNumber))

instance (a b : Date) : Decidable (a < b) := inferInstanceAs (Decidable (a.dayNumber < b.dayNumber))

def earlier (a b : Date) : Date := if b < a then b else a

/-- The date `n` months later; the day is lowered to the length of the month. -/
def addMonths? (d : Date) (n : Int) : Option Date :=
  let months := 12 * d.year + (d.month - 1 : Nat) + n
  let year := months / 12
  let month := (months % 12).toNat + 1
  ofYmd? year month (min d.day (daysInMonth year month))

/-- A year in four digits; it has a sign when it is below 0 or above 9999. -/
def yearText (year : Int) : String :=
  let digits := Text.zeroPadded 4 year.natAbs
  if year < 0 then "-" ++ digits else if 9999 < year then "+" ++ digits else digits

def textWith (separator : String) (d : Date) : String :=
  yearText d.year ++ separator ++ Text.zeroPadded 2 d.month ++ separator ++
    Text.zeroPadded 2 d.day

def text (d : Date) : String := d.textWith "/"

end Date

end Daybook
