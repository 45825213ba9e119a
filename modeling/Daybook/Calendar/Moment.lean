import Daybook.Calendar.Date

/-!
# Moments

A moment is a date with a time of day, to the second.
-/

namespace Daybook

/-- A time of day. -/
structure TimeOfDay where
  hour : Fin 24
  minute : Fin 60
  second : Fin 60
  deriving DecidableEq, Repr

namespace TimeOfDay

def midnight : TimeOfDay := ⟨0, 0, 0⟩

/-- The time that the three numbers name. -/
def ofHms? (hour minute second : Nat) : Option TimeOfDay :=
  if h : hour < 24 ∧ minute < 60 ∧ second < 60 then
    some ⟨⟨hour, h.1⟩, ⟨minute, h.2.1⟩, ⟨second, h.2.2⟩⟩
  else none

def seconds (t : TimeOfDay) : Nat := 3600 * t.hour + 60 * t.minute + t.second

/-- The time with two digits for each part. -/
def text (t : TimeOfDay) : String :=
  Text.zeroPadded 2 t.hour ++ ":" ++ Text.zeroPadded 2 t.minute ++ ":" ++
    Text.zeroPadded 2 t.second

end TimeOfDay

/-- A date with a time of day. -/
structure Moment where
  date : Date
  time : TimeOfDay
  deriving DecidableEq, Repr

namespace Moment

def ofDate (d : Date) : Moment := ⟨d, .midnight⟩

/-- The seconds since the begin of day number 0. -/
def instant (m : Moment) : Int := 86400 * m.date.dayNumber + m.time.seconds

instance : LE Moment := ⟨fun a b => a.instant ≤ b.instant⟩

instance : LT Moment := ⟨fun a b => a.instant < b.instant⟩

instance (a b : Moment) : Decidable (a ≤ b) := inferInstanceAs (Decidable (a.instant ≤ b.instant))

instance (a b : Moment) : Decidable (a < b) := inferInstanceAs (Decidable (a.instant < b.instant))

end Moment

end Daybook
