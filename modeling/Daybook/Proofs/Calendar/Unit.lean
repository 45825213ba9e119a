import Daybook.Calendar.Unit
import Daybook.Proofs.Calendar.DayNumber

/-!
# Dates some units apart

Days and weeks are moved by as days, months, quarters and years as months; the day of the month is
kept, or lowered to the length of the month that is reached. Main statement: moving by a number of
units gives the one date that lies so far off (`shift?_eq_some_iff`), if the calendar reaches so far.
-/

namespace Daybook

open Daybook.Text

variable {n : Int} {d d' : Date} {unit : CalendarUnit}

/-! ## Months -/

/-- The length of a month, the months counted from January of year 0. -/
def monthLength (i : Int) : Nat := daysInMonth (i / 12) ((i % 12).toNat + 1)

namespace Date

theorem monthIndex_div (d : Date) : d.monthIndex / 12 = d.year := by
  obtain ⟨hlow, hhigh⟩ := d.isDay.2.1
  rw [monthIndex]
  omega

theorem monthIndex_mod (d : Date) : (d.monthIndex % 12).toNat + 1 = d.month := by
  obtain ⟨hlow, hhigh⟩ := d.isDay.2.1
  rw [monthIndex]
  omega

def lengthOfMonth (d : Date) : Nat := daysInMonth d.year d.month

theorem monthLength_monthIndex (d : Date) : monthLength d.monthIndex = d.lengthOfMonth := by
  rw [monthLength, monthIndex_div, monthIndex_mod, lengthOfMonth]

theorem eq_of_monthIndex_eq (hmonth : d.monthIndex = d'.monthIndex) (hday : d.day = d'.day) :
    d = d' := by
  refine eq_of_dayNumber_eq ?_
  rw [dayNumber_eq, dayNumber_eq, hmonth, hday]

theorem exists_day (d : Date) {day : Nat} (hlow : 1 ≤ day) (hhigh : day ≤ d.lengthOfMonth) :
    ∃ d' : Date, d'.monthIndex = d.monthIndex ∧ d'.day = day :=
  ⟨⟨d.year, d.month, day, d.isDay.1, d.isDay.2.1, hlow, hhigh⟩, rfl, rfl⟩

theorem addMonths?_eq_some_iff : d.addMonths? n = some d' ↔
    d'.monthIndex = d.monthIndex + n ∧ d'.day = min d.day (monthLength d'.monthIndex) := by
  have hadd : d.addMonths? n = ofYmd? ((d.monthIndex + n) / 12)
      (((d.monthIndex + n) % 12).toNat + 1) (min d.day (monthLength (d.monthIndex + n))) := rfl
  rw [hadd, ofYmd?_eq_some_iff]
  constructor
  · rintro ⟨hyear, hmonth, hday⟩
    have hindex : d'.monthIndex = d.monthIndex + n := by
      rw [monthIndex, hyear, hmonth]
      omega
    exact ⟨hindex, by rw [hindex, hday]⟩
  · rintro ⟨hindex, hday⟩
    rw [← hindex]
    exact ⟨d'.monthIndex_div.symm, d'.monthIndex_mod.symm, hday⟩

end Date

namespace CalendarUnit

def isDays : CalendarUnit → Bool
  | day | week => true
  | month | quarter | year => false

def size : CalendarUnit → Nat
  | day | month => 1
  | week => 7
  | quarter => 3
  | year => 12

/-- The second date lies `n` units behind the first one. -/
def Reaches (unit : CalendarUnit) (d : Date) (n : Int) (d' : Date) : Prop :=
  if unit.isDays then d'.dayNumber = d.dayNumber + unit.size * n
  else d'.monthIndex = d.monthIndex + unit.size * n ∧
    d'.day = min d.day (monthLength d'.monthIndex)

theorem size_pos (unit : CalendarUnit) : 0 < unit.size := by
  cases unit <;> decide

theorem fitsInt32_of_monthIndex (h : d'.monthIndex = d.monthIndex + n) : fitsInt32 n = true := by
  obtain ⟨⟨hfirst, hlast⟩, ⟨hlow, hhigh⟩, -⟩ := d.isDay
  obtain ⟨⟨hfirst', hlast'⟩, ⟨hlow', hhigh'⟩, -⟩ := d'.isDay
  simp only [firstYear, lastYear] at hfirst hlast hfirst' hlast'
  simp only [fitsInt32, Bool.and_eq_true, decide_eq_true_eq]
  rw [Date.monthIndex, Date.monthIndex] at h
  omega

theorem addDays?_eq_some_iff : d.addDays? n = some d' ↔ d'.dayNumber = d.dayNumber + n :=
  Date.ofDayNumber?_eq_some_iff

theorem checkedMonths_eq_some_iff :
    (if fitsInt32 n then d.addMonths? n else none) = some d' ↔
      d'.monthIndex = d.monthIndex + n ∧ d'.day = min d.day (monthLength d'.monthIndex) := by
  constructor
  · intro h
    split at h
    · exact Date.addMonths?_eq_some_iff.mp h
    · cases h
  · intro h
    rw [if_pos (fitsInt32_of_monthIndex h.1), Date.addMonths?_eq_some_iff]
    exact h

theorem shift?_eq_some_iff : unit.shift? d n = some d' ↔ unit.Reaches d n d' := by
  cases unit with
  | day => simpa [shift?, Reaches, isDays, size] using addDays?_eq_some_iff
  | week => exact addDays?_eq_some_iff
  | month => simpa [shift?, Reaches, isDays, size] using Date.addMonths?_eq_some_iff
  | quarter => exact checkedMonths_eq_some_iff
  | year => exact checkedMonths_eq_some_iff

theorem Reaches.lt (h : unit.Reaches d n d') (hn : 0 < n) : d < d' := by
  have hsize : 0 < unit.size * n := Int.mul_pos (Int.natCast_pos.mpr unit.size_pos) hn
  rw [Reaches] at h
  split at h
  · change d.dayNumber < d'.dayNumber
    omega
  · exact Date.lt_of_monthIndex_lt (by omega)

end CalendarUnit

end Daybook
