import Mathlib.Tactic.IntervalCases
import Mathlib.Order.Monotone.Basic
import Daybook.Calendar.Date

/-!
# The order of dates

Day numbers order the dates as their months do, and within a month as the days do (`le_iff`): each
month begins on the day after the last one of the month before (`monthStart_succ`).
-/

namespace Daybook.Date

/-- The months from January of year 0 to the month of the date. -/
def monthIndex (d : Date) : Int := 12 * d.year + (d.month - 1 : Nat)

/-- The day number of the first day of a month, the months counted from January of year 0. -/
def monthStart (i : Int) : Int :=
  daysBeforeYear (if i % 12 < 2 then i / 12 - 1 else i / 12) +
    daysBeforeMonth ((i % 12 + 10) % 12).toNat

theorem dayNumber_eq (d : Date) : d.dayNumber = monthStart d.monthIndex + (d.day - 1 : Nat) := by
  obtain ⟨year, month, day, ⟨-, ⟨hlow, hhigh⟩, -⟩⟩ := d
  have hyear : (12 * year + (month - 1 : Nat)) / 12 = year := by omega
  have hmonth : (12 * year + (month - 1 : Nat)) % 12 = (month - 1 : Nat) := by omega
  have hearly : ((month - 1 : Nat) : Int) < 2 ↔ month ≤ 2 := by omega
  have hplace : ((((month - 1 : Nat) : Int) + 10) % 12).toNat = (month + 9) % 12 := by omega
  simp only [dayNumber, monthStart, monthIndex, hyear, hmonth, hearly, hplace]

theorem isLeapYear_iff (year : Int) :
    isLeapYear year = true ↔ year % 4 = 0 ∧ year % 100 ≠ 0 ∨ year % 400 = 0 := by
  simp [isLeapYear]

theorem daysBeforeYear_eq (year : Int) : daysBeforeYear year =
    daysBeforeYear (year - 1) + 337 + daysInMonth year 2 := by
  -- Each quotient grows by one in the years that its divisor divides.
  have h4 : (year - 1) / 4 = year / 4 - if year % 4 = 0 then 1 else 0 := by omega
  have h100 : (year - 1) / 100 = year / 100 - if year % 100 = 0 then 1 else 0 := by omega
  have h400 : (year - 1) / 400 = year / 400 - if year % 400 = 0 then 1 else 0 := by omega
  have hhundred : year % 100 = 0 → year % 4 = 0 := by omega
  have hcycle : year % 400 = 0 → year % 100 = 0 := by omega
  have hleap := isLeapYear_iff year
  simp only [daysBeforeYear, daysInMonth, h4, h100, h400, hleap]
  grind

theorem monthStart_succ (i : Int) :
    monthStart (i + 1) = monthStart i + daysInMonth (i / 12) ((i % 12).toNat + 1) := by
  obtain ⟨year, m, hm, rfl⟩ : ∃ (year : Int) (m : Nat), m < 12 ∧ i = 12 * year + m :=
    ⟨i / 12, (i % 12).toNat, by omega, by omega⟩
  have hfebruary := daysBeforeYear_eq year
  have hyear : (12 * year + m) / 12 = year := by omega
  have hmonth : (12 * year + m) % 12 = m := by omega
  have hnext : (12 * year + m + 1) / 12 = if m = 11 then year + 1 else year := by omega
  have hnext' : (12 * year + m + 1) % 12 = ((m + 1) % 12 : Nat) := by omega
  rw [monthStart, monthStart, hyear, hmonth, hnext, hnext']
  -- Only the length of February depends on the year.
  interval_cases m
  all_goals simp [daysBeforeMonth, daysInMonth] at hfebruary ⊢
  all_goals omega

theorem monthStart_mono {i j : Int} (h : i ≤ j) : monthStart i ≤ monthStart j := by
  have hstep (i : Int) : monthStart i ≤ monthStart (i + 1) := by
    rw [monthStart_succ]
    omega
  exact monotone_int_of_le_succ hstep h

variable {a b : Date}

theorem monthStart_le (d : Date) : monthStart d.monthIndex ≤ d.dayNumber := by
  rw [dayNumber_eq]
  omega

theorem dayNumber_lt (d : Date) : d.dayNumber < monthStart (d.monthIndex + 1) := by
  obtain ⟨-, ⟨hlow, hhigh⟩, hday, hlast⟩ := d.isDay
  have hyear : d.monthIndex / 12 = d.year := by
    rw [monthIndex]
    omega
  have hmonth : (d.monthIndex % 12).toNat + 1 = d.month := by
    rw [monthIndex]
    omega
  rw [dayNumber_eq, monthStart_succ, hyear, hmonth]
  omega

theorem lt_of_monthIndex_lt (h : a.monthIndex < b.monthIndex) : a < b :=
  calc a.dayNumber < monthStart (a.monthIndex + 1) := dayNumber_lt a
    _ ≤ monthStart b.monthIndex := monthStart_mono h
    _ ≤ b.dayNumber := monthStart_le b

theorem le_iff : a ≤ b ↔
    a.monthIndex < b.monthIndex ∨ a.monthIndex = b.monthIndex ∧ a.day ≤ b.day := by
  have hday : 1 ≤ a.day ∧ 1 ≤ b.day := ⟨a.isDay.2.2.1, b.isDay.2.2.1⟩
  rcases Int.lt_trichotomy a.monthIndex b.monthIndex with hlt | heq | hgt
  · exact iff_of_true (Int.le_of_lt (lt_of_monthIndex_lt hlt)) (.inl hlt)
  · change a.dayNumber ≤ b.dayNumber ↔ _
    rw [dayNumber_eq, dayNumber_eq, heq]
    omega
  · exact iff_of_false (Int.not_le.mpr (lt_of_monthIndex_lt hgt)) (by omega)

theorem first_le_iff (ha : a.day = 1) : a ≤ b ↔ a.monthIndex ≤ b.monthIndex := by
  have hday : 1 ≤ b.day := b.isDay.2.2.1
  rw [le_iff]
  omega

end Daybook.Date
