import Daybook.Proofs.Calendar.Unit

/-!
# The extent of the calendar

The months of the calendar's years have all their days (`exists_inMonth`), and the days follow one
another without a gap from the first one to the last. Main statement: a whole number is the day
number of a date exactly if it lies between theirs (`exists_dayNumber_iff`).
-/

namespace Daybook.Date

variable {d : Date} {n i : Int} {day : Nat}

theorem daysInMonth_bounds (year : Int) (month : Nat) :
    28 ≤ daysInMonth year month ∧ daysInMonth year month ≤ 31 := by
  unfold daysInMonth
  split
  case h_5 => split <;> decide
  all_goals decide

/-! ## The months -/

/-- Whether the month lies in a year of the calendar, the months counted from January of year 0. -/
def IsMonth (i : Int) : Prop := firstYear ≤ i / 12 ∧ i / 12 ≤ lastYear

theorem isMonth_monthIndex (d : Date) : IsMonth d.monthIndex := by
  unfold IsMonth
  rw [monthIndex_div]
  exact d.isDay.1

theorem exists_inMonth (hmonth : IsMonth i) (hlow : 1 ≤ day) (hhigh : day ≤ monthLength i) :
    ∃ d : Date, d.monthIndex = i ∧ d.day = day := by
  have hnumber : 1 ≤ (i % 12).toNat + 1 ∧ (i % 12).toNat + 1 ≤ 12 := by omega
  let d : Date := ⟨i / 12, (i % 12).toNat + 1, day, hmonth, hnumber, hlow, hhigh⟩
  refine ⟨d, ?_, rfl⟩
  show 12 * (i / 12) + ((i % 12).toNat + 1 - 1 : Nat) = i
  omega

theorem exists_firstOfMonth (hmonth : IsMonth i) : ∃ d : Date, d.monthIndex = i ∧ d.day = 1 := by
  have hlength : 28 ≤ monthLength i := (daysInMonth_bounds _ _).1
  exact exists_inMonth hmonth (Nat.le_refl 1) (by omega)

theorem monthStart_lt {j : Int} (h : i < j) : monthStart i < monthStart j := by
  have hlength := daysInMonth_bounds (i / 12) ((i % 12).toNat + 1)
  have hnext := monthStart_succ i
  have hmono : monthStart (i + 1) ≤ monthStart j := monthStart_mono (by omega)
  omega

theorem dayNumber_eq_monthStart_iff : d.dayNumber = monthStart i ↔ d.monthIndex = i ∧ d.day = 1 := by
  have hday : 1 ≤ d.day := d.isDay.2.2.1
  constructor
  · intro h
    have hmonth : d.monthIndex = i := by
      rcases Int.lt_trichotomy d.monthIndex i with hlt | heq | hgt
      · have hbefore := dayNumber_lt d
        have hmono : monthStart (d.monthIndex + 1) ≤ monthStart i := monthStart_mono (by omega)
        omega
      · exact heq
      · have hafter := monthStart_le d
        have hmono := monthStart_lt hgt
        omega
    refine ⟨hmonth, ?_⟩
    rw [dayNumber_eq, hmonth] at h
    omega
  · rintro ⟨rfl, hfirst⟩
    rw [dayNumber_eq, hfirst]
    omega

/-! ## The days -/

theorem first_le (d : Date) : first ≤ d := by
  have hmonth := d.isMonth_monthIndex
  unfold IsMonth at hmonth
  apply (first_le_iff rfl).mpr
  show 12 * firstYear + (1 - 1 : Nat) ≤ d.monthIndex
  omega

theorem le_last (d : Date) : d ≤ last := by
  obtain ⟨⟨hfirst, hlast⟩, ⟨hlow, hhigh⟩, hday, hlength⟩ := d.isDay
  have hbound := (daysInMonth_bounds d.year d.month).2
  have hmonth : last.monthIndex = 12 * lastYear + 11 := rfl
  have hlastDay : last.day = 31 := rfl
  apply le_iff.mpr
  rw [hmonth, hlastDay, monthIndex]
  omega

theorem exists_succ (h : d < last) : ∃ next : Date, next.dayNumber = d.dayNumber + 1 := by
  obtain ⟨hyear, -, hday, hlength⟩ := d.isDay
  by_cases hend : d.day < d.lengthOfMonth
  · obtain ⟨next, hmonth, hnext⟩ := exists_day d (show 1 ≤ d.day + 1 by omega) hend
    refine ⟨next, ?_⟩
    rw [dayNumber_eq, dayNumber_eq, hmonth, hnext]
    omega
  · -- The last day of a month is followed by the first day of the next one.
    have hfull : d.day = daysInMonth d.year d.month :=
      Nat.le_antisymm hlength (Nat.le_of_not_lt hend)
    have hstart : d.dayNumber + 1 = monthStart (d.monthIndex + 1) := by
      rw [dayNumber_eq, monthStart_succ, monthIndex_div, monthIndex_mod, ← hfull]
      omega
    have hmonth : IsMonth (d.monthIndex + 1) := by
      have hbefore : monthStart (d.monthIndex + 1) ≤ last.dayNumber := hstart ▸ h
      have hafter : last.dayNumber < monthStart (last.monthIndex + 1) := dayNumber_lt last
      have hlt : ¬last.monthIndex + 1 ≤ d.monthIndex + 1 := fun hle => by
        have hmono := monthStart_mono hle
        omega
      have hlast : last.monthIndex = 12 * lastYear + 11 := rfl
      have hhere := monthIndex_div d
      unfold IsMonth
      omega
    obtain ⟨next, hnext⟩ := exists_firstOfMonth hmonth
    exact ⟨next, (dayNumber_eq_monthStart_iff.mpr hnext).trans hstart.symm⟩

theorem exists_dayNumber_iff :
    (∃ d : Date, d.dayNumber = n) ↔ first.dayNumber ≤ n ∧ n ≤ last.dayNumber := by
  constructor
  · rintro ⟨d, rfl⟩
    exact ⟨first_le d, le_last d⟩
  · rintro ⟨hlow, hhigh⟩
    -- Day by day from the first one.
    induction n, hlow using Int.leInduction with
    | base => exact ⟨first, rfl⟩
    | succ n hlow ih =>
      obtain ⟨d, hd⟩ := ih (by omega)
      have hlt : d < last := by
        show d.dayNumber < last.dayNumber
        omega
      rw [← hd]
      exact exists_succ hlt

end Daybook.Date
