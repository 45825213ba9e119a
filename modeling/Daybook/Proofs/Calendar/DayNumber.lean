import Mathlib.Tactic.Linarith
import Daybook.Proofs.Calendar.Order

/-!
# Dates and their day numbers

A cycle of 400 years has 146097 days. It is cut into four centuries, these into quadrennia and these
into years, each counted from March, so that a leap day comes last. Main statement: the date that a
number names is the one with that day number (`ofDayNumber?_eq_some_iff`).
-/

namespace Daybook.Date

variable {c w v x n : Int} {d d' : Date}

/-! ## The years of a cycle -/

/-- Day `x` of year `v` of quadrennium `w` of century `c` is a day of the cycle: the last day of a
leap year may be the 366th. -/
structure InCycle (c w v x : Int) : Prop where
  century : 0 ≤ c ∧ c ≤ 3
  quadrennium : 0 ≤ w ∧ w ≤ 24
  year : 0 ≤ v ∧ v ≤ 3
  day : 0 ≤ x ∧ x ≤ 365
  leap : x = 365 → v = 3 ∧ (w = 24 → c = 3)

theorem exists_inCycle (hlow : 0 ≤ n) (hhigh : n < 146097) :
    ∃ c w v x, InCycle c w v x ∧ n = 36524 * c + 1461 * w + 365 * v + x := by
  let c := min (n / 36524) 3
  let w := min ((n - 36524 * c) / 1461) 24
  let v := min ((n - 36524 * c - 1461 * w) / 365) 3
  refine ⟨c, w, v, n - 36524 * c - 1461 * w - 365 * v, ⟨?_, ?_, ?_, ?_, ?_⟩, ?_⟩
  all_goals omega

theorem centuries_eq (hc : 0 ≤ c ∧ c ≤ 3) (hx : 0 ≤ x ∧ x ≤ 36524) (hlast : x = 36524 → c = 3) :
    (36524 * c + x) / 36524 - (36524 * c + x) / 146096 = c := by
  by_cases hend : x = 36524 <;> omega

theorem quadrennia_eq (hc : 0 ≤ c ∧ c ≤ 3) (hw : 0 ≤ w ∧ w ≤ 24) (hx : 0 ≤ x ∧ x ≤ 1460) :
    ∃ early, (early = 0 ∧ x < 1460 ∨ early = 1 ∧ 1364 ≤ x) ∧
      (36524 * c + 1461 * w + x) / 1460 = 25 * c + w + early := by
  by_cases hend : 24 * c + w + x < 1460
  · exact ⟨0, .inl ⟨rfl, by omega⟩, by omega⟩
  · exact ⟨1, .inr ⟨rfl, by omega⟩, by omega⟩

theorem yearOfCycle_eq (h : InCycle c w v x) :
    yearOfCycle (36524 * c + 1461 * w + 365 * v + x) = 100 * c + 4 * w + v := by
  obtain ⟨hc, hw, hv, hx, hleap⟩ := h
  have hquadrennium : 0 ≤ 365 * v + x ∧ 365 * v + x ≤ 1460 := by omega
  have hcentury : 0 ≤ 1461 * w + 365 * v + x ∧ 1461 * w + 365 * v + x ≤ 36524 := by omega
  have hlast : 1461 * w + 365 * v + x = 36524 → c = 3 := by omega
  have hcenturies := centuries_eq hc hcentury hlast
  obtain ⟨early, hearly, hquadrennia⟩ := quadrennia_eq hc hw hquadrennium
  have hrest : 0 ≤ x - early ∧ x - early < 365 := by
    clear hquadrennia hcenturies
    omega
  simp only [← Int.add_assoc] at hquadrennia hcenturies
  rw [yearOfCycle, hquadrennia, Int.add_sub_assoc, hcenturies, Int.ediv_eq_iff_of_pos (by decide)]
  constructor <;> linarith only [hrest]

theorem daysBeforeYear_cycle (h : InCycle c w v x) (k : Int) :
    daysBeforeYear (400 * k + (100 * c + 4 * w + v)) =
      146097 * k + (36524 * c + 1461 * w + 365 * v) := by
  obtain ⟨hc, hw, hv, -, -⟩ := h
  simp only [daysBeforeYear]
  omega

theorem lt_daysBeforeYear_cycle (h : InCycle c w v x) (k : Int) :
    146097 * k + (36524 * c + 1461 * w + 365 * v + x) <
      daysBeforeYear (400 * k + (100 * c + 4 * w + v) + 1) := by
  obtain ⟨hc, hw, hv, hx, hleap⟩ := h
  simp only [daysBeforeYear]
  omega

/-! ## The year of a day -/

/-- The year, counted from March, in which the day with number `n` lies. -/
def yearOfDay (n : Int) : Int := n / 146097 * 400 + yearOfCycle (n % 146097)

/-- The number of a day within its year, both counted from March. -/
def dayOfYear (n : Int) : Nat := (n - daysBeforeYear (yearOfDay n)).toNat

theorem yearOfDay_spec (n : Int) : daysBeforeYear (yearOfDay n) ≤ n ∧
    n ≤ daysBeforeYear (yearOfDay n) + 365 ∧ n < daysBeforeYear (yearOfDay n + 1) := by
  obtain ⟨c, w, v, x, h, hn⟩ := exists_inCycle (Int.emod_nonneg n (by decide))
    (Int.emod_lt_of_pos n (by decide))
  have hyear : yearOfDay n = 400 * (n / 146097) + (100 * c + 4 * w + v) := by
    rw [yearOfDay, hn, yearOfCycle_eq h, Int.mul_comm]
  have hdays := daysBeforeYear_cycle h (n / 146097)
  have hnext := lt_daysBeforeYear_cycle h (n / 146097)
  have hday := h.day
  rw [hyear, hdays]
  omega

theorem daysBeforeYear_dayOfYear (n : Int) :
    daysBeforeYear (yearOfDay n) + dayOfYear n = n ∧ dayOfYear n ≤ 365 := by
  have hspec := yearOfDay_spec n
  rw [dayOfYear]
  omega

theorem daysBeforeYear_mono {a b : Int} (h : a ≤ b) : daysBeforeYear a ≤ daysBeforeYear b := by
  simp only [daysBeforeYear]
  omega

theorem yearOfDay_eq {year : Int} (hlow : daysBeforeYear year ≤ n)
    (hhigh : n < daysBeforeYear (year + 1)) : yearOfDay n = year := by
  have hspec := yearOfDay_spec n
  have hbefore : ¬yearOfDay n < year := fun hlt => by
    have hmono := daysBeforeYear_mono (show yearOfDay n + 1 ≤ year by omega)
    omega
  have hafter : ¬year < yearOfDay n := fun hlt => by
    have hmono := daysBeforeYear_mono (show year + 1 ≤ yearOfDay n by omega)
    omega
  omega

/-! ## The month of a day -/

/-- The year of the date, counted from March. -/
def marchYear (d : Date) : Int := if d.month ≤ 2 then d.year - 1 else d.year

/-- The month of the date, counted from March. -/
def marchMonth (d : Date) : Nat := (d.month + 9) % 12

theorem dayNumber_march (d : Date) : d.dayNumber =
    daysBeforeYear d.marchYear + (daysBeforeMonth d.marchMonth + (d.day - 1) : Nat) := by
  rw [dayNumber, marchYear, marchMonth]
  omega

/-- The month, counted from March, of a day of the year. -/
def monthOfDay (day : Nat) : Nat := (5 * day + 2) / 153

theorem monthOfDay_spec {day : Nat} (h : day ≤ 365) :
    daysBeforeMonth (monthOfDay day) ≤ day ∧ monthOfDay day < 12 := by
  rw [daysBeforeMonth, monthOfDay]
  omega

theorem ofYmd?_march_iff {year : Int} {month day : Nat} (h : month < 12) :
    (if month < 10 then ofYmd? year (month + 3) day else ofYmd? (year + 1) (month - 9) day) =
      some d ↔ d.marchYear = year ∧ d.marchMonth = month ∧ d.day = day := by
  obtain ⟨hlow, hhigh⟩ := d.isDay.2.1
  rw [marchYear, marchMonth]
  split <;> rw [ofYmd?_eq_some_iff] <;> omega

theorem ofDayNumber?_march_iff : ofDayNumber? n = some d ↔
    d.marchYear = yearOfDay n ∧ d.marchMonth = monthOfDay (dayOfYear n) ∧
      d.day = dayOfYear n - daysBeforeMonth (monthOfDay (dayOfYear n)) + 1 :=
  ofYmd?_march_iff (monthOfDay_spec (daysBeforeYear_dayOfYear n).2).2

theorem monthOfDay_eq {month day : Nat} (hlow : daysBeforeMonth month ≤ day)
    (hhigh : day < daysBeforeMonth (month + 1)) : monthOfDay day = month := by
  rw [daysBeforeMonth] at hlow hhigh
  rw [monthOfDay]
  omega

theorem daysBeforeMonth_succ (d : Date) (h : d.month ≠ 2) :
    daysBeforeMonth (d.marchMonth + 1) =
      daysBeforeMonth d.marchMonth + daysInMonth d.year d.month := by
  obtain ⟨hlow, hhigh⟩ := d.isDay.2.1
  rw [marchMonth]
  generalize d.month = month at h hlow hhigh ⊢
  interval_cases month <;> first | rfl | exact absurd rfl h

theorem march_spec (d : Date) :
    monthOfDay (daysBeforeMonth d.marchMonth + (d.day - 1)) = d.marchMonth ∧
      daysBeforeMonth d.marchMonth + (d.day - 1) < 337 + daysInMonth (d.marchYear + 1) 2 := by
  obtain ⟨-, ⟨hlow, hhigh⟩, hday, hlast⟩ := d.isDay
  have hshort : 28 ≤ daysInMonth (d.marchYear + 1) 2 ∧ daysInMonth (d.marchYear + 1) 2 ≤ 29 := by
    simp only [daysInMonth]
    split <;> decide
  by_cases hfebruary : d.month = 2
  · have hyear : d.marchYear + 1 = d.year := by
      rw [marchYear]
      omega
    have hmonth : d.marchMonth = 11 := by rw [marchMonth, hfebruary]
    rw [hyear] at hshort ⊢
    rw [hfebruary] at hlast
    rw [hmonth, monthOfDay, daysBeforeMonth]
    omega
  · have hnext := daysBeforeMonth_succ d hfebruary
    refine ⟨monthOfDay_eq (by omega) (by omega), ?_⟩
    have hmonth : d.marchMonth ≤ 10 := by
      rw [marchMonth]
      omega
    rw [daysBeforeMonth] at hnext
    omega

theorem dayNumber_of_ofDayNumber? (h : ofDayNumber? n = some d) : d.dayNumber = n := by
  obtain ⟨hyear, hmonth, hday⟩ := ofDayNumber?_march_iff.mp h
  obtain ⟨hdays, hlast⟩ := daysBeforeYear_dayOfYear n
  obtain ⟨hbefore, -⟩ := monthOfDay_spec hlast
  rw [dayNumber_march, hyear, hmonth, hday]
  omega

theorem ofDayNumber?_dayNumber (d : Date) : ofDayNumber? d.dayNumber = some d := by
  obtain ⟨hmonth, hlt⟩ := march_spec d
  have hnumber := dayNumber_march d
  have hyear : yearOfDay d.dayNumber = d.marchYear := by
    have hnext := daysBeforeYear_eq (d.marchYear + 1)
    rw [Int.add_sub_cancel] at hnext
    refine yearOfDay_eq ?_ ?_ <;> omega
  have hday : dayOfYear d.dayNumber = daysBeforeMonth d.marchMonth + (d.day - 1) := by
    rw [dayOfYear, hyear, hnumber]
    omega
  have hfirst : 1 ≤ d.day := d.isDay.2.2.1
  rw [ofDayNumber?_march_iff, hday, hmonth, hyear]
  exact ⟨rfl, rfl, by omega⟩

theorem ofDayNumber?_eq_some_iff : ofDayNumber? n = some d ↔ d.dayNumber = n := by
  constructor
  · exact dayNumber_of_ofDayNumber?
  · rintro rfl
    exact ofDayNumber?_dayNumber d

theorem eq_of_dayNumber_eq (h : d.dayNumber = d'.dayNumber) : d = d' :=
  Option.some.inj ((ofDayNumber?_eq_some_iff.mpr h).symm.trans (ofDayNumber?_dayNumber d'))

end Daybook.Date
