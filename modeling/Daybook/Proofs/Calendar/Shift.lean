import Daybook.Proofs.Calendar.Extent

/-!
# Moving dates

A date is moved by months into the month that lies so far off, and its day is lowered to the length
of that month, which is counted from its first day to that of the next one. Main statement: moving
keeps the order of the dates, and by months it composes as long as no day is lowered
(`shift?_lawful`).
-/

namespace Daybook

open Daybook.Text

variable {unit : CalendarUnit} {a b n : Int} {d d' e e' : Date}

/-! ## The length of a month -/

theorem monthLength_eq (i : Int) :
    (monthLength i : Int) = Date.monthStart (i + 1) - Date.monthStart i := by
  rw [Date.monthStart_succ, monthLength]
  omega

theorem le_monthLength (i : Int) : 28 ≤ monthLength i := (Date.daysInMonth_bounds _ _).1

/-! ## Months -/

namespace Date

theorem addMonths?_eq_none_iff : d.addMonths? n = none ↔ ¬IsMonth (d.monthIndex + n) := by
  rw [← not_iff_not, not_not, ← Ne, Option.ne_none_iff_exists']
  constructor
  · rintro ⟨e, he⟩
    rw [← (addMonths?_eq_some_iff.mp he).1]
    exact isMonth_monthIndex e
  · intro hmonth
    have hlow : 1 ≤ min d.day (monthLength (d.monthIndex + n)) := by
      have hday : 1 ≤ d.day := d.isDay.2.2.1
      have hlength := le_monthLength (d.monthIndex + n)
      omega
    obtain ⟨e, hindex, hday⟩ := exists_inMonth hmonth hlow (Nat.min_le_right ..)
    exact ⟨e, addMonths?_eq_some_iff.mpr ⟨hindex, by rw [hindex, hday]⟩⟩

theorem addMonths?_eq_some_iff_parts : d.addMonths? n = some e ↔
    e.year = (d.monthIndex + n) / 12 ∧ e.month = ((d.monthIndex + n) % 12).toNat + 1 ∧
      (e.day : Int) = min (d.day : Int)
        (monthStart (d.monthIndex + n + 1) - monthStart (d.monthIndex + n)) := by
  have hyear := monthIndex_div e
  have hmonth := monthIndex_mod e
  rw [addMonths?_eq_some_iff, ← monthLength_eq]
  constructor
  · rintro ⟨hindex, hday⟩
    rw [← hindex]
    exact ⟨hyear.symm, hmonth.symm, by omega⟩
  · rintro ⟨hyear', hmonth', hday⟩
    have hindex : e.monthIndex = d.monthIndex + n := by omega
    rw [hindex]
    exact ⟨rfl, by omega⟩

theorem months_fit (d : Date) (hn : fitsInt32 n = true) :
    (-2 ^ 63 ≤ d.monthIndex + n ∧ d.monthIndex + n < 2 ^ 63) ∧
      fitsInt32 ((d.monthIndex + n) / 12) = true := by
  have hmonth := isMonth_monthIndex d
  simp only [IsMonth, firstYear, lastYear] at hmonth
  simp only [fitsInt32, Bool.and_eq_true, decide_eq_true_eq] at hn ⊢
  omega

theorem addMonths?_addMonths? (hday : d.day ≤ 28) (h : d.addMonths? a = some e) :
    e.addMonths? b = d.addMonths? (a + b) := by
  obtain ⟨hindex, hsame⟩ := addMonths?_eq_some_iff.mp h
  have hlength := le_monthLength e.monthIndex
  have hkept : e.day = d.day := by omega
  apply Option.ext
  intro e'
  rw [addMonths?_eq_some_iff, addMonths?_eq_some_iff, hindex, hkept, Int.add_assoc]

end Date

namespace CalendarUnit

/-! ## All units -/

theorem Reaches.mono (hle : d ≤ d') (h : unit.Reaches d n e) (h' : unit.Reaches d' n e') :
    e ≤ e' := by
  unfold Reaches at h h'
  split at h
  case isTrue hdays =>
    rw [if_pos hdays] at h'
    have hnumbers : d.dayNumber ≤ d'.dayNumber := hle
    show e.dayNumber ≤ e'.dayNumber
    omega
  case isFalse hmonths =>
    rw [if_neg hmonths] at h'
    apply Date.le_iff.mpr
    rcases Date.le_iff.mp hle with hlt | ⟨heq, hday⟩
    · left
      omega
    · have hindex : e.monthIndex = e'.monthIndex := by omega
      rw [hindex] at h
      right
      omega

/-- Moving a date by `n` months leads into the month that lies so far off, unless its year is
outside of the calendar; the day is the smaller of the date's own and the length of that month. No
number on the way overflows. In each unit, moving by a fixed number keeps the order of the dates,
and moving forward leads to a later date. By months, a day that is in every month may be moved in
several steps. -/
theorem shift?_lawful :
    (∀ (d : Date) (n : Int), fitsInt32 n = true →
      let t := 12 * d.year + (d.month - 1 : Nat) + n
      ((-2 ^ 63 ≤ t ∧ t < 2 ^ 63) ∧ fitsInt32 (t / 12) = true) ∧
        (d.addMonths? n = none ↔ ¬(firstYear ≤ t / 12 ∧ t / 12 ≤ lastYear)) ∧
        ∀ e, d.addMonths? n = some e ↔ e.year = t / 12 ∧ e.month = (t % 12).toNat + 1 ∧
          (e.day : Int) = min (d.day : Int) (Date.monthStart (t + 1) - Date.monthStart t)) ∧
      (∀ (unit : CalendarUnit) (n : Int) (d d' e e' : Date), d ≤ d' → unit.shift? d n = some e →
        unit.shift? d' n = some e' → e ≤ e') ∧
      (∀ (unit : CalendarUnit) (n : Int) (d e : Date), 0 < n → unit.shift? d n = some e → d < e) ∧
      ∀ (d e : Date) (a b : Int), d.day ≤ 28 → d.addMonths? a = some e →
        e.addMonths? b = d.addMonths? (a + b) := by
  refine ⟨fun d n hn => ?_, fun unit n d d' e e' hle h h' => ?_, fun unit n d e hn h => ?_,
    fun d e a b => Date.addMonths?_addMonths?⟩
  · exact ⟨d.months_fit hn, Date.addMonths?_eq_none_iff, fun e => Date.addMonths?_eq_some_iff_parts⟩
  · exact (shift?_eq_some_iff.mp h).mono hle (shift?_eq_some_iff.mp h')
  · exact (shift?_eq_some_iff.mp h).lt hn

/-- The last two days of a January both come to lie on a leap day; the 28th goes back over the begin
of a year and forth again. -/
theorem shift?_lawful_leapDay :
    let early : Date := ⟨2024, 1, 30, by decide⟩
    let late : Date := ⟨2024, 1, 31, by decide⟩
    let leap : Date := ⟨2024, 2, 29, by decide⟩
    let plain : Date := ⟨2024, 1, 28, by decide⟩
    let before : Date := ⟨2022, 12, 28, by decide⟩
    (fitsInt32 1 = true ∧ late.addMonths? 1 = some leap ∧
      (leap.day : Int) = min 31 (Date.monthStart 24290 - Date.monthStart 24289)) ∧
      (early ≤ late ∧ month.shift? early 1 = some leap ∧ month.shift? late 1 = some leap ∧
        leap ≤ leap) ∧
      (0 < (1 : Int) ∧ late < leap) ∧
      plain.day ≤ 28 ∧ plain.addMonths? (-13) = some before ∧
        before.addMonths? 13 = plain.addMonths? (-13 + 13) := by
  intro early late leap plain before
  have hearly : month.shift? early 1 = some leap := by decide
  have hlate : month.shift? late 1 = some leap := by decide
  have hbefore : plain.addMonths? (-13) = some before := by decide
  have hle : early ≤ late := by decide
  obtain ⟨hmonths, hmono, hlater, hcompose⟩ := shift?_lawful
  exact ⟨⟨by decide, hlate, (((hmonths late 1 (by decide)).2.2 leap).mp hlate).2.2⟩,
    ⟨hle, hearly, hlate, hmono month 1 early late leap leap hle hearly hlate⟩,
    ⟨by decide, hlater month 1 late leap (by decide) hlate⟩,
    by decide, hbefore, hcompose plain before (-13) 13 (by decide) hbefore⟩

end CalendarUnit

end Daybook
