import Mathlib.Order.Bounds.Defs
import Daybook.Proofs.Calendar.Extent
import Daybook.Proofs.Calendar.Naming

/-!
# Units side by side

Each unit begins with a Sunday or with the first day of a month, a quarter or a year; the first week
of the calendar begins with the first day of all. The begins that lie a number of units away from
today's are counted out on the day numbers, also where the calendar has no days (`boundary`). Main
statement: the last, the present and the next unit lie between neighbouring boundaries, and so they
meet; one of them is out of range exactly if a boundary of it is outside of the calendar
(`readRange_tiles`).
-/

namespace Daybook

open Daybook.Text

namespace Date

variable {a b : Date}

theorem le_antisymm (hab : a ≤ b) (hba : b ≤ a) : a = b :=
  eq_of_dayNumber_eq (Int.le_antisymm hab hba)

def IsDayNumber (n : Int) : Prop := first.dayNumber ≤ n ∧ n ≤ last.dayNumber

instance (n : Int) : Decidable (IsDayNumber n) := inferInstanceAs (Decidable (_ ∧ _))

end Date

namespace CalendarUnit

variable {unit : CalendarUnit} {d s e e' : Date} {n k : Int}

/-! ## The begin of a unit -/

/-- Whether a unit begins with the day. -/
def Begins : CalendarUnit → Date → Prop
  | day, _ => True
  | week, d => d.sinceSunday = 0 ∨ d = Date.first
  | month, d => d.day = 1
  | quarter, d => d.day = 1 ∧ d.month % 3 = 1
  | year, d => d.day = 1 ∧ d.month = 1

theorem begins_iff_of_months (h : unit.isDays = false) :
    unit.Begins s ↔ s.day = 1 ∧ s.monthIndex % unit.size = 0 := by
  obtain ⟨hlow, hhigh⟩ := s.isDay.2.1
  unfold Date.monthIndex
  cases unit with
  | day => cases h
  | week => cases h
  | month =>
    simp only [Begins, size]
    omega
  | quarter =>
    simp only [Begins, size]
    omega
  | year =>
    simp only [Begins, size]
    omega

theorem exists_firstOf (d : Date) {m : Nat} (hlow : 1 ≤ m) (hhigh : m ≤ 12) :
    ∃ s : Date, (Date.ofYmd? d.year m 1).getD d = s ∧ s.monthIndex = 12 * d.year + (m - 1 : Nat) ∧
      s.day = 1 := by
  have hlength := (Date.daysInMonth_bounds d.year m).1
  let s : Date := ⟨d.year, m, 1, d.isDay.1, ⟨hlow, hhigh⟩, Nat.le_refl 1, by omega⟩
  have hs : Date.ofYmd? d.year m 1 = some s := Date.ofYmd?_eq_some_iff.mpr ⟨rfl, rfl, rfl⟩
  exact ⟨s, by rw [hs, Option.getD_some], rfl, rfl⟩

theorem startOf_months (h : unit.isDays = false) (d : Date) :
    (unit.startOf d).monthIndex = d.monthIndex - d.monthIndex % unit.size ∧
      (unit.startOf d).day = 1 := by
  obtain ⟨hlow, hhigh⟩ := d.isDay.2.1
  unfold Date.monthIndex
  cases unit with
  | day => cases h
  | week => cases h
  | month =>
    obtain ⟨s, hs, hindex, hday⟩ := exists_firstOf d hlow hhigh
    simp only [startOf, size, hs]
    unfold Date.monthIndex at hindex
    omega
  | quarter =>
    obtain ⟨s, hs, hindex, hday⟩ :=
      exists_firstOf d (m := (d.month - 1) / 3 * 3 + 1) (by omega) (by omega)
    simp only [startOf, size, hs]
    unfold Date.monthIndex at hindex
    omega
  | year =>
    obtain ⟨s, hs, hindex, hday⟩ := exists_firstOf d (m := 1) (by omega) (by omega)
    simp only [startOf, size, hs]
    unfold Date.monthIndex at hindex
    omega

theorem startOf_week (d : Date) :
    (week.startOf d).dayNumber = max Date.first.dayNumber (d.dayNumber - d.sinceSunday) := by
  have hlow : Date.first.dayNumber ≤ d.dayNumber := Date.first_le d
  have hhigh : d.dayNumber ≤ Date.last.dayNumber := Date.le_last d
  have hsince : 0 ≤ d.sinceSunday := by
    unfold Date.sinceSunday
    omega
  unfold startOf
  cases hsunday : d.addDays? (-d.sinceSunday) with
  | some s =>
    have hs := addDays?_eq_some_iff.mp hsunday
    have hfirst : Date.first.dayNumber ≤ s.dayNumber := Date.first_le s
    show s.dayNumber = _
    omega
  | none =>
    have hbefore : ¬Date.first.dayNumber ≤ d.dayNumber - d.sinceSunday := fun hle => by
      obtain ⟨s, hs⟩ := Date.exists_dayNumber_iff.mpr ⟨hle, by omega⟩
      have hreached : d.addDays? (-d.sinceSunday) = some s := addDays?_eq_some_iff.mpr (by omega)
      rw [hreached] at hsunday
      cases hsunday
    show Date.first.dayNumber = _
    omega

theorem startOf_isGreatest (unit : CalendarUnit) (d : Date) :
    IsGreatest {s | unit.Begins s ∧ s ≤ d} (unit.startOf d) := by
  cases hunit : unit.isDays with
  | true =>
    cases unit with
    | day => exact ⟨⟨trivial, Int.le_refl _⟩, fun s hs => hs.2⟩
    | week =>
      have hstart := startOf_week d
      have hlow : Date.first.dayNumber ≤ d.dayNumber := Date.first_le d
      unfold Date.sinceSunday at hstart
      refine ⟨⟨?_, ?_⟩, ?_⟩
      · unfold Begins Date.sinceSunday
        by_cases hfirst : (week.startOf d).dayNumber = Date.first.dayNumber
        · exact .inr (Date.eq_of_dayNumber_eq hfirst)
        · left
          omega
      · show (week.startOf d).dayNumber ≤ d.dayNumber
        omega
      · rintro s ⟨hbegins, hle⟩
        have hnumbers : s.dayNumber ≤ d.dayNumber := hle
        show s.dayNumber ≤ (week.startOf d).dayNumber
        rcases hbegins with hsunday | rfl
        · unfold Date.sinceSunday at hsunday
          omega
        · omega
    | month => cases hunit
    | quarter => cases hunit
    | year => cases hunit
  | false =>
    obtain ⟨hindex, hday⟩ := startOf_months hunit d
    have hsize : (0 : Int) < unit.size := Int.natCast_pos.mpr unit.size_pos
    have hrest := Int.emod_nonneg d.monthIndex (Int.ne_of_gt hsize)
    refine ⟨⟨(begins_iff_of_months hunit).mpr ⟨hday, ?_⟩, ?_⟩, ?_⟩
    · rw [hindex]
      exact Int.emod_eq_zero_of_dvd (Int.dvd_self_sub_emod)
    · apply (Date.first_le_iff hday).mpr
      omega
    · rintro s ⟨hbegins, hle⟩
      obtain ⟨hfirst, hmultiple⟩ := (begins_iff_of_months hunit).mp hbegins
      have hmonths := (Date.first_le_iff hfirst).mp hle
      apply (Date.first_le_iff hfirst).mpr
      rw [hindex]
      calc s.monthIndex = s.monthIndex / unit.size * unit.size :=
            (Int.ediv_mul_cancel_of_emod_eq_zero hmultiple).symm
        _ ≤ d.monthIndex / unit.size * unit.size :=
            Int.mul_le_mul_of_nonneg_right (Int.ediv_le_ediv hsize hmonths) (Int.le_of_lt hsize)
        _ = d.monthIndex - d.monthIndex % unit.size := by
            have hdivision := Int.ediv_mul_add_emod d.monthIndex unit.size
            omega

theorem startOf_of_begins (h : unit.Begins s) : unit.startOf s = s := by
  obtain ⟨⟨-, hle⟩, hgreatest⟩ := startOf_isGreatest unit s
  exact Date.le_antisymm hle (hgreatest ⟨h, Int.le_refl _⟩)

theorem startOf_startOf (unit : CalendarUnit) (d : Date) :
    unit.startOf (unit.startOf d) = unit.startOf d :=
  startOf_of_begins (startOf_isGreatest unit d).1.1

theorem startOf_le (unit : CalendarUnit) (d : Date) : unit.startOf d ≤ d :=
  (startOf_isGreatest unit d).1.2

/-! ## Boundaries -/

/-- The number of the day with which the unit begins that lies `n` units behind the one of the date.
The calendar need not have that day. -/
def boundary (unit : CalendarUnit) (d : Date) (n : Int) : Int :=
  if unit.isDays then (unit.startOf d).dayNumber + unit.size * n
  else Date.monthStart ((unit.startOf d).monthIndex + unit.size * n)

theorem boundary_zero (unit : CalendarUnit) (d : Date) :
    (unit.startOf d).dayNumber = unit.boundary d 0 := by
  unfold boundary
  split
  case isTrue => omega
  case isFalse hmonths =>
    obtain ⟨-, hday⟩ := startOf_months (by simpa using hmonths) d
    rw [Int.mul_zero, Int.add_zero]
    exact Date.dayNumber_eq_monthStart_iff.mpr ⟨rfl, hday⟩

theorem shift?_boundary (h : e.dayNumber = unit.boundary d n) :
    unit.shift? e k = some e' ↔ e'.dayNumber = unit.boundary d (n + k) := by
  rw [shift?_eq_some_iff]
  unfold boundary at h ⊢
  unfold Reaches
  split at h
  case isTrue hdays =>
    rw [if_pos hdays, if_pos hdays, h, Int.mul_add, Int.add_assoc]
  case isFalse hmonths =>
    -- A boundary of months is the first day of a month, so no day is lowered.
    obtain ⟨hindex, hday⟩ := Date.dayNumber_eq_monthStart_iff.mp h
    have hlength : 28 ≤ monthLength e'.monthIndex := (Date.daysInMonth_bounds _ _).1
    rw [if_neg hmonths, if_neg hmonths, Date.dayNumber_eq_monthStart_iff, hindex, hday, Int.mul_add,
      Int.add_assoc]
    omega

theorem lt_boundary_one (unit : CalendarUnit) (d : Date) : d.dayNumber < unit.boundary d 1 := by
  unfold boundary
  split
  case isTrue hdays =>
    cases unit with
    | day =>
      show d.dayNumber < d.dayNumber + 1 * 1
      omega
    | week =>
      have hstart := startOf_week d
      unfold Date.sinceSunday at hstart
      show d.dayNumber < (week.startOf d).dayNumber + 7 * 1
      omega
    | month => cases hdays
    | quarter => cases hdays
    | year => cases hdays
  case isFalse hmonths =>
    obtain ⟨hindex, -⟩ := startOf_months (by simpa using hmonths) d
    have hsize : (0 : Int) < unit.size := Int.natCast_pos.mpr unit.size_pos
    have hrest := Int.emod_lt_of_pos d.monthIndex hsize
    have hmono : Date.monthStart (d.monthIndex + 1) ≤
        Date.monthStart ((unit.startOf d).monthIndex + unit.size * 1) :=
      Date.monthStart_mono (by omega)
    have hlt := Date.dayNumber_lt d
    omega

theorem exists_boundary_iff :
    (∃ e : Date, e.dayNumber = unit.boundary d n) ↔ Date.IsDayNumber (unit.boundary d n) :=
  Date.exists_dayNumber_iff

end CalendarUnit

/-! ## The last, the present and the next unit -/

namespace DateSpec

open CalendarUnit

variable {unit : CalendarUnit} {today : Date} {n : Int} {input raw : String} {r : DateRange}

/-- The text says `last`, `this` or `next` and names the unit, in the singular or the plural and in
any letter case; the number says how many units it lies behind the present one. -/
def SaysUnit (unit : CalendarUnit) (n : Int) (input : String) : Prop :=
  ∃ modifier word, (modifier, n) ∈ modifiers ∧ (word = unit.name ∨ word = unit.name ++ "s") ∧
    lowerWords input.toList = [modifier, word]

/-- The range lies between two neighbouring boundaries. -/
def IsBetween (unit : CalendarUnit) (today : Date) (n : Int) (r : DateRange) : Prop :=
  r.start.dayNumber = unit.boundary today n ∧ r.stop.dayNumber = unit.boundary today (n + 1)

instance (unit : CalendarUnit) (today : Date) (n : Int) (r : DateRange) :
    Decidable (IsBetween unit today n r) := inferInstanceAs (Decidable (_ ∧ _))

theorem readRange_of_saysUnit (h : SaysUnit unit n input) : readRange input today =
    match unit.shift? (unit.startOf today) n with
    | some start => DateRange.ofUnit (String.ofList (trim input.toList)) unit start
    | none => .error (.outOfRange (String.ofList (trim input.toList))) := by
  obtain ⟨modifier, word, hmodifier, hword, hwords⟩ := h
  exact (readRange_relative hwords).trans
    (readRelative_of_mem hmodifier (ofWord?_eq_some_iff.mpr hword))

theorem readRange_of_saysUnit_eq_ok_iff (h : SaysUnit unit n input) :
    readRange input today = .ok r ↔ IsBetween unit today n r := by
  rw [readRange_of_saysUnit h]
  unfold IsBetween
  have hstart (e : Date) : unit.shift? (unit.startOf today) n = some e ↔
      e.dayNumber = unit.boundary today n := by
    rw [shift?_boundary (boundary_zero unit today), Int.zero_add]
  cases hshift : unit.shift? (unit.startOf today) n with
  | none =>
    have hnone : r.start.dayNumber ≠ unit.boundary today n := fun hr => by
      rw [(hstart r.start).mpr hr] at hshift
      cases hshift
    simp [hnone]
  | some e =>
    have he := (hstart e).mp hshift
    simp only
    rw [ofUnit_eq_ok_iff, DateRange.IsUnit, shift?_boundary he, ← he]
    constructor
    · rintro ⟨rfl, hstop⟩
      exact ⟨rfl, hstop⟩
    · rintro ⟨hr, hstop⟩
      exact ⟨Date.eq_of_dayNumber_eq hr, hstop⟩

theorem readRange_of_saysUnit_eq_error (h : SaysUnit unit n input) {e : DateError}
    (herror : readRange input today = .error e) :
    e = .outOfRange (String.ofList (trim input.toList)) := by
  rw [readRange_of_saysUnit h] at herror
  split at herror
  case h_1 start hstart =>
    unfold DateRange.ofUnit at herror
    split at herror
    case h_1 => cases herror
    case h_2 => exact (Except.error.inj herror).symm
  case h_2 => exact (Except.error.inj herror).symm

theorem exists_between_iff : (∃ r, IsBetween unit today n r) ↔
    Date.IsDayNumber (unit.boundary today n) ∧ Date.IsDayNumber (unit.boundary today (n + 1)) := by
  rw [← exists_boundary_iff, ← exists_boundary_iff]
  constructor
  · rintro ⟨r, hstart, hstop⟩
    exact ⟨⟨r.start, hstart⟩, r.stop, hstop⟩
  · rintro ⟨⟨start, hstart⟩, stop, hstop⟩
    exact ⟨⟨start, stop⟩, hstart, hstop⟩

/-- The begin of a unit is the last one of its kind up to today, and today lies before the next one.
The last, the present and the next unit, said in any letter case, meet, and the present one holds
today. Each lies between neighbouring boundaries, and is refused exactly if the calendar does not
have the day of one of them; and then as out of range. -/
theorem readRange_tiles (unit : CalendarUnit) (today : Date) :
    (IsGreatest {s | unit.Begins s ∧ s ≤ today} (unit.startOf today) ∧
      unit.startOf (unit.startOf today) = unit.startOf today ∧ unit.startOf today ≤ today ∧
      ∀ next, unit.shift? (unit.startOf today) 1 = some next → today < next) ∧
      (∀ before here behind r s t, SaysUnit unit (-1) before → SaysUnit unit 0 here →
        SaysUnit unit 1 behind → readRange before today = .ok r → readRange here today = .ok s →
        readRange behind today = .ok t →
        r.stop = s.start ∧ s.stop = t.start ∧ s.contains today = true) ∧
      ∀ n input, SaysUnit unit n input →
        (∀ r, readRange input today = .ok r ↔ IsBetween unit today n r) ∧
        (readRange input today = .error (.outOfRange (String.ofList (trim input.toList))) ↔
          ¬(Date.IsDayNumber (unit.boundary today n) ∧
            Date.IsDayNumber (unit.boundary today (n + 1)))) ∧
        ∀ e, readRange input today = .error e →
          e = .outOfRange (String.ofList (trim input.toList)) := by
  refine ⟨⟨startOf_isGreatest unit today, startOf_startOf unit today, startOf_le unit today, ?_⟩,
    ?_, ?_⟩
  · intro next hnext
    have hnumber := (shift?_boundary (boundary_zero unit today)).mp hnext
    have hlt := lt_boundary_one unit today
    show today.dayNumber < next.dayNumber
    rw [hnumber]
    exact hlt
  · intro before here behind r s t hbefore hhere hbehind hr hs ht
    obtain ⟨-, hrs⟩ := (readRange_of_saysUnit_eq_ok_iff hbefore).mp hr
    obtain ⟨hstart, hstop⟩ := (readRange_of_saysUnit_eq_ok_iff hhere).mp hs
    obtain ⟨hst, -⟩ := (readRange_of_saysUnit_eq_ok_iff hbehind).mp ht
    refine ⟨Date.eq_of_dayNumber_eq (hrs.trans hstart.symm),
      Date.eq_of_dayNumber_eq (hstop.trans hst.symm), ?_⟩
    have hle : (unit.startOf today).dayNumber ≤ today.dayNumber := startOf_le unit today
    have hlt := lt_boundary_one unit today
    rw [← boundary_zero] at hstart
    unfold DateRange.contains
    rw [Bool.and_eq_true, decide_eq_true_eq, decide_eq_true_eq]
    show s.start.dayNumber ≤ today.dayNumber ∧ today.dayNumber < s.stop.dayNumber
    rw [hstart, hstop]
    exact ⟨hle, hlt⟩
  · intro n input hsays
    have hok (r : DateRange) : readRange input today = .ok r ↔ IsBetween unit today n r :=
      readRange_of_saysUnit_eq_ok_iff hsays
    have herror (e : DateError) : readRange input today = .error e →
        e = .outOfRange (String.ofList (trim input.toList)) := readRange_of_saysUnit_eq_error hsays
    refine ⟨hok, ?_, herror⟩
    rw [← exists_between_iff]
    simp only [← hok]
    rw [← Result.exists_error_iff]
    constructor
    · intro h
      exact ⟨_, h⟩
    · rintro ⟨e, h⟩
      rw [herror e h] at h
      exact h

/-- The weeks around a Wednesday, and the week before the first whole one, which has no begin. -/
theorem readRange_tiles_weeks :
    let today : Date := ⟨2024, 5, 1, by decide⟩
    let r : DateRange := ⟨⟨2024, 4, 21, by decide⟩, ⟨2024, 4, 28, by decide⟩⟩
    let s : DateRange := ⟨⟨2024, 4, 28, by decide⟩, ⟨2024, 5, 5, by decide⟩⟩
    let t : DateRange := ⟨⟨2024, 5, 5, by decide⟩, ⟨2024, 5, 12, by decide⟩⟩
    (CalendarUnit.week.shift? (CalendarUnit.week.startOf today) 1 = some t.start ∧
      today < t.start) ∧
      (SaysUnit .week (-1) "last week" ∧ SaysUnit .week 0 "THIS Weeks" ∧
        SaysUnit .week 1 "next week" ∧ readRange "last week" today = .ok r ∧
        readRange "THIS Weeks" today = .ok s ∧ readRange "next week" today = .ok t ∧
        r.stop = s.start ∧ s.stop = t.start ∧ s.contains today = true) ∧
      readRange "last week" Date.first = .error (.outOfRange "last week") := by
  intro today r s t
  have hlast : SaysUnit .week (-1) "last week" := ⟨"last", "week", by decide, by decide, by decide⟩
  have hthis : SaysUnit .week 0 "THIS Weeks" := ⟨"this", "weeks", by decide, by decide, by decide⟩
  have hnext : SaysUnit .week 1 "next week" := ⟨"next", "week", by decide, by decide, by decide⟩
  have hshift : CalendarUnit.week.shift? (CalendarUnit.week.startOf today) 1 = some t.start := by
    decide
  obtain ⟨⟨-, -, -, hlt⟩, htile, hread⟩ := readRange_tiles .week today
  have hr := ((hread (-1) "last week" hlast).1 r).mpr (by decide)
  have hs := ((hread 0 "THIS Weeks" hthis).1 s).mpr (by decide)
  have ht := ((hread 1 "next week" hnext).1 t).mpr (by decide)
  have hnone := ((readRange_tiles .week Date.first).2.2 (-1) "last week" hlast).2.1.mpr (by decide)
  exact ⟨⟨hshift, hlt _ hshift⟩,
    ⟨hlast, hthis, hnext, hr, hs, ht, htile _ _ _ r s t hlast hthis hnext hr hs ht⟩, hnone⟩

end DateSpec

end Daybook
