import Mathlib.Tactic.Ring
import Daybook.Calendar.Period
import Daybook.Proofs.Calendar.Unit

/-!
# The ranges of a period

An interval divides a period into ranges, each of which begins where the one before it stops. Main
statements: the ranges cover the period, each of its days once (`ranges_divide`). Each range begins
one interval behind the begin of the one before it, so a day of the month that has been lowered once
stays low (`ranges_start`).
-/

namespace Daybook.Period

variable {interval : Option Interval} {i : Interval} {first last start stop d : Date}
  {r : DateRange} {rs : List DateRange} {p : Period} {limit k : Nat}

/-! ## The end of a range -/

/-- Where the range that begins with `start` stops. -/
def stopOf (interval : Option Interval) (stop start : Date) : Date :=
  match interval.bind (·.advance? start) with
  | some d => d.earlier stop
  | none => stop

theorem rangesFrom_succ (interval : Option Interval) (stop : Date) (limit : Nat) (start : Date) :
    rangesFrom interval stop (limit + 1) start =
      ⟨start, stopOf interval stop start⟩ ::
        if stopOf interval stop start < stop ∧ start < stopOf interval stop start then
          rangesFrom interval stop limit (stopOf interval stop start)
        else [] := rfl

theorem advance?_eq_some_iff : i.advance? start = some d ↔
    Text.fitsInt32 i.count = true ∧ i.unit.Reaches start i.count d := by
  rw [Interval.advance?]
  split
  case isTrue h => simp only [h, true_and, CalendarUnit.shift?_eq_some_iff]
  case isFalse h => simp [h]

theorem lt_of_advance? (hcount : 1 ≤ i.count) (h : i.advance? start = some d) : start < d :=
  (advance?_eq_some_iff.mp h).2.lt (by omega)

theorem earlier_cases (a b : Date) : a.earlier b = b ∨ a.earlier b = a ∧ a < b := by
  rw [Date.earlier]
  split
  case isTrue => exact .inl rfl
  case isFalse hle =>
    rcases Int.lt_or_eq_of_le (Int.not_lt.mp hle) with hlt | heq
    · exact .inr ⟨rfl, hlt⟩
    · exact .inl (Date.eq_of_dayNumber_eq heq)

theorem stopOf_cases (interval : Option Interval) (stop start : Date) :
    stopOf interval stop start = stop ∨
      stopOf interval stop start < stop ∧
        ∃ i ∈ interval, i.advance? start = some (stopOf interval stop start) := by
  rw [stopOf]
  split
  case h_1 d hd =>
    obtain ⟨i, hi, hadvance⟩ := Option.bind_eq_some_iff.mp hd
    rcases earlier_cases d stop with heq | ⟨heq, hlt⟩
    · exact .inl heq
    · rw [heq]
      exact .inr ⟨hlt, i, hi, hadvance⟩
  case h_2 => exact .inl rfl

/-! ## Ranges behind one another -/

/-- The ranges lie one behind the other from `first` to `last`, and none is empty. -/
structure Divides (first last : Date) (rs : List DateRange) : Prop where
  start : rs.head?.map (·.start) = some first
  nonempty : ∀ r ∈ rs, r.start < r.stop
  meets : rs.IsChain fun r s => s.start = r.stop
  stop : rs.getLast?.map (·.stop) = some last

theorem divides_singleton (h : first < last) : Divides first last [⟨first, last⟩] where
  start := rfl
  nonempty := by simpa using h
  meets := .singleton _
  stop := rfl

theorem Divides.cons (h : start < first) (hrs : Divides first last rs) :
    Divides start last (⟨start, first⟩ :: rs) := by
  have hne : rs ≠ [] := by
    rintro rfl
    cases hrs.start
  obtain ⟨s, rest, rfl⟩ := List.exists_cons_of_ne_nil hne
  have hstart : s.start = first := Option.some.inj hrs.start
  refine ⟨rfl, List.forall_mem_cons.mpr ⟨h, hrs.nonempty⟩, .cons_cons hstart hrs.meets, ?_⟩
  rw [List.getLast?_cons_cons]
  exact hrs.stop

theorem exists_rangesFrom (hcount : ∀ i ∈ interval, 1 ≤ i.count) (h : start < stop) :
    ∃ rs, (∀ limit, rangesFrom interval stop limit start = rs.take limit) ∧
      Divides start stop rs := by
  induction hdays : (stop.dayNumber - start.dayNumber).toNat using Nat.strong_induction_on
    generalizing start with
  | h days ih =>
    rcases stopOf_cases interval stop start with hlast | ⟨hlt, i, hi, hadvance⟩
    · refine ⟨[⟨start, stop⟩], fun limit => ?_, divides_singleton h⟩
      cases limit with
      | zero => rfl
      | succ limit =>
        have hend : ¬(stop < stop ∧ start < stop) := fun hstop => Int.lt_irrefl _ hstop.1
        rw [rangesFrom_succ, hlast, if_neg hend, List.take_succ_cons, List.take_nil]
    · have hstep := lt_of_advance? (hcount i hi) hadvance
      have hless : (stop.dayNumber - (stopOf interval stop start).dayNumber).toNat < days := by
        have hbegin : start.dayNumber < (stopOf interval stop start).dayNumber := hstep
        have hend : (stopOf interval stop start).dayNumber < stop.dayNumber := hlt
        omega
      obtain ⟨rs, hrs, hdivides⟩ := ih _ hless hlt rfl
      refine ⟨⟨start, stopOf interval stop start⟩ :: rs, fun limit => ?_, hdivides.cons hstep⟩
      cases limit with
      | zero => rfl
      | succ limit => rw [rangesFrom_succ, if_pos ⟨hlt, hstep⟩, hrs, List.take_succ_cons]

theorem Divides.head (h : Divides first last (r :: rs)) : r.start = first ∧ r.start < r.stop :=
  ⟨Option.some.inj h.start, h.nonempty r List.mem_cons_self⟩

theorem Divides.tail {s : DateRange} (h : Divides first last (r :: s :: rs)) :
    Divides r.stop last (s :: rs) where
  start := congrArg some (List.isChain_cons_cons.mp h.meets).1
  nonempty := (List.forall_mem_cons.mp h.nonempty).2
  meets := (List.isChain_cons_cons.mp h.meets).2
  stop := List.getLast?_cons_cons ▸ h.stop

theorem Divides.lt (h : Divides first last rs) : first < last := by
  induction rs generalizing first with
  | nil => cases h.start
  | cons r rest ih =>
    obtain ⟨rfl, hr⟩ := h.head
    cases rest with
    | nil =>
      obtain rfl : r.stop = last := Option.some.inj h.stop
      exact hr
    | cons s rest => exact Int.lt_trans hr (ih h.tail)

theorem Divides.countP_contains (h : Divides first last rs) (d : Date) :
    rs.countP (·.contains d) = if first ≤ d ∧ d < last then 1 else 0 := by
  induction rs generalizing first with
  | nil => cases h.start
  | cons r rest ih =>
    obtain ⟨rfl, hr⟩ := h.head
    have hcontains : r.contains d = true ↔ r.start ≤ d ∧ d < r.stop := by
      simp [DateRange.contains]
    cases rest with
    | nil =>
      obtain rfl : r.stop = last := Option.some.inj h.stop
      rw [List.countP_singleton, if_congr hcontains rfl rfl]
    | cons s rest =>
      rw [List.countP_cons, ih h.tail, if_congr hcontains rfl rfl]
      have hlt : r.stop.dayNumber < last.dayNumber := h.tail.lt
      have hbegin : r.start.dayNumber < r.stop.dayNumber := hr
      change (if r.stop.dayNumber ≤ d.dayNumber ∧ d.dayNumber < last.dayNumber then 1 else 0) +
        (if r.start.dayNumber ≤ d.dayNumber ∧ d.dayNumber < r.stop.dayNumber then 1 else 0) =
        if r.start.dayNumber ≤ d.dayNumber ∧ d.dayNumber < last.dayNumber then 1 else 0
      split_ifs <;> omega

/-! ## The ranges of a period -/

theorem ranges_eq (hstart : p.start = some first) (hstop : p.stop = some last) (h : first < last)
    (limit : Nat) : p.ranges limit = rangesFrom p.interval last limit first := by
  rw [ranges, hstart, hstop]
  exact if_pos h

theorem exists_of_ranges_ne_nil (h : p.ranges limit ≠ []) :
    ∃ first ∈ p.start, ∃ last ∈ p.stop, first < last := by
  rw [ranges] at h
  split at h
  case h_1 first last hstart hstop =>
    split at h
    case isTrue hlt => exact ⟨first, hstart, last, hstop, hlt⟩
    case isFalse => exact absurd rfl h
  case h_2 => exact absurd rfl h

theorem contains_eq (hstart : p.start = some first) (hstop : p.stop = some last) :
    p.contains d = true ↔ first ≤ d ∧ d < last := by
  simp [contains, hstart, hstop]

/-- A period with both ends, the begin before the end, is divided into finitely many ranges, one
behind the other, and each of its days lies in one of them. Another period has no ranges. -/
theorem ranges_divide (p : Period) :
    (∀ first ∈ p.start, ∀ last ∈ p.stop, first < last → (∀ i ∈ p.interval, 1 ≤ i.count) →
      ∃ rs, (∀ limit, p.ranges limit = rs.take limit) ∧ Divides first last rs ∧
        ∀ d, rs.countP (·.contains d) = if p.contains d then 1 else 0) ∧
      ((∀ first ∈ p.start, ∀ last ∈ p.stop, ¬first < last) → ∀ limit, p.ranges limit = []) := by
  constructor
  · intro first hstart last hstop hlt hcount
    obtain ⟨rs, hrs, hdivides⟩ := exists_rangesFrom hcount hlt
    refine ⟨rs, fun limit => (ranges_eq hstart hstop hlt limit).trans (hrs limit), hdivides, ?_⟩
    intro d
    rw [hdivides.countP_contains, if_congr (contains_eq hstart hstop) rfl rfl]
  · intro hnone limit
    by_contra hne
    obtain ⟨first, hstart, last, hstop, hlt⟩ := exists_of_ranges_ne_nil hne
    exact hnone first hstart last hstop hlt

/-- A month from its last day on, cut off by a second range. -/
theorem ranges_divide_monthly :
    let first : Date := ⟨2023, 1, 31, by decide⟩
    let last : Date := ⟨2023, 3, 15, by decide⟩
    let p : Period := ⟨some ⟨.month, 1⟩, some first, some last⟩
    first < last ∧ (∀ i ∈ p.interval, 1 ≤ i.count) ∧
      ∃ rs, (∀ limit, p.ranges limit = rs.take limit) ∧ Divides first last rs ∧
        ∀ d, rs.countP (·.contains d) = if p.contains d then 1 else 0 := by
  intro first last p
  have hlt : first < last := by decide
  have hcount : ∀ i ∈ p.interval, 1 ≤ i.count := by decide
  exact ⟨hlt, hcount, (ranges_divide p).1 first rfl last rfl hlt hcount⟩

/-! ## Where a range begins -/

theorem rangesFrom_head (h : (rangesFrom interval stop limit start)[0]? = some r) :
    r.start = start := by
  cases limit with
  | zero => cases h
  | succ limit => exact congrArg DateRange.start (Option.some.inj h).symm

theorem rangesFrom_succ_start {s : DateRange}
    (hr : (rangesFrom interval stop limit start)[k]? = some r)
    (hs : (rangesFrom interval stop limit start)[k + 1]? = some s) :
    ∃ i ∈ interval, i.advance? r.start = some s.start := by
  induction limit generalizing start k with
  | zero => cases hr
  | succ limit ih =>
    rw [rangesFrom_succ] at hr hs
    rw [List.getElem?_cons_succ] at hs
    split at hs
    case isTrue hnext =>
      cases k with
      | zero =>
        rw [rangesFrom_head hs, ← Option.some.inj hr]
        rcases stopOf_cases interval stop start with hlast | ⟨-, hstep⟩
        · rw [hlast] at hnext
          exact absurd hnext.1 (Int.lt_irrefl _)
        · exact hstep
      | succ k =>
        rw [if_pos hnext] at hr
        exact ih hr hs
    case isFalse => cases hs

theorem ranges_eq_of_mem (hstart : p.start = some first) (hr : (p.ranges limit)[k]? = some r) :
    ∃ last, p.ranges limit = rangesFrom p.interval last limit first := by
  have hne : p.ranges limit ≠ [] := fun hnil => by simp [hnil] at hr
  obtain ⟨first', hstart', last, hstop, hlt⟩ := exists_of_ranges_ne_nil hne
  obtain rfl : first = first' := Option.some.inj (hstart.symm.trans hstart')
  exact ⟨last, ranges_eq hstart hstop hlt limit⟩

theorem ranges_head (hstart : p.start = some first) (hr : (p.ranges limit)[0]? = some r) :
    r.start = first := by
  obtain ⟨last, hranges⟩ := ranges_eq_of_mem hstart hr
  exact rangesFrom_head (hranges ▸ hr)

theorem exists_ranges_before (hr : (p.ranges limit)[k + 1]? = some r) :
    ∃ s, (p.ranges limit)[k]? = some s := by
  have hlength := (List.getElem?_eq_some_iff.mp hr).1
  exact ⟨_, List.getElem?_eq_getElem (Nat.lt_of_succ_lt hlength)⟩

theorem ranges_succ (hstart : p.start = some first) (hinterval : p.interval = some i)
    {s : DateRange} (hr : (p.ranges limit)[k]? = some r) (hs : (p.ranges limit)[k + 1]? = some s) :
    i.unit.Reaches r.start i.count s.start := by
  obtain ⟨last, hranges⟩ := ranges_eq_of_mem hstart hr
  obtain ⟨i', hi', hadvance⟩ := rangesFrom_succ_start (hranges ▸ hr) (hranges ▸ hs)
  obtain rfl : i = i' := Option.some.inj (hinterval.symm.trans hi')
  exact (advance?_eq_some_iff.mp hadvance).2

/-- The number is no larger than the length of any month in which one of the ranges before number
`k` begins. -/
def FitsBefore (p : Period) (limit k n : Nat) : Prop :=
  ∀ j < k, ∀ r, (p.ranges limit)[j]? = some r → n ≤ r.start.lengthOfMonth

theorem fitsBefore_succ_iff {n : Nat} (hr : (p.ranges limit)[k]? = some r) :
    FitsBefore p limit (k + 1) n ↔ FitsBefore p limit k n ∧ n ≤ r.start.lengthOfMonth := by
  constructor
  · intro h
    exact ⟨fun j hj => h j (Nat.lt_succ_of_lt hj), h k (Nat.lt_succ_self k) r hr⟩
  · rintro ⟨hbefore, hn⟩ j hj s hs
    rcases Nat.lt_succ_iff_lt_or_eq.mp hj with hlt | rfl
    · exact hbefore j hlt s hs
    · obtain rfl := Option.some.inj (hr.symm.trans hs)
      exact hn

theorem ranges_start_days (hstart : p.start = some first) (hinterval : p.interval = some i)
    (hdays : i.unit.isDays = true) (hr : (p.ranges limit)[k]? = some r) :
    r.start.dayNumber = first.dayNumber + i.unit.size * (k * i.count) := by
  induction k generalizing r with
  | zero => simp [ranges_head hstart hr]
  | succ k ih =>
    obtain ⟨s, hs⟩ := exists_ranges_before hr
    have hstep := ranges_succ hstart hinterval hs hr
    rw [CalendarUnit.Reaches, if_pos hdays] at hstep
    rw [hstep, ih hs]
    push_cast
    ring

/-- The day of the month is the smallest of that of the first day and the lengths of the months in
which the ranges up to this one begin. -/
theorem ranges_start_months (hstart : p.start = some first) (hinterval : p.interval = some i)
    (hmonths : i.unit.isDays = false) (hr : (p.ranges limit)[k]? = some r) :
    r.start.monthIndex = first.monthIndex + i.unit.size * (k * i.count) ∧
      ∀ n, n ≤ r.start.day ↔ n ≤ first.day ∧ FitsBefore p limit (k + 1) n := by
  induction k generalizing r with
  | zero =>
    obtain rfl := ranges_head hstart hr
    refine ⟨by simp, fun n => ?_⟩
    rw [fitsBefore_succ_iff hr]
    have hlast : r.start.day ≤ r.start.lengthOfMonth := r.start.isDay.2.2.2
    have hnone : FitsBefore p limit 0 n := nofun
    constructor
    · exact fun h => ⟨h, hnone, Nat.le_trans h hlast⟩
    · exact fun h => h.1
  | succ k ih =>
    obtain ⟨s, hs⟩ := exists_ranges_before hr
    have hstep := ranges_succ hstart hinterval hs hr
    rw [CalendarUnit.Reaches, if_neg (by simp [hmonths]), Date.monthLength_monthIndex] at hstep
    obtain ⟨hindex, hday⟩ := ih hs
    refine ⟨?_, fun n => ?_⟩
    · rw [hstep.1, hindex]
      push_cast
      ring
    · rw [hstep.2, Nat.le_min, hday, fitsBefore_succ_iff hr, and_assoc]

/-- Range number `k` begins in the month that lies `k` intervals behind the begin of the period. For
days and weeks it begins so far behind to the day. For months, quarters and years its day is the
smallest of that of the begin and the lengths of the months in which the ranges up to this one
begin: so it is the day so far behind exactly if that day exists in each of these months. -/
theorem ranges_start (hstart : p.start = some first) (hinterval : p.interval = some i)
    (hr : (p.ranges limit)[k]? = some r) :
    ∃ d, i.unit.shift? first (k * i.count) = some d ∧ r.start.monthIndex = d.monthIndex ∧
      (r.start = d ↔ i.unit.isDays = true ∨ FitsBefore p limit k d.day) ∧
      (i.unit.isDays = false →
        ∀ n, n ≤ r.start.day ↔ n ≤ first.day ∧ FitsBefore p limit (k + 1) n) := by
  cases hunit : i.unit.isDays with
  | true =>
    refine ⟨r.start, CalendarUnit.shift?_eq_some_iff.mpr ?_, rfl, by simp, nofun⟩
    rw [CalendarUnit.Reaches, if_pos hunit]
    exact ranges_start_days hstart hinterval hunit hr
  | false =>
    obtain ⟨hindex, hday⟩ := ranges_start_months hstart hinterval hunit hr
    have hfirst : 1 ≤ first.day := first.isDay.2.2.1
    have hlength : 1 ≤ r.start.lengthOfMonth :=
      Nat.le_trans r.start.isDay.2.2.1 r.start.isDay.2.2.2
    obtain ⟨d, hmonth, hd⟩ := r.start.exists_day
      (Nat.le_min.mpr ⟨hfirst, hlength⟩) (Nat.min_le_right ..)
    have hlow : d.day ≤ first.day ∧ d.day ≤ r.start.lengthOfMonth := Nat.le_min.mp hd.le
    have hle : r.start.day ≤ d.day := by
      rw [hd, Nat.le_min]
      exact ⟨((hday _).mp (Nat.le_refl _)).1, r.start.isDay.2.2.2⟩
    refine ⟨d, CalendarUnit.shift?_eq_some_iff.mpr ?_, hmonth.symm, ?_, fun _ => hday⟩
    · rw [CalendarUnit.Reaches, if_neg (by simp [hunit]), Date.monthLength_monthIndex]
      have hsame : d.lengthOfMonth = r.start.lengthOfMonth := by
        rw [← Date.monthLength_monthIndex, ← Date.monthLength_monthIndex, hmonth]
      exact ⟨hmonth.trans hindex, by rw [hsame, hd]⟩
    · simp only [Bool.false_eq_true, false_or]
      constructor
      · rintro rfl
        exact ((fitsBefore_succ_iff hr).mp ((hday _).mp (Nat.le_refl _)).2).1
      · intro hfits
        have hge : d.day ≤ r.start.day :=
          (hday _).mpr ⟨hlow.1, (fitsBefore_succ_iff hr).mpr ⟨hfits, hlow.2⟩⟩
        exact Date.eq_of_monthIndex_eq hmonth.symm (Nat.le_antisymm hle hge)

/-- Months from a 31st: the second range begins on the last of February, and the third one with it
on a 28th. -/
theorem ranges_start_drifted :
    let first : Date := ⟨2023, 1, 31, by decide⟩
    let i : Interval := ⟨.month, 1⟩
    let p : Period := ⟨some i, some first, some ⟨2023, 5, 1, by decide⟩⟩
    let r : DateRange := ⟨⟨2023, 3, 28, by decide⟩, ⟨2023, 4, 28, by decide⟩⟩
    p.start = some first ∧ p.interval = some i ∧ (p.ranges 4)[2]? = some r ∧
      ∃ d, i.unit.shift? first (2 * i.count) = some d ∧ r.start.monthIndex = d.monthIndex ∧
        (r.start = d ↔ i.unit.isDays = true ∨ FitsBefore p 4 2 d.day) ∧
        (i.unit.isDays = false →
          ∀ n, n ≤ r.start.day ↔ n ≤ first.day ∧ FitsBefore p 4 3 n) := by
  intro first i p r
  have hr : (p.ranges 4)[2]? = some r := by decide
  exact ⟨rfl, rfl, hr, ranges_start rfl rfl hr⟩

/-- A range need not begin on the day that lies its number of intervals behind the begin. -/
theorem ranges_drift :
    let first : Date := ⟨2023, 1, 31, by decide⟩
    let i : Interval := ⟨.month, 1⟩
    let p : Period := ⟨some i, some first, some ⟨2023, 5, 1, by decide⟩⟩
    ∃ r, (p.ranges 4)[2]? = some r ∧ i.unit.shift? first (2 * i.count) ≠ some r.start := by
  intro first i p
  exact ⟨⟨⟨2023, 3, 28, by decide⟩, ⟨2023, 4, 28, by decide⟩⟩, by decide, by decide⟩

end Daybook.Period
