import Daybook.Command.Settings
import Daybook.Proofs.Calendar.Order
import Daybook.Proofs.Result
import Daybook.Proofs.Store.SecondPass
import Daybook.Proofs.Text.Numeral

/-!
# The days that a command line selects

An end of a period takes the place of the end that is given apart from it, also of a stricter one.
So a period narrows the days exactly if its ends do not reach beyond those, or no day is left
(`withPeriod_narrows_iff`). A fiscal year selects its own days, unless it lies so far outside the
calendar that neither it nor the next one begins on any day: then it selects all days. Behind the last
year of 32 bits there is none to end it, and no settings come about (`settings_fiscalYear`).
-/

namespace Daybook

open Daybook.Result

variable {o : Options} {p : Period} {a : Arguments} {d today : Date}

/-! ## Periods -/

/-- The ends of the period lie between those of the options, where both have them. -/
def Options.Encloses (o : Options) (p : Period) : Prop :=
  (∀ first ∈ o.start, ∀ first' ∈ p.start, first ≤ first') ∧
    ∀ last ∈ o.stop, ∀ last' ∈ p.stop, last' ≤ last

instance (o : Options) (p : Period) : Decidable (o.Encloses p) :=
  inferInstanceAs (Decidable (_ ∧ _))

theorem Period.contains_iff : p.contains d = true ↔
    (∀ first ∈ p.start, first ≤ d) ∧ ∀ last ∈ p.stop, d < last := by
  rw [contains, Bool.and_eq_true]
  cases p.start <;> cases p.stop <;> simp

namespace Options

theorem start_withPeriod {first : Date} (h : p.start = some first) :
    (o.withPeriod p).start = some first := Option.or_eq_some_iff.mpr (.inl h)

theorem stop_withPeriod {last : Date} (h : p.stop = some last) :
    (o.withPeriod p).stop = some last := Option.or_eq_some_iff.mpr (.inl h)

theorem covers_withPeriod (ho : o.Covers d) (hp : p.contains d = true) :
    (o.withPeriod p).Covers d := by
  obtain ⟨hstart, hstop⟩ := Period.contains_iff.mp hp
  refine ⟨fun first hfirst => ?_, fun last hlast => ?_⟩
  · rcases Option.or_eq_some_iff.mp hfirst with h | ⟨-, h⟩
    · exact hstart first h
    · exact ho.1 first h
  · rcases Option.or_eq_some_iff.mp hlast with h | ⟨-, h⟩
    · exact hstop last h
    · exact ho.2 last h

theorem contains_of_covers_withPeriod (h : (o.withPeriod p).Covers d) : p.contains d = true :=
  Period.contains_iff.mpr ⟨fun first hfirst => h.1 first (start_withPeriod hfirst),
    fun last hlast => h.2 last (stop_withPeriod hlast)⟩

theorem Encloses.covers (h : o.Encloses p) (hd : (o.withPeriod p).Covers d) : o.Covers d := by
  refine ⟨fun first hfirst => ?_, fun last hlast => ?_⟩
  · cases hstart : p.start with
    | none => exact hd.1 first (Option.or_eq_some_iff.mpr (.inr ⟨hstart, hfirst⟩))
    | some first' =>
      calc first.dayNumber ≤ first'.dayNumber := h.1 first hfirst first' hstart
        _ ≤ d.dayNumber := hd.1 first' (start_withPeriod hstart)
  · cases hstop : p.stop with
    | none => exact hd.2 last (Option.or_eq_some_iff.mpr (.inr ⟨hstop, hlast⟩))
    | some last' =>
      calc d.dayNumber < last'.dayNumber := hd.2 last' (stop_withPeriod hstop)
        _ ≤ last.dayNumber := h.2 last hlast last' hstop

theorem encloses_of_covers (hd : (o.withPeriod p).Covers d)
    (h : ∀ d, (o.withPeriod p).Covers d → o.Covers d) : o.Encloses p := by
  constructor
  · intro first hfirst first' hfirst'
    have hstart := start_withPeriod (o := o) hfirst'
    have hcovers : (o.withPeriod p).Covers first' := by
      have hle : first' ≤ d := hd.1 first' hstart
      refine ⟨fun other hother => ?_, fun last hlast => Int.lt_of_le_of_lt hle (hd.2 last hlast)⟩
      obtain rfl : first' = other := Option.some.inj (hstart.symm.trans hother)
      exact Int.le_refl _
    exact (h first' hcovers).1 first hfirst
  · intro last hlast last' hlast'
    have hstop := stop_withPeriod (o := o) hlast'
    -- Were the period's end the later one, then the day of the other end would be left.
    refine Int.not_lt.mp fun hlt => ?_
    have hcovers : (o.withPeriod p).Covers last := by
      have hbefore : d < last := (h d hd).2 last hlast
      refine ⟨fun first hfirst => Int.le_of_lt (Int.lt_of_le_of_lt (hd.1 first hfirst) hbefore),
        fun other hother => ?_⟩
      obtain rfl : last' = other := Option.some.inj (hstop.symm.trans hother)
      exact hlt
    exact Int.lt_irrefl _ ((h last hcovers).2 last hlast)

theorem covers_imp_iff : (∀ d, (o.withPeriod p).Covers d → o.Covers d) ↔
    o.Encloses p ∨ ∀ d, ¬(o.withPeriod p).Covers d := by
  constructor
  · intro h
    by_cases hnone : ∀ d, ¬(o.withPeriod p).Covers d
    · exact .inr hnone
    · obtain ⟨d, hd⟩ := not_forall_not.mp hnone
      exact .inl (encloses_of_covers hd h)
  · rintro (henclosed | hnone) d hd
    · exact henclosed.covers hd
    · exact absurd hd (hnone d)

end Options

namespace Arguments

def withoutPeriod (a : Arguments) : Arguments :=
  { a with options := { a.options with period := none } }

theorem settings_withPeriod {expression : String} (hyear : a.options.fiscalYear = none)
    (hperiod : a.options.period = some expression) (hread : Period.read expression today = .ok p)
    (hwhole : p.interval = none) (h : a.withoutPeriod.settings today = .ok o) :
    a.settings today = .ok (o.withPeriod p) := by
  obtain ⟨start, hstart, h⟩ := bind_eq_ok_iff.mp h
  obtain ⟨stop, hstop, h⟩ := bind_eq_ok_iff.mp h
  obtain ⟨o', ho', h⟩ := bind_eq_ok_iff.mp h
  obtain rfl := Except.ok.inj ho'
  have ho : applyFiscalYear _ a.options.fiscalYear = .ok o := h
  rw [hyear, applyFiscalYear, Except.ok.injEq] at ho
  refine bind_eq_ok_iff.mpr ⟨start, hstart, bind_eq_ok_iff.mpr ⟨stop, hstop, ?_⟩⟩
  refine bind_eq_ok_iff.mpr ⟨o.withPeriod p, ?_, ?_⟩
  · rw [hperiod, applyPeriod, hread]
    dsimp only
    rw [hwhole, ← ho]
    rfl
  · rw [hyear]
    rfl

end Arguments

/-- An end of a period replaces the end of the options. What is selected lies within both exactly if
the period's ends do not reach beyond those of the options, or if nothing is selected at all; and
this is also when a period that is added to a command line brings in no day. -/
theorem Options.withPeriod_narrows_iff (o : Options) (p : Period) :
    ((∀ d, (o.withPeriod p).Covers d ↔ o.Covers d ∧ p.contains d = true) ↔
      o.Encloses p ∨ ∀ d, ¬(o.withPeriod p).Covers d) ∧
    ∀ (a : Arguments) (today : Date) (expression : String), a.options.fiscalYear = none →
      a.options.period = some expression → Period.read expression today = .ok p →
      p.interval = none → a.withoutPeriod.settings today = .ok o →
      ∃ o', a.settings today = .ok o' ∧ ((∀ d, o'.Covers d → o.Covers d) ↔
        o.Encloses p ∨ ∀ d, ¬o'.Covers d) := by
  constructor
  · rw [← covers_imp_iff]
    exact forall_congr' fun d => ⟨fun h hd => (h.mp hd).1,
      fun h => ⟨fun hd => ⟨h hd, contains_of_covers_withPeriod hd⟩,
        fun hd => covers_withPeriod hd.1 hd.2⟩⟩
  · intro a today expression hyear hperiod hread hwhole h
    exact ⟨_, Arguments.settings_withPeriod hyear hperiod hread hwhole h, covers_imp_iff⟩

/-- A period that begins later than the options do. -/
theorem Options.withPeriod_narrows_later :
    let today : Date := ⟨2024, 1, 1, by decide⟩
    let a : Arguments :=
      ⟨{ GivenOptions.none with start := "2024/01/01", period := "from 2024/06/01" }, .statistics⟩
    let o : Options := { Options.default with start := some today }
    let p : Period := ⟨none, some ⟨2024, 6, 1, by decide⟩, none⟩
    (∀ d, (o.withPeriod p).Covers d ↔ o.Covers d ∧ p.contains d = true) ∧
      ∃ o', a.settings today = .ok o' ∧ ∀ d, o'.Covers d → o.Covers d := by
  intro today a o p
  have hread : Period.read "from 2024/06/01" today = .ok p := by decide +kernel
  have hsettings : a.withoutPeriod.settings today = .ok o := by decide +kernel
  have hencloses : o.Encloses p := by decide +kernel
  have hnarrows := Options.withPeriod_narrows_iff o p
  obtain ⟨o', ho', hiff⟩ := hnarrows.2 a today _ rfl rfl hread rfl hsettings
  exact ⟨hnarrows.1.mpr (.inl hencloses), o', ho', hiff.mpr (.inl hencloses)⟩

/-- A period that begins before the options do: it brings in a day that they exclude. -/
theorem Options.withPeriod_widens :
    let today : Date := ⟨2024, 1, 1, by decide⟩
    let a : Arguments :=
      ⟨{ GivenOptions.none with
        files := ["x"]
        start := "2024/06/01"
        period := "from 2024/01/01" }, .statistics⟩
    let o : Options := { Options.default with start := some ⟨2024, 6, 1, by decide⟩ }
    let p : Period := ⟨none, some today, none⟩
    Arguments.ofList? ["-f", "x", "-b", "2024/06/01", "-p", "from 2024/01/01", "stats"] = some a ∧
      a.withoutPeriod.settings today = .ok o ∧ a.settings today = .ok (o.withPeriod p) ∧
      ¬((o.withPeriod p).Covers today ↔ o.Covers today ∧ p.contains today = true) := by
  intro today a o p
  exact ⟨by decide +kernel, by decide +kernel, by decide +kernel, by decide +kernel⟩

/-! ## Fiscal years -/

namespace Options

theorem fiscalMonth_range (o : Options) : 1 ≤ o.fiscalMonth ∧ o.fiscalMonth ≤ 12 := by
  rw [fiscalMonth]
  split
  · split
    case isTrue h => simpa using h
    case isFalse => decide
  · decide

theorem fiscalYear_eq (o : Options) (d : Date) :
    o.fiscalYear d = (d.monthIndex - (o.fiscalMonth - 1)) / 12 := by
  have hmonth := o.fiscalMonth_range
  have hday := d.isDay.2.1
  rw [fiscalYear, Date.monthIndex]
  split <;> omega

theorem fiscalYear_range (o : Options) (d : Date) :
    firstYear - 1 ≤ o.fiscalYear d ∧ o.fiscalYear d ≤ lastYear := by
  have hyear := d.isDay.1
  rw [fiscalYear]
  split <;> omega

theorem isSome_fiscalYearStart?_iff {year : Int} :
    (o.fiscalYearStart? year).isSome ↔ firstYear ≤ year ∧ year ≤ lastYear := by
  have hfirst : 1 ≤ daysInMonth year o.fiscalMonth := by
    unfold daysInMonth
    split <;> try split
    all_goals decide
  rw [fiscalYearStart?, Date.ofYmd?]
  split
  case isTrue h => exact iff_of_true rfl h.1
  case isFalse h =>
    exact iff_of_false Bool.false_ne_true fun hyear =>
      h ⟨hyear, o.fiscalMonth_range, by decide, hfirst⟩

theorem fiscalYearStart_le_iff {year : Int} {first : Date} (h : first ∈ o.fiscalYearStart? year) :
    first ≤ d ↔ year ≤ o.fiscalYear d := by
  obtain ⟨hyear, hmonth, hday⟩ := Date.ofYmd?_eq_some_iff.mp h
  have hrange := o.fiscalMonth_range
  have hindex : first.monthIndex = 12 * year + (o.fiscalMonth - 1) := by
    rw [Date.monthIndex, hyear, hmonth]
    omega
  rw [Date.first_le_iff hday, hindex, fiscalYear_eq]
  omega

theorem notBefore_fiscalYear_iff (o : Options) (d : Date) (year : Int) :
    (∀ first ∈ o.fiscalYearStart? year, first ≤ d) ↔
      (firstYear ≤ year ∧ year ≤ lastYear → year ≤ o.fiscalYear d) := by
  rw [← isSome_fiscalYearStart?_iff (o := o)]
  cases h : o.fiscalYearStart? year with
  | none => simp
  | some first => simp [fiscalYearStart_le_iff h]

theorem before_fiscalYear_iff (o : Options) (d : Date) (year : Int) :
    (∀ last ∈ o.fiscalYearStart? year, d < last) ↔
      (firstYear ≤ year ∧ year ≤ lastYear → o.fiscalYear d < year) := by
  rw [← isSome_fiscalYearStart?_iff (o := o)]
  cases h : o.fiscalYearStart? year with
  | none => simp
  | some last =>
    have hlt : d < last ↔ ¬last ≤ d := Int.not_le.symm
    simp [hlt, fiscalYearStart_le_iff h]

/-- The days from the begin of a fiscal year up to that of the next one are those of the year,
unless the calendar has neither of the two. -/
theorem covers_fiscalYear_iff {year : Int} (hstart : o.start = o.fiscalYearStart? year)
    (hstop : o.stop = o.fiscalYearStart? (year + 1)) :
    o.Covers d ↔ o.fiscalYear d = year ∨ year < firstYear - 1 ∨ lastYear < year := by
  have hrange := o.fiscalYear_range d
  rw [Covers, hstart, hstop, notBefore_fiscalYear_iff, before_fiscalYear_iff]
  omega

end Options

namespace Arguments

def withoutFiscalYear (a : Arguments) : Arguments :=
  { a with options := { a.options with fiscalYear := none } }

theorem settings_eq (a : Arguments) (today : Date) : a.settings today =
    a.withoutFiscalYear.settings today >>= fun o => applyFiscalYear o a.options.fiscalYear := by
  unfold settings
  simp only [bind_assoc]
  rfl

theorem applyFiscalYear_eq_ok {year : Int} {o o' : Options}
    (h : applyFiscalYear o (some year) = .ok o') :
    o'.start = o'.fiscalYearStart? year ∧ o'.stop = o'.fiscalYearStart? (year + 1) := by
  rw [applyFiscalYear] at h
  split at h
  case h_1 next hnext =>
    obtain ⟨-, rfl⟩ := Text.checked?_eq_some_iff.mp hnext
    obtain rfl := Except.ok.inj h
    exact ⟨rfl, rfl⟩
  case h_2 => cases h

theorem applyFiscalYear_eq_error_iff {year : Int} {e : SettingError}
    (hfits : Text.fitsInt32 year = true) :
    applyFiscalYear o (some year) = .error e ↔ e = .overflow ∧ year = 2147483647 := by
  simp only [Text.fitsInt32, Bool.and_eq_true, decide_eq_true_eq] at hfits
  rw [applyFiscalYear]
  split
  case h_1 next hnext =>
    have hnext := (Text.checked?_eq_some_iff.mp hnext).1
    simp only [Text.fitsInt32, Bool.and_eq_true, decide_eq_true_eq] at hnext
    exact iff_of_false nofun (by omega)
  case h_2 hnone =>
    have hlast : year = 2147483647 := by
      by_contra hne
      have hnext : Text.fitsInt32 (year + 1) = true := by
        simp only [Text.fitsInt32, Bool.and_eq_true, decide_eq_true_eq]
        omega
      rw [Text.checked?_of_fits hnext] at hnone
      cases hnone
    rw [Except.error.injEq, eq_comm]
    exact (and_iff_left hlast).symm

/-- A command line with a fiscal year selects the days of that year, and of no other, if and only if
the year is in the calendar, or the one before its first. In years further out it selects every day,
and no day is of such a year. The settings are those that the other arguments give, but for the days;
there are none in the last year of 32 bits, because the year behind it overflows. -/
theorem settings_fiscalYear {year : Int} (hyear : a.options.fiscalYear = some year)
    (hfits : Text.fitsInt32 year = true) :
    (∀ o, a.settings today = .ok o →
      ((∀ d, o.Covers d ↔ o.fiscalYear d = year) ↔ firstYear - 1 ≤ year ∧ year ≤ lastYear) ∧
      (¬(firstYear - 1 ≤ year ∧ year ≤ lastYear) → ∀ d, o.Covers d ∧ o.fiscalYear d ≠ year)) ∧
    ∀ o, a.withoutFiscalYear.settings today = .ok o →
      ((∃ o', a.settings today = .ok o') ↔ year ≠ 2147483647) ∧
      (a.settings today = .error .overflow ↔ year = 2147483647) := by
  refine ⟨fun o h => ?_, fun o h => ?_⟩
  · rw [settings_eq, hyear] at h
    obtain ⟨o', -, h⟩ := bind_eq_ok_iff.mp h
    obtain ⟨hstart, hstop⟩ := applyFiscalYear_eq_ok h
    have hcovers (d : Date) := Options.covers_fiscalYear_iff (d := d) hstart hstop
    have hrange := o.fiscalYear_range
    have houtside (hout : ¬(firstYear - 1 ≤ year ∧ year ≤ lastYear)) (d : Date) :
        o.Covers d ∧ o.fiscalYear d ≠ year := by
      have hd := hrange d
      exact ⟨(hcovers d).mpr (by omega), by omega⟩
    refine ⟨⟨fun hall => ?_, fun hin d => ?_⟩, houtside⟩
    · by_contra hout
      obtain ⟨hd, hne⟩ := houtside hout Date.first
      exact hne ((hall _).mp hd)
    · rw [hcovers]
      omega
  · have hsettings : a.settings today = applyFiscalYear o (some year) := by
      rw [settings_eq, h, hyear]
      rfl
    rw [hsettings, applyFiscalYear_eq_error_iff hfits, and_iff_right rfl]
    refine ⟨?_, Iff.rfl⟩
    rw [← not_iff_not, ← exists_error_iff, not_not]
    simp only [applyFiscalYear_eq_error_iff hfits, exists_eq_left]

end Arguments

/-- A fiscal year that begins in April: the first of January belongs to the one before. -/
theorem Arguments.settings_fiscalYear_april :
    let today : Date := ⟨2024, 1, 1, by decide⟩
    let a : Arguments :=
      ⟨{ GivenOptions.none with yearMonth := some 4, fiscalYear := some 2023 }, .statistics⟩
    let o : Options :=
      { Options.default with
        start := some ⟨2023, 4, 1, by decide⟩
        stop := some ⟨2024, 4, 1, by decide⟩
        yearMonth := some 4 }
    a.settings today = .ok o ∧ o.fiscalYear today = 2023 ∧
      ∀ d, o.Covers d ↔ o.fiscalYear d = 2023 := by
  intro today a o
  have ho : a.settings today = .ok o := by decide +kernel
  have hyear : a.options.fiscalYear = some 2023 := rfl
  have hfits : Text.fitsInt32 2023 = true := by decide
  exact ⟨ho, by decide, ((Arguments.settings_fiscalYear hyear hfits).1 o ho).1.mpr (by decide)⟩

/-- The year behind the last one of the calendar selects a day of another year. -/
theorem Arguments.settings_fiscalYear_outside :
    let today : Date := ⟨2024, 1, 1, by decide⟩
    let a : Arguments :=
      ⟨{ GivenOptions.none with files := ["x"], fiscalYear := some 262143 }, .statistics⟩
    Arguments.ofList? ["-f", "x", "--fy", "262143", "stats"] = some a ∧
      a.settings today = .ok .default ∧ Options.default.Covers today ∧
      Options.default.fiscalYear today ≠ 262143 := by
  intro today a
  exact ⟨by decide +kernel, by decide +kernel, by decide +kernel, by decide +kernel⟩

end Daybook
