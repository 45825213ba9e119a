import Daybook.Proofs.Calendar.Extent
import Daybook.Proofs.Calendar.Naming

/-!
# Dates in numbers

Three numbers with separators between them are read as a year, a month and a day, two numbers as a
month and a day; a year of at most two digits lies in the century of a reference year. Main
statement: each day of a year of four digits is read from all its forms, as a date and as a journal
date, and numbers that name no day are refused by both (`reads_forms`).
-/

namespace Daybook

open Daybook.Text Daybook.Result

namespace Date

/-- Whether the year is written in four digits, without a sign. -/
def HasPlainYear (d : Date) : Prop := 0 ≤ d.year ∧ d.year ≤ 9999

instance (d : Date) : Decidable d.HasPlainYear := inferInstanceAs (Decidable (_ ∧ _))

theorem exists_next {d : Date} (h : d.HasPlainYear) :
    ∃ next, CalendarUnit.day.shift? d 1 = some next := by
  have hlast : d < last := by
    apply lt_of_monthIndex_lt
    have hmonth : last.monthIndex = 12 * lastYear + 11 := rfl
    have hyear := monthIndex_div d
    obtain ⟨-, hbound⟩ := h
    simp only [lastYear] at hmonth
    omega
  obtain ⟨next, hnext⟩ := exists_succ hlast
  exact ⟨next, CalendarUnit.addDays?_eq_some_iff.mpr hnext⟩

end Date

namespace DateSpec

variable {raw : String} {cs y m d : List Char} {s s' : Char} {Y M D : Nat} {year reference : Int}
  {today day : Date} {r : DateRange} {e : DateError}

/-! ## Numbers -/

theorem isSeparator_eq_false_of_isDigit {c : Char} (h : isDigit c = true) :
    isSeparator c = false := by
  have hrange := isDigit_iff.mp h
  simp only [isSeparator, Bool.or_eq_false_iff, decide_eq_false_iff_not]
  refine ⟨⟨?_, ?_⟩, ?_⟩ <;> rintro rfl <;> simp at hrange

theorem readPart_eq (h : readDigits? cs = some M) (raw : String) :
    readPart raw cs = if M < 2 ^ 32 then .ok M else .error (.unrecognized raw) := by
  unfold readPart
  rw [readNat32?_eq_of_digits h]
  by_cases hM : M < 4294967296
  · rw [if_pos hM]
    exact (if_pos hM).symm
  · rw [if_neg hM]
    exact (if_neg hM).symm

theorem readYear_eq (h : readDigits? cs = some Y) (raw : String) :
    readYear raw cs = if Y < 2 ^ 31 then .ok (Y : Int) else .error (.unrecognized raw) := by
  have hfits : fitsInt32 (Y : Int) = true ↔ Y < 2 ^ 31 := by
    simp only [fitsInt32, Bool.and_eq_true, decide_eq_true_eq]
    omega
  unfold readYear
  rw [readInt32?_of_digits h, checked?]
  by_cases hY : Y < 2 ^ 31
  · rw [if_pos (hfits.mpr hY), if_pos hY]
  · rw [if_neg (mt hfits.mp hY), if_neg hY]

/-! ## The year -/

/-- The year that digits stand for: at most two of them count from the begin of the century. -/
def yearOf (reference : Int) (digits : List Char) (y : Nat) : Int :=
  if digits.length ≤ 2 then century reference + y else y

/-- The numbers that come up, one after the other, when a year of two digits is taken to lie in the
century of `year`. -/
def promotion (yy year : Int) : List Int := [year / 100, century year, century year + yy]

/-- The numbers have 32 bits, except in the first and the last century of such years. -/
theorem fits_promotion_iff {yy : Int} (hyear : fitsInt32 year = true) (hlow : 0 ≤ yy)
    (hhigh : yy ≤ 99) : (∀ n ∈ promotion yy year, fitsInt32 n = true) ↔
      -2147483600 ≤ year ∧ (2147483600 ≤ year → yy ≤ 47) := by
  simp only [promotion, century, List.forall_mem_cons, List.not_mem_nil, false_imp_iff,
    implies_true, and_true, fitsInt32, Bool.and_eq_true, decide_eq_true_eq] at hyear ⊢
  omega

theorem expandYear?_of_fits {yy : Int} (h : ∀ n ∈ promotion yy year, fitsInt32 n = true) :
    expandYear? yy year = some (century year + yy) := by
  rw [expandYear?, checked?_of_fits (h _ (by simp [promotion]))]
  exact checked?_of_fits (h _ (by simp [promotion]))

/-- A year is completed to the sum that it should be, or else a number on the way to it does not have
32 bits. -/
theorem expandYear?_eq_none_iff {yy : Int} (hyear : fitsInt32 year = true) :
    expandYear? yy year = none ↔ ¬∀ n ∈ promotion yy year, fitsInt32 n = true := by
  refine ⟨fun hnone hfits => ?_, fun h => ?_⟩
  · rw [expandYear?_of_fits hfits] at hnone
    cases hnone
  · refine Option.eq_none_iff_forall_ne_some.mpr fun n hn => h ?_
    obtain ⟨first, hfirst, hsum⟩ := Option.bind_eq_some_iff.mp hn
    obtain ⟨hcentury, rfl⟩ := checked?_eq_some_iff.mp hfirst
    have hquotient : fitsInt32 (year / 100) = true := by
      simp only [fitsInt32, Bool.and_eq_true, decide_eq_true_eq] at hyear ⊢
      omega
    simp only [promotion, List.forall_mem_cons, List.not_mem_nil, false_imp_iff, implies_true,
      and_true]
    exact ⟨hquotient, hcentury, (checked?_eq_some_iff.mp hsum).1⟩

/-- The year that digits stand for is found in 32 bits. -/
def Completes (reference : Int) (digits : List Char) (y : Nat) : Prop :=
  digits.length ≤ 2 → ∀ n ∈ promotion y reference, fitsInt32 n = true

theorem le_of_length_le_two (h : readDigits? cs = some Y) (hlength : cs.length ≤ 2) : Y ≤ 99 := by
  have hdigits := (digits_of_readDigits? h).2
  have hvalue : digitsValue cs = Y := by
    unfold readDigits? at h
    split at h
    case isTrue => exact Option.some.inj h
    case isFalse => cases h
  have hdigit : ∀ c ∈ cs, digitValue c ≤ 9 := fun c hc => by
    have hrange := isDigit_iff.mp (hdigits c hc)
    show c.toNat - 48 ≤ 9
    omega
  match cs, hlength with
  | [], _ =>
    rw [← hvalue]
    exact Nat.zero_le 99
  | [c], _ =>
    have hc := hdigit c (by simp)
    simp only [digitsValue, List.foldl_cons, List.foldl_nil] at hvalue
    omega
  | [c, c'], _ =>
    have hc := hdigit c (by simp)
    have hc' := hdigit c' (by simp)
    simp only [digitsValue, List.foldl_cons, List.foldl_nil] at hvalue
    omega

theorem completes_iff (hreference : fitsInt32 reference = true) (h : readDigits? cs = some Y) :
    Completes reference cs Y ↔
      (cs.length ≤ 2 → -2147483600 ≤ reference ∧ (2147483600 ≤ reference → Y ≤ 47)) := by
  refine imp_congr_right fun hlength => ?_
  rw [fits_promotion_iff hreference (Int.natCast_nonneg Y)
    (Int.ofNat_le.mpr (le_of_length_le_two h hlength))]
  omega

theorem readFullYear_eq (h : readDigits? cs = some Y) (hY : Y < 2 ^ 31)
    (hcompletes : Completes reference cs Y) (raw : String) :
    readFullYear raw reference cs = .ok (yearOf reference cs Y) := by
  rw [readFullYear, readYear_eq h, if_pos hY, yearOf]
  change (if cs.length ≤ 2 then _ else _) = _
  by_cases hlength : cs.length ≤ 2
  · rw [if_pos hlength, if_pos hlength, expandYear?_of_fits (hcompletes hlength)]
    rfl
  · rw [if_neg hlength, if_neg hlength]
    rfl

/-! ## Texts -/

/-- A year, a month and a day. -/
def tripleText (y m d : List Char) (s s' : Char) : String := String.ofList (y ++ s :: (m ++ s' :: d))

def pairText (m d : List Char) (s : Char) : String := String.ofList (m ++ s :: d)

theorem isNumeric_pairText (hm : readDigits? m = some M) (hd : readDigits? d = some D)
    (hs : isSeparator s = true) : IsNumeric (pairText m d s) := by
  unfold IsNumeric pairText
  rw [String.toList_ofList]
  refine ⟨by simp, fun c hc => ?_⟩
  simp only [List.mem_append, List.mem_cons] at hc
  rcases hc with hc | rfl | hc
  · exact .inl ((digits_of_readDigits? hm).2 c hc)
  · exact .inr hs
  · exact .inl ((digits_of_readDigits? hd).2 c hc)

theorem isNumeric_tripleText (hy : readDigits? y = some Y) (hm : readDigits? m = some M)
    (hd : readDigits? d = some D) (hs : isSeparator s = true) (hs' : isSeparator s' = true) :
    IsNumeric (tripleText y m d s s') := by
  have hrest := (isNumeric_pairText hm hd hs').2
  unfold pairText at hrest
  rw [String.toList_ofList] at hrest
  unfold IsNumeric tripleText
  rw [String.toList_ofList]
  refine ⟨by simp, fun c hc => ?_⟩
  rw [List.mem_append, List.mem_cons] at hc
  rcases hc with hc | rfl | hc
  · exact .inl ((digits_of_readDigits? hy).2 c hc)
  · exact .inr hs
  · exact hrest c hc

theorem pieces_digits (h : readDigits? cs = some Y) : pieces isSeparator cs = [cs] :=
  pieces_eq_singleton fun c hc => isSeparator_eq_false_of_isDigit ((digits_of_readDigits? h).2 c hc)

theorem any_digits (h : readDigits? cs = some Y) : (decide (cs = []) || !cs.all isDigit) = false := by
  obtain ⟨hne, hdigits⟩ := digits_of_readDigits? h
  simp [hne, List.all_eq_true.mpr hdigits]

theorem readNumeric_triple (hy : readDigits? y = some Y) (hm : readDigits? m = some M)
    (hd : readDigits? d = some D) (hs : isSeparator s = true) (hs' : isSeparator s' = true)
    (hcompletes : Completes reference y Y) : readNumeric (tripleText y m d s s') reference =
      let raw := tripleText y m d s s'
      if Y < 2 ^ 31 ∧ M < 2 ^ 32 ∧ D < 2 ^ 32 then
        dayOf raw (yearOf reference y Y) M D >>= DateRange.ofUnit raw .day
      else .error (.unrecognized raw) := by
  have hpieces : pieces isSeparator (tripleText y m d s s').toList = [y, m, d] := by
    unfold tripleText
    rw [String.toList_ofList, pieces_append_cons hs, pieces_append_cons hs', pieces_digits hy,
      pieces_digits hm, pieces_digits hd]
    rfl
  simp only [readNumeric, hpieces, List.any_cons, List.any_nil, any_digits hy, any_digits hm,
    any_digits hd, Bool.or_false, Bool.false_eq_true, if_false]
  by_cases hfits : Y < 2 ^ 31 ∧ M < 2 ^ 32 ∧ D < 2 ^ 32
  · obtain ⟨hY, hM, hD⟩ := hfits
    rw [readFullYear_eq hy hY hcompletes, readPart_eq hm, readPart_eq hd, if_pos hM, if_pos hD,
      if_pos ⟨hY, hM, hD⟩]
    rfl
  · -- The first number that does not fit is refused.
    rw [if_neg hfits]
    by_cases hY : Y < 2 ^ 31
    · rw [readFullYear_eq hy hY hcompletes, readPart_eq hm, readPart_eq hd]
      by_cases hM : M < 2 ^ 32
      · have hD : ¬D < 2 ^ 32 := fun hD => hfits ⟨hY, hM, hD⟩
        rw [if_pos hM, if_neg hD]
        rfl
      · rw [if_neg hM]
        rfl
    · unfold readFullYear
      rw [readYear_eq hy, if_neg hY]
      rfl

theorem readNumeric_pair (hm : readDigits? m = some M) (hd : readDigits? d = some D)
    (hs : isSeparator s = true) (hlength : m.length ≠ 4) (hM : M < 2 ^ 32) (hD : D < 2 ^ 32)
    (year : Int) : readNumeric (pairText m d s) year =
      dayOf (pairText m d s) year M D >>= DateRange.ofUnit (pairText m d s) .day := by
  have hpieces : pieces isSeparator (pairText m d s).toList = [m, d] := by
    unfold pairText
    rw [String.toList_ofList, pieces_append_cons hs, pieces_digits hm, pieces_digits hd]
    rfl
  simp only [readNumeric, hpieces, List.any_cons, List.any_nil, any_digits hm, any_digits hd,
    Bool.or_false, Bool.false_eq_true, if_false, if_neg hlength]
  rw [readPart_eq hm, readPart_eq hd, if_pos hM, if_pos hD]
  rfl

/-! ## Dates and journal dates -/

theorem trim_numeric (h : IsNumeric raw) : trim raw.toList = raw.toList :=
  trim_eq h.1 fun c hc => (lower_of_mem_plainChars c ((isPlainWord_of_isNumeric h).2 c hc)).2.2

theorem readDate_numeric (h : IsNumeric raw) :
    readDate raw today = (·.start) <$> readNumeric raw today.year := by
  unfold readDate
  rw [readRange_numeric h (lowerWords_plain (isPlainWord_of_isNumeric h))]
  cases readNumeric raw today.year <;> rfl

theorem reads_of_isUnit (h : IsNumeric raw) (hread : readNumeric raw year = .ok r)
    (hr : r.IsUnit .day day) :
    (∀ today : Date, today.year = year → readDate raw today = .ok day) ∧
      readJournalDate raw year = .ok day := by
  obtain ⟨hstart, hstop⟩ := hr
  constructor
  · rintro today rfl
    rw [readDate_numeric h, hread, ← hstart]
    rfl
  · rw [← hstart] at hstop ⊢
    simp only [readJournalDate, trim_numeric h, String.ofList_toList, if_neg h.1, hread]
    exact if_pos hstop

theorem reads_of_error (h : IsNumeric raw) (hread : readNumeric raw year = .error e) :
    (∀ today : Date, today.year = year → readDate raw today = .error e) ∧
      readJournalDate raw year = .error e := by
  constructor
  · rintro today rfl
    rw [readDate_numeric h, hread]
    rfl
  · simp only [readJournalDate, trim_numeric h, String.ofList_toList, if_neg h.1, hread]
    rfl

/-- The digits of a day are read as that day, if the year that they stand for is its year. -/
theorem reads_tripleText (hday : day.HasPlainYear) (hy : readDigits? y = some Y)
    (hm : readDigits? m = some day.month) (hd : readDigits? d = some day.day)
    (hs : isSeparator s = true) (hs' : isSeparator s' = true) (hY : Y < 2 ^ 31)
    (hcompletes : Completes reference y Y) (hyear : yearOf reference y Y = day.year) :
    (∀ today : Date, today.year = reference →
        readDate (tripleText y m d s s') today = .ok day) ∧
      readJournalDate (tripleText y m d s s') reference = .ok day := by
  obtain ⟨next, hnext⟩ := Date.exists_next hday
  have hmonth : day.month ≤ 12 := day.isDay.2.1.2
  have hbound := (Date.daysInMonth_bounds day.year day.month).2
  have hlast : day.day ≤ 31 := Nat.le_trans day.isDay.2.2.2 hbound
  have hdate : Date.ofYmd? day.year day.month day.day = some day :=
    Date.ofYmd?_eq_some_iff.mpr ⟨rfl, rfl, rfl⟩
  refine reads_of_isUnit (r := ⟨day, next⟩) (isNumeric_tripleText hy hm hd hs hs') ?_ ⟨rfl, hnext⟩
  rw [readNumeric_triple hy hm hd hs hs' hcompletes, if_pos ⟨hY, by omega, by omega⟩, hyear]
  exact bind_eq_ok_iff.mpr ⟨day, dayOf_eq_ok_iff.mpr hdate, ofUnit_eq_ok_iff.mpr ⟨rfl, hnext⟩⟩

/-! ## The forms of a day -/

/-- The characters that separate the numbers of a date. -/
def separators : List Char := ['/', '-', '.']

theorem isSeparator_of_mem (h : s ∈ separators) : isSeparator s = true := by
  simpa [separators, isSeparator, or_assoc] using h

theorem length_zeroPadded_le {n width : Nat} (hn : n < 100) (hwidth : width ≤ 2) :
    (zeroPadded width n).toList.length ≤ 2 := by
  have hrepr : ∀ n < 100, n.repr.toList.length ≤ 2 := by decide +kernel
  have hlength := hrepr n hn
  rw [toList_zeroPadded, List.length_append, List.length_replicate]
  omega

theorem yearOf_plain (hday : day.HasPlainYear) (reference : Int) :
    let digits := (zeroPadded 4 day.year.toNat).toList
    Completes reference digits day.year.toNat ∧
      yearOf reference digits day.year.toNat = day.year := by
  have hlength := le_length_zeroPadded 4 day.year.toNat
  refine ⟨fun hshort => by omega, ?_⟩
  rw [yearOf, if_neg (by omega)]
  exact Int.toNat_of_nonneg hday.1

theorem yearOf_century (hday : day.HasPlainYear) (hcentury : day.year / 100 = reference / 100) :
    let digits := (zeroPadded 2 (day.year % 100).toNat).toList
    Completes reference digits (day.year % 100).toNat ∧
      yearOf reference digits (day.year % 100).toNat = day.year := by
  obtain ⟨hlow, hhigh⟩ := hday
  constructor
  · intro _
    simp only [promotion, century, List.forall_mem_cons, List.not_mem_nil, false_imp_iff,
      implies_true, and_true, fitsInt32, Bool.and_eq_true, decide_eq_true_eq]
    omega
  · rw [yearOf, if_pos (length_zeroPadded_le (by omega) (Nat.le_refl 2)), century]
    omega

theorem month_lt (d : Date) : d.month < 100 := by
  have hmonth : d.month ≤ 12 := d.isDay.2.1.2
  omega

theorem day_lt (d : Date) : d.day < 100 := by
  have hbound := (Date.daysInMonth_bounds d.year d.month).2
  have hday : d.day ≤ daysInMonth d.year d.month := d.isDay.2.2.2
  omega

/-- A day of the year is read from its month and its day. -/
theorem reads_pairText (hday : day.HasPlainYear) {w w' : Nat} (hw : w ≤ 2)
    (hs : isSeparator s = true) :
    (∀ today : Date, today.year = day.year → readDate
        (pairText (zeroPadded w day.month).toList (zeroPadded w' day.day).toList s) today =
          .ok day) ∧
      readJournalDate
        (pairText (zeroPadded w day.month).toList (zeroPadded w' day.day).toList s) day.year =
          .ok day := by
  obtain ⟨next, hnext⟩ := Date.exists_next hday
  have hmonth := month_lt day
  have hdays := day_lt day
  have hlength := length_zeroPadded_le hmonth hw
  have hm := readDigits?_zeroPadded w day.month
  have hd := readDigits?_zeroPadded w' day.day
  have hdate : Date.ofYmd? day.year day.month day.day = some day :=
    Date.ofYmd?_eq_some_iff.mpr ⟨rfl, rfl, rfl⟩
  refine reads_of_isUnit (r := ⟨day, next⟩) (isNumeric_pairText hm hd hs) ?_ ⟨rfl, hnext⟩
  rw [readNumeric_pair hm hd hs (by omega) (by omega) (by omega)]
  exact bind_eq_ok_iff.mpr ⟨day, dayOf_eq_ok_iff.mpr hdate, ofUnit_eq_ok_iff.mpr ⟨rfl, hnext⟩⟩

/-- Three numbers that name no day are out of range, or not recognized if one of them is too
large. -/
theorem refuses_tripleText (hy : readDigits? y = some Y) (hm : readDigits? m = some M)
    (hd : readDigits? d = some D) (hs : isSeparator s = true) (hs' : isSeparator s' = true)
    (hcompletes : Completes reference y Y) (hnone : ¬IsDay (yearOf reference y Y) M D) :
    readNumeric (tripleText y m d s s') reference =
      .error (if Y < 2 ^ 31 ∧ M < 2 ^ 32 ∧ D < 2 ^ 32 then .outOfRange (tripleText y m d s s')
        else .unrecognized (tripleText y m d s s')) := by
  have hdate : Date.ofYmd? (yearOf reference y Y) M D = none := dif_neg hnone
  rw [readNumeric_triple hy hm hd hs hs' hcompletes]
  by_cases hfits : Y < 2 ^ 31 ∧ M < 2 ^ 32 ∧ D < 2 ^ 32
  · rw [if_pos hfits, if_pos hfits]
    unfold dayOf
    rw [hdate]
    rfl
  · rw [if_neg hfits, if_neg hfits]

/-- A day of a year of four digits is read, as a date and as a journal date, from its year, its
month and its day with any separators and with or without zeros before the month and the day: with
all digits of the year seen from any day and in any year, with the last two of them from its century,
and without the year from the year itself. Three numbers that name no day are refused by both: as out
of range if the year is below `2 ^ 31` and the month and the day below `2 ^ 32`, and as not
recognized otherwise. Of a year of at most two digits this is said only where it can be completed in
32 bits. -/
theorem reads_forms :
    (∀ (d : Date) (s s' : Char) (w w' : Nat), d.HasPlainYear → s ∈ separators → s' ∈ separators →
      w ≤ 2 → w' ≤ 2 →
      let month := (zeroPadded w d.month).toList
      let day := (zeroPadded w' d.day).toList
      (∀ (today : Date) (year : Int),
        let text := tripleText (zeroPadded 4 d.year.toNat).toList month day s s'
        readDate text today = .ok d ∧ readJournalDate text year = .ok d) ∧
      (∀ reference, 0 ≤ reference → d.year / 100 = reference / 100 →
        let text := tripleText (zeroPadded 2 (d.year % 100).toNat).toList month day s s'
        (∀ today : Date, today.year = reference → readDate text today = .ok d) ∧
          readJournalDate text reference = .ok d) ∧
      let text := pairText month day s
      (∀ today : Date, today.year = d.year → readDate text today = .ok d) ∧
        readJournalDate text d.year = .ok d) ∧
      ∀ y m d Y M D s s' reference, readDigits? y = some Y → readDigits? m = some M →
        readDigits? d = some D → s ∈ separators → s' ∈ separators → fitsInt32 reference = true →
        (y.length ≤ 2 → -2147483600 ≤ reference ∧ (2147483600 ≤ reference → Y ≤ 47)) →
        ¬IsDay (yearOf reference y Y) M D →
        let text := tripleText y m d s s'
        let e := if Y < 2 ^ 31 ∧ M < 2 ^ 32 ∧ D < 2 ^ 32 then DateError.outOfRange text
          else .unrecognized text
        (∀ today : Date, today.year = reference → readDate text today = .error e) ∧
          readJournalDate text reference = .error e := by
  constructor
  · intro d s s' w w' hd hs hs' hw hw'
    have hseparator := isSeparator_of_mem hs
    have hseparator' := isSeparator_of_mem hs'
    have hmonth := readDigits?_zeroPadded w d.month
    have hday := readDigits?_zeroPadded w' d.day
    have hsmall : d.year.toNat < 2 ^ 31 := by
      have hbound := hd.2
      omega
    refine ⟨fun today year => ?_, fun reference _ hcentury => ?_, ?_⟩
    · have hreads := fun reference => reads_tripleText hd (readDigits?_zeroPadded 4 _) hmonth hday
        hseparator hseparator' hsmall (yearOf_plain hd reference).1 (yearOf_plain hd reference).2
      exact ⟨(hreads today.year).1 today rfl, (hreads year).2⟩
    · obtain ⟨hcompletes, hyear⟩ := yearOf_century hd hcentury
      exact reads_tripleText hd (readDigits?_zeroPadded 2 _) hmonth hday hseparator hseparator'
        (by omega) hcompletes hyear
    · exact reads_pairText hd hw hseparator
  · intro y m d Y M D s s' reference hy hm hd hs hs' hreference hbounds hnone
    have hseparator := isSeparator_of_mem hs
    have hseparator' := isSeparator_of_mem hs'
    exact reads_of_error (isNumeric_tripleText hy hm hd hseparator hseparator')
      (refuses_tripleText hy hm hd hseparator hseparator'
        ((completes_iff hreference hy).mpr hbounds) hnone)

/-- A leap day in the three forms, and the same day of the year after it. -/
theorem reads_forms_leapDay :
    let d : Date := ⟨2024, 2, 29, by decide⟩
    let today : Date := ⟨1999, 1, 1, by decide⟩
    d.HasPlainYear ∧ '-' ∈ separators ∧ '.' ∈ separators ∧ readDate "2024-2.29" today = .ok d ∧
      (d.year / 100 = 2050 / 100 ∧ readJournalDate "24-2.29" 2050 = .ok d) ∧
      readJournalDate "2-29" 2024 = .ok d ∧
      ¬IsDay (yearOf 2024 ['2', '5'] 25) 2 29 ∧
      readJournalDate "25-2.29" 2024 = .error (.outOfRange "25-2.29") := by
  intro d today
  have hlong : tripleText (zeroPadded 4 d.year.toNat).toList (zeroPadded 1 d.month).toList
      (zeroPadded 1 d.day).toList '-' '.' = "2024-2.29" := by decide +kernel
  have hshort : tripleText (zeroPadded 2 (d.year % 100).toNat).toList (zeroPadded 1 d.month).toList
      (zeroPadded 1 d.day).toList '-' '.' = "24-2.29" := by decide +kernel
  have hpair : pairText (zeroPadded 1 d.month).toList (zeroPadded 1 d.day).toList '-' = "2-29" := by
    decide +kernel
  obtain ⟨hall, hcentury, hyear⟩ := reads_forms.1 d '-' '.' 1 1 (by decide) (by decide) (by decide)
    (by decide) (by decide)
  have hnone := reads_forms.2 ['2', '5'] ['2'] ['2', '9'] 25 2 29 '-' '.' 2024
    (by decide) (by decide) (by decide) (by decide) (by decide) (by decide) (by decide) (by decide)
  exact ⟨by decide, by decide, by decide, hlong ▸ (hall today 0).1,
    ⟨by decide, hshort ▸ (hcentury 2050 (by decide) (by decide)).2⟩, hpair ▸ hyear.2, by decide,
    hnone.2⟩

/-- A number that is too large is not recognized, although the text is made like a date. -/
theorem large_number_unrecognized :
    ¬IsDay 2013 2 4294967296 ∧
      readDate "2013/02/4294967296" ⟨2024, 6, 15, by decide⟩ =
        .error (.unrecognized "2013/02/4294967296") ∧
      readJournalDate "2013/02/4294967296" 2024 = .error (.unrecognized "2013/02/4294967296") := by
  decide +kernel

end DateSpec

end Daybook
