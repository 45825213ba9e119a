import Mathlib.Data.Nat.Digits.Defs
import Daybook.Metadata
import Daybook.Proofs.Calendar.Numeric
import Daybook.Proofs.Decimal.HalfEven
import Daybook.Proofs.Decimal.Written
import Daybook.Proofs.Text.Trim

/-!
# Values that are shown and inferred again

The kind of a value is inferred from its text: a number if it can be read as one, else a date, else
the text without the blanks around it (`infer_cases`). A number is shown with all its decimals, a date
with a sign before years that have not four digits; no date reads as a number. Main statement: what is
inferred from a text is inferred again from what is shown of it (`infer_shown`).
-/

namespace Daybook

open Daybook.Text

/-! ## Numbers -/

namespace Decimal

variable {a : Decimal} {cs : List Char}

theorem not_isNegativeZero_of_roundedBy {negative : Bool} {m scale : Nat} {c : Char}
    (h : roundedBy negative m scale c = some a) : ¬a.IsNegativeZero := by
  simp only [roundedBy] at h
  repeat' split at h
  all_goals first | exact not_isNegativeZero_of_ofParts? h | cases h

theorem not_isNegativeZero_of_readFrom? {negative point seen : Bool} {m scale : Nat}
    (h : readFrom? negative point seen m scale cs = some a) : ¬a.IsNegativeZero := by
  induction cs generalizing point seen m scale with
  | nil =>
    rw [readFrom?] at h
    split at h
    · exact not_isNegativeZero_of_ofParts? h
    · cases h
  | cons c cs ih =>
    simp only [readFrom?] at h
    repeat' split at h
    all_goals first | exact not_isNegativeZero_of_roundedBy h | exact ih h | cases h

theorem not_isNegativeZero_of_readPlain? (h : readPlain? cs = some a) : ¬a.IsNegativeZero := by
  unfold readPlain? at h
  split at h <;> exact not_isNegativeZero_of_readFrom? h

theorem not_isNegativeZero_of_lowered? {b : Decimal} {n : Nat} (ha : ¬a.IsNegativeZero)
    (h : a.lowered? n = some b) : ¬b.IsNegativeZero := by
  rw [lowered?] at h
  split at h
  · obtain rfl := Option.some.inj h
    exact ha
  · cases h

theorem not_isNegativeZero_of_raised? {b : Decimal} {n : Nat} (ha : ¬a.IsNegativeZero)
    (h : a.raised? n = some b) : ¬b.IsNegativeZero := by
  rw [raised?] at h
  split at h
  · obtain rfl := Option.some.inj h
    exact ha
  split at h
  · exact not_isNegativeZero_of_ofParts? h
  · cases h

theorem not_isNegativeZero_of_read? (h : read? cs = some a) : ¬a.IsNegativeZero := by
  unfold read? at h
  split at h
  case h_1 => exact not_isNegativeZero_of_readPlain? h
  case h_2 =>
    obtain ⟨b, hb, h⟩ := Option.bind_eq_some_iff.mp h
    have hbase := not_isNegativeZero_of_readPlain? hb
    split at h
    · obtain ⟨n, -, h⟩ := Option.bind_eq_some_iff.mp h
      split at h
      · exact not_isNegativeZero_of_lowered? hbase h
      · cases h
    · obtain ⟨n, -, h⟩ := Option.bind_eq_some_iff.mp h
      exact not_isNegativeZero_of_raised? hbase h

theorem ofParts?_self (h : ¬a.IsNegativeZero) :
    ofParts? a.negative a.mantissa a.scale = some a := by
  obtain ⟨negative, mantissa, scale, hmantissa, hscale⟩ := a
  rw [ofParts?_of_fits hmantissa hscale]
  cases negative with
  | false => simp
  | true =>
    have hne : mantissa ≠ 0 := by simpa [IsNegativeZero, isZero] using h
    simp [hne]

theorem read?_text (h : ¬a.IsNegativeZero) : read? a.text.toList = some a := by
  have hdigits : ∀ c ∈ a.digits, c ≠ 'e' ∧ c ≠ 'E' := by
    intro c hc
    rcases mem_digits hc with hdigit | rfl
    · exact ne_exponent_of_isDigit hdigit
    · decide
  have hself := (readFrom?_digits a a.negative).trans (ofParts?_self h)
  rw [text, String.toList_ofList]
  cases hsign : a.negative with
  | true =>
    rw [if_pos rfl, read?_eq_readPlain? (List.forall_mem_cons.mpr ⟨by decide, hdigits⟩)]
    rw [hsign] at hself
    exact hself
  | false =>
    rw [if_neg (by decide), read?_digits, abs]
    exact congrArg some (by rw [← hsign])

theorem isBlank_eq_false_of_mem_text {c : Char} (hc : c ∈ a.text.toList) : isBlank c = false := by
  have hmem : c = '-' ∨ c ∈ a.digits := by
    rw [text, String.toList_ofList] at hc
    split at hc
    · exact List.mem_cons.mp hc
    · exact .inr hc
  rcases hmem with rfl | hdigits
  · decide
  rcases mem_digits hdigits with hdigit | rfl
  · exact isBlank_eq_false_of_isDigit hdigit
  · decide

theorem text_ne_nil (a : Decimal) : a.text.toList ≠ [] := by
  obtain ⟨c, rest, hdigits, -⟩ := a.exists_digits_eq_cons
  rw [text, String.toList_ofList]
  split <;> simp [hdigits]

end Decimal

/-! ## Dates -/

namespace Date

variable {d : Date}

/-- The sign before the digits of a year: none in front of years of four digits. -/
def yearSign (year : Int) : List Char :=
  if year < 0 then ['-'] else if 9999 < year then ['+'] else []

/-- What follows the year in the text of a date. -/
def monthAndDay (d : Date) : List Char :=
  '/' :: ((zeroPadded 2 d.month).toList ++ '/' :: (zeroPadded 2 d.day).toList)

theorem toList_text_eq (d : Date) :
    d.text.toList = yearSign d.year ++ ((zeroPadded 4 d.year.natAbs).toList ++ d.monthAndDay) := by
  have hyear : (yearText d.year).toList =
      yearSign d.year ++ (zeroPadded 4 d.year.natAbs).toList := by
    rw [yearText, yearSign]
    split
    · exact String.toList_append
    split
    · exact String.toList_append
    · rw [List.nil_append]
  have hslash : "/".toList = ['/'] := rfl
  simp only [text, textWith, monthAndDay, String.toList_append, hyear, hslash, List.append_assoc,
    List.cons_append, List.nil_append]

theorem yearSign_cases (year : Int) :
    yearSign year = ['-'] ∧ year = -year.natAbs ∨ yearSign year = ['+'] ∧ year = year.natAbs ∨
      yearSign year = [] ∧ year = year.natAbs ∧ year.natAbs ≤ 9999 := by
  rw [yearSign]
  split
  case isTrue hneg => exact .inl ⟨rfl, by omega⟩
  case isFalse hneg =>
    split
    case isTrue hlong => exact .inr (.inl ⟨rfl, by omega⟩)
    case isFalse hlong => exact .inr (.inr ⟨rfl, by omega, by omega⟩)

theorem mem_text_cases {c : Char} (hc : c ∈ d.text.toList) :
    isDigit c = true ∨ c = '/' ∨ c = '-' ∨ c = '+' := by
  rw [toList_text_eq, monthAndDay] at hc
  simp only [List.mem_append, List.mem_cons] at hc
  rcases hc with hsign | hc | rfl | hc | rfl | hc
  · rcases yearSign_cases d.year with ⟨hs, -⟩ | ⟨hs, -⟩ | ⟨hs, -⟩ <;> rw [hs] at hsign <;>
      simp_all
  · exact .inl (isDigit_of_mem_zeroPadded hc)
  · exact .inr (.inl rfl)
  · exact .inl (isDigit_of_mem_zeroPadded hc)
  · exact .inr (.inl rfl)
  · exact .inl (isDigit_of_mem_zeroPadded hc)

theorem isBlank_eq_false_of_mem_text {c : Char} (hc : c ∈ d.text.toList) : isBlank c = false := by
  rcases mem_text_cases hc with hdigit | rfl | rfl | rfl
  · exact isBlank_eq_false_of_isDigit hdigit
  all_goals decide

theorem readFrom?_slash {negative : Bool} {n : Nat} (hn : n < Decimal.mantissaLimit)
    (rest : List Char) :
    Decimal.readFrom? negative false false 0 0 ((zeroPadded 4 n).toList ++ '/' :: rest) = none := by
  have hfits : valueAfter 0 (zeroPadded 4 n).toList < Decimal.mantissaLimit := by
    rw [valueAfter_zeroPadded]
    exact hn
  rw [Decimal.readFrom?_whole (fun c => isDigit_of_mem_zeroPadded) hfits
    (zeroPadded_ne_nil (by decide) n), Decimal.readFrom?, if_neg (by decide), if_neg (by decide)]
  simp

theorem read?_text (d : Date) : Decimal.read? d.text.toList = none := by
  have hexponent : ∀ c ∈ d.text.toList, c ≠ 'e' ∧ c ≠ 'E' := by
    intro c hc
    rcases mem_text_cases hc with hdigit | rfl | rfl | rfl
    · exact Decimal.ne_exponent_of_isDigit hdigit
    all_goals decide
  have hyear : d.year.natAbs < Decimal.mantissaLimit := by
    obtain ⟨⟨hlow, hhigh⟩, -⟩ := d.isDay
    simp only [firstYear, lastYear] at hlow hhigh
    have hlimit : 262143 < Decimal.mantissaLimit := by decide
    omega
  rw [Decimal.read?_eq_readPlain? hexponent, toList_text_eq]
  rcases yearSign_cases d.year with ⟨hsign, -⟩ | ⟨hsign, -⟩ | ⟨hsign, -⟩ <;> rw [hsign]
  · rw [List.singleton_append, Decimal.readPlain?, monthAndDay]
    exact readFrom?_slash hyear _
  · rw [List.singleton_append, Decimal.readPlain?, monthAndDay]
    exact readFrom?_slash hyear _
  · obtain ⟨c, cs, hcs, hc⟩ := @exists_zeroPadded_eq_cons 4 (by decide) d.year.natAbs
    have hplain := @readFrom?_slash false _ hyear
      ((zeroPadded 2 d.month).toList ++ '/' :: (zeroPadded 2 d.day).toList)
    rw [List.nil_append, monthAndDay]
    rw [hcs, List.cons_append] at hplain ⊢
    rw [Decimal.readPlain?]
    · exact hplain
    · rintro rest ⟨rfl, -⟩
      exact absurd hc (by decide)
    · rintro rest ⟨rfl, -⟩
      exact absurd hc (by decide)

end Date

namespace MetaValue

variable {cs ds rest : List Char} {most n : Nat} {d : Date}

theorem takeDigits?_append (hds : ∀ c ∈ ds, isDigit c = true) (hne : ds ≠ [])
    (hlength : ds.length ≤ most) (hrest : ∀ c ∈ rest.head?, isDigit c = false) :
    takeDigits? most (ds ++ rest) = some (digitsValue ds, rest) := by
  have hdigits : ((ds ++ rest).take most).takeWhile isDigit = ds := by
    rw [List.take_append, List.take_of_length_le hlength, List.takeWhile_append_of_pos hds]
    cases hcut : rest.take (most - ds.length) with
    | nil => simp
    | cons c cs =>
      have hhead : rest.head? = some c := by
        have hmem := List.take_prefix (most - ds.length) rest
        rw [hcut] at hmem
        obtain ⟨more, rfl⟩ := hmem
        rfl
      rw [List.takeWhile_cons_of_neg (by simp [hrest c hhead]), List.append_nil]
  rw [takeDigits?, hdigits, if_neg hne, List.drop_left]

theorem takeDigits?_zeroPadded {width : Nat} (hwidth : 0 < width)
    (hlength : (zeroPadded width n).toList.length ≤ most)
    (hrest : ∀ c ∈ rest.head?, isDigit c = false) :
    takeDigits? most ((zeroPadded width n).toList ++ rest) = some (n, rest) := by
  rw [takeDigits?_append (fun c => isDigit_of_mem_zeroPadded) (zeroPadded_ne_nil hwidth n) hlength
    hrest]
  exact congrArg (fun n => some (n, rest)) (valueAfter_zeroPadded width n)

theorem trimStart_zeroPadded {width : Nat} (hwidth : 0 < width) (n : Nat) (rest : List Char) :
    trimStart ((zeroPadded width n).toList ++ rest) = (zeroPadded width n).toList ++ rest := by
  obtain ⟨c, cs, hcs, hc⟩ := exists_zeroPadded_eq_cons hwidth n
  rw [hcs, List.cons_append, trimStart_cons (isBlank_eq_false_of_isDigit hc)]

theorem length_zeroPadded_four (h : n ≤ 9999) : (zeroPadded 4 n).toList.length ≤ 4 := by
  have hrepr : n.repr.toList.length ≤ 4 := by
    rw [String.length_toList]
    exact Nat.repr_length n 4 (by decide) (by omega)
  rw [toList_zeroPadded, List.length_append, List.length_replicate]
  omega

theorem takeYear?_written (year : Int) (hrest : ∀ c ∈ rest.head?, isDigit c = false) :
    takeYear? (Date.yearSign year ++ ((zeroPadded 4 year.natAbs).toList ++ rest)) =
      some (year, rest) := by
  have hany : takeDigits? ((zeroPadded 4 year.natAbs).toList ++ rest).length
      ((zeroPadded 4 year.natAbs).toList ++ rest) = some (year.natAbs, rest) :=
    takeDigits?_zeroPadded (by decide) (by simp) hrest
  rcases Date.yearSign_cases year with ⟨hsign, hyear⟩ | ⟨hsign, hyear⟩ | ⟨hsign, hyear, hshort⟩
  · rw [hsign, List.singleton_append, takeYear?, trimStart_cons (by decide)]
    simp only [hany, Option.map_some]
    rw [← hyear]
  · rw [hsign, List.singleton_append, takeYear?, trimStart_cons (by decide)]
    simp only [hany, Option.map_some]
    rw [← hyear]
  · rw [hsign, List.nil_append, takeYear?, trimStart_zeroPadded (by decide)]
    have hfour := takeDigits?_zeroPadded (show 0 < 4 by decide) (length_zeroPadded_four hshort)
      hrest
    obtain ⟨c, cs, hcs, hc⟩ := @exists_zeroPadded_eq_cons 4 (by decide) year.natAbs
    rw [hcs, List.cons_append] at hfour ⊢
    split
    case h_1 heq =>
      obtain ⟨rfl, -⟩ := List.cons.inj heq
      exact absurd hc (by decide)
    case h_2 heq =>
      obtain ⟨rfl, -⟩ := List.cons.inj heq
      exact absurd hc (by decide)
    case h_3 =>
      simp only [hfour, Option.map_some]
      rw [← hyear]

theorem readDate?_text (d : Date) : readDate? '/' d.text.toList = some d := by
  have hslash : ∀ cs : List Char, ∀ c ∈ ('/' :: cs).head?, isDigit c = false := by
    rintro cs c ⟨rfl⟩
    decide
  have hdrop : ∀ cs : List Char, dropStart? ['/'] ('/' :: cs) = some cs := fun _ => rfl
  have hmonth : ∀ cs, takeDigits? 2 ((zeroPadded 2 d.month).toList ++ '/' :: cs) =
      some (d.month, '/' :: cs) := fun cs =>
    takeDigits?_zeroPadded (by decide)
      (DateSpec.length_zeroPadded_le (DateSpec.month_lt d) (Nat.le_refl 2)) (hslash cs)
  have hday : takeDigits? 2 ((zeroPadded 2 d.day).toList ++ []) = some (d.day, []) :=
    takeDigits?_zeroPadded (by decide)
      (DateSpec.length_zeroPadded_le (DateSpec.day_lt d) (Nat.le_refl 2)) nofun
  have hstart := @trimStart_zeroPadded 2 (by decide)
  have htrim := hstart d.day []
  rw [List.append_nil] at hday htrim
  rw [Date.toList_text_eq, Date.monthAndDay, readDate?, takeYear?_written d.year (hslash _)]
  simp only [Option.bind_eq_bind, Option.bind_some, hdrop, hstart, hmonth, htrim, hday, if_true]
  exact Date.ofYmd?_eq_some_iff.mpr ⟨rfl, rfl, rfl⟩

/-! ## Values -/

theorem infer_cases (raw : String) :
    (∃ n, Decimal.read? (trim raw.toList) = some n ∧ infer raw = number n) ∨
      (∃ d, infer raw = date d) ∨
      infer raw = text (String.ofList (trim raw.toList)) := by
  rw [infer]
  cases hnumber : Decimal.read? (trim raw.toList) with
  | some n => exact .inl ⟨n, rfl, rfl⟩
  | none =>
    dsimp only
    split
    case h_1 d _ => exact .inr (.inl ⟨d, rfl⟩)
    case h_2 => exact .inr (.inr rfl)

theorem infer_trim (raw : String) : infer (String.ofList (trim raw.toList)) = infer raw := by
  rw [infer, infer, String.toList_ofList, trim_trim]

theorem infer_text_of_number {n : Decimal} (h : ¬n.IsNegativeZero) : infer n.text = number n := by
  have htrim := trim_eq n.text_ne_nil fun c => Decimal.isBlank_eq_false_of_mem_text
  rw [infer, htrim, Decimal.read?_text h]

theorem infer_text_of_date (d : Date) : infer d.text = date d := by
  have hne : d.text.toList ≠ [] := by
    rw [Date.toList_text_eq, Date.monthAndDay]
    simp
  have htrim := trim_eq hne fun c => Date.isBlank_eq_false_of_mem_text
  rw [infer, htrim, Date.read?_text]
  simp only [List.findSome?_cons, readDate?_text]

/-- What is inferred from a text is inferred again from what is shown of it: the kind, and of a
number the decimals too. -/
theorem infer_shown (raw : String) : infer (infer raw).shown = infer raw := by
  rcases infer_cases raw with ⟨n, hread, hn⟩ | ⟨d, hd⟩ | htext
  · rw [hn]
    exact infer_text_of_number (Decimal.not_isNegativeZero_of_read? hread)
  · rw [hd]
    exact infer_text_of_date d
  · have hshown : (infer raw).shown = String.ofList (trim raw.toList) := by rw [htext, shown]
    rw [hshown]
    exact infer_trim raw

end MetaValue

end Daybook
