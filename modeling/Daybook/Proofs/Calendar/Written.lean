import Daybook.Proofs.Calendar.Numeric

/-!
# Dates as they are written

A date of a year of four digits is written as three numbers with slashes between them, and it is
read back from that in any year (`readJournalDate_text`).
-/

namespace Daybook

open Daybook.Text

namespace Date

variable {d : Date}

theorem toList_text (h : d.HasPlainYear) : d.text.toList =
    (zeroPadded 4 d.year.natAbs).toList ++ '/' ::
      ((zeroPadded 2 d.month).toList ++ '/' :: (zeroPadded 2 d.day).toList) := by
  have hyear : yearText d.year = zeroPadded 4 d.year.natAbs := by
    obtain ⟨hlow, hhigh⟩ := h
    simp only [yearText]
    rw [if_neg (by omega), if_neg (by omega)]
  simp [text, textWith, hyear, String.toList_append]

theorem mem_text (h : d.HasPlainYear) {c : Char} (hc : c ∈ d.text.toList) :
    isDigit c = true ∨ c = '/' := by
  rw [toList_text h] at hc
  simp only [List.mem_append, List.mem_cons] at hc
  rcases hc with hc | hc | hc | hc | hc
  · exact .inl (isDigit_of_mem_zeroPadded hc)
  · exact .inr hc
  · exact .inl (isDigit_of_mem_zeroPadded hc)
  · exact .inr hc
  · exact .inl (isDigit_of_mem_zeroPadded hc)

theorem exists_text_eq_cons (h : d.HasPlainYear) :
    ∃ c cs, d.text.toList = c :: cs ∧ isDigit c = true := by
  have hlength := le_length_zeroPadded 4 d.year.natAbs
  have hne : (zeroPadded 4 d.year.natAbs).toList ≠ [] := fun hnil => by simp [hnil] at hlength
  obtain ⟨c, cs, hyear⟩ := List.exists_cons_of_ne_nil hne
  exact ⟨c, _, by rw [toList_text h, hyear, List.cons_append],
    isDigit_of_mem_zeroPadded (hyear ▸ List.mem_cons_self)⟩

theorem text_ne_nil (h : d.HasPlainYear) : d.text.toList ≠ [] := by
  obtain ⟨c, cs, htext, -⟩ := exists_text_eq_cons h
  simp [htext]

end Date

namespace DateSpec

variable {d : Date}

theorem text_eq_tripleText (h : d.HasPlainYear) : d.text =
    tripleText (zeroPadded 4 d.year.toNat).toList (zeroPadded 2 d.month).toList
      (zeroPadded 2 d.day).toList '/' '/' := by
  have hyear : d.year.natAbs = d.year.toNat := by
    have hlow := h.1
    omega
  have htext := Date.toList_text h
  rw [hyear] at htext
  exact String.toList_inj.mp (htext.trans String.toList_ofList.symm)

theorem readJournalDate_text (h : d.HasPlainYear) (year : Int) :
    readJournalDate d.text year = .ok d := by
  have hsmall : d.year.toNat < 2 ^ 31 := by
    have hhigh := h.2
    omega
  obtain ⟨hcompletes, hyear⟩ := yearOf_plain h year
  rw [text_eq_tripleText h]
  exact (reads_tripleText h (readDigits?_zeroPadded 4 _) (readDigits?_zeroPadded 2 _)
    (readDigits?_zeroPadded 2 _) (by decide) (by decide) hsmall hcompletes hyear).2

end DateSpec

end Daybook
