import Daybook.Text.Blank
import Daybook.Text.Numeral

/-!
# Numbers written and read

A whole number is written with digits, behind a minus sign if it is below zero. Main statement: a
number of 32 bits is read back from what is written (`readInt32?_toString`).
-/

namespace Daybook.Text

variable {c : Char} {n : Nat} {i : Int} {cs : List Char}

theorem isDigit_iff : isDigit c = true ↔ 48 ≤ c.toNat ∧ c.toNat ≤ 57 := by
  have hzero : '0' ≤ c ↔ 48 ≤ c.toNat := Iff.rfl
  have hnine : c ≤ '9' ↔ c.toNat ≤ 57 := Iff.rfl
  rw [isDigit, Bool.and_eq_true, decide_eq_true_iff, decide_eq_true_iff, hzero, hnine]

theorem isBlank_eq_false_of_isDigit (h : isDigit c = true) : isBlank c = false := by
  have hrange := isDigit_iff.mp h
  rw [Bool.eq_false_iff]
  intro hblank
  obtain ⟨r, hr, hlow, hhigh⟩ := RangeTable.covers_imp_mem hblank
  simp only [blankRanges, List.mem_cons, List.not_mem_nil, or_false] at hr
  rcases hr with rfl | rfl | rfl | rfl | rfl | rfl | rfl | rfl | rfl | rfl <;> omega

/-! ## Digits -/

theorem isDigit_of_mem_repr (h : c ∈ n.repr.toList) : isDigit c = true := by
  rw [Nat.toList_repr] at h
  exact Nat.isDigit_of_mem_toDigits (by decide) (by decide) h

theorem readDigits?_repr (n : Nat) : readDigits? n.repr.toList = some n := by
  have hne : n.repr.toList ≠ [] := by
    rw [Nat.toList_repr]
    exact Nat.toDigits_ne_nil
  have hall : n.repr.toList.all isDigit = true :=
    List.all_eq_true.mpr fun c hc => isDigit_of_mem_repr hc
  have hvalue : digitsValue n.repr.toList = n := by
    rw [Nat.toList_repr]
    exact Nat.ofDigitChars_toDigits (by decide) (by decide)
  rw [readDigits?, if_pos ⟨hne, hall⟩, hvalue]

/-! ## Zeros before the digits -/

/-- The number that digits write behind those of `m`. -/
def valueAfter (m : Nat) (cs : List Char) : Nat := cs.foldl (fun n c => 10 * n + digitValue c) m

theorem valueAfter_append (m : Nat) (cs ds : List Char) :
    valueAfter m (cs ++ ds) = valueAfter (valueAfter m cs) ds := List.foldl_append

theorem le_valueAfter (m : Nat) (cs : List Char) : m ≤ valueAfter m cs := by
  induction cs generalizing m with
  | nil => exact Nat.le_refl m
  | cons c cs ih =>
    have hrest : 10 * m + digitValue c ≤ valueAfter m (c :: cs) := ih _
    omega

theorem toList_zeroPadded (width n : Nat) : (zeroPadded width n).toList =
    List.replicate (width - n.repr.toList.length) '0' ++ n.repr.toList :=
  String.toList_ofList

theorem isDigit_of_mem_zeroPadded {width : Nat} (h : c ∈ (zeroPadded width n).toList) :
    isDigit c = true := by
  rw [toList_zeroPadded] at h
  rcases List.mem_append.mp h with hzero | hdigit
  · obtain rfl := List.eq_of_mem_replicate hzero
    decide
  · exact isDigit_of_mem_repr hdigit

theorem le_length_zeroPadded (width n : Nat) : width ≤ (zeroPadded width n).toList.length := by
  rw [toList_zeroPadded, List.length_append, List.length_replicate]
  omega

theorem valueAfter_zeroPadded (width n : Nat) :
    valueAfter 0 (zeroPadded width n).toList = n := by
  have hzeros : ∀ k, valueAfter 0 (List.replicate k '0') = 0 := by
    intro k
    induction k with
    | zero => rfl
    | succ k ih => exact ih
  have hvalue : valueAfter 0 n.repr.toList = n := by
    rw [Nat.toList_repr]
    exact Nat.ofDigitChars_toDigits (by decide) (by decide)
  rw [toList_zeroPadded, valueAfter_append, hzeros, hvalue]

theorem zeroPadded_ne_nil {width : Nat} (hwidth : 0 < width) (n : Nat) :
    (zeroPadded width n).toList ≠ [] :=
  List.length_pos_iff.mp (Nat.lt_of_lt_of_le hwidth (le_length_zeroPadded width n))

theorem exists_zeroPadded_eq_cons {width : Nat} (hwidth : 0 < width) (n : Nat) :
    ∃ c cs, (zeroPadded width n).toList = c :: cs ∧ isDigit c = true := by
  obtain ⟨c, cs, hcs⟩ := List.exists_cons_of_ne_nil (zeroPadded_ne_nil hwidth n)
  exact ⟨c, cs, hcs, isDigit_of_mem_zeroPadded (hcs ▸ List.mem_cons_self)⟩

theorem digits_of_readDigits? (h : readDigits? cs = some n) :
    cs ≠ [] ∧ ∀ c ∈ cs, isDigit c = true := by
  unfold readDigits? at h
  split at h
  case isTrue hcs => exact ⟨hcs.1, List.all_eq_true.mp hcs.2⟩
  case isFalse => cases h

theorem readDigits?_zeroPadded (width n : Nat) :
    readDigits? (zeroPadded width n).toList = some n := by
  have hne : (zeroPadded width n).toList ≠ [] := by
    rw [toList_zeroPadded]
    exact List.append_ne_nil_of_right_ne_nil _ (digits_of_readDigits? (readDigits?_repr n)).1
  have hall : (zeroPadded width n).toList.all isDigit = true :=
    List.all_eq_true.mpr fun c hc => isDigit_of_mem_zeroPadded hc
  rw [readDigits?, if_pos ⟨hne, hall⟩]
  exact congrArg some (valueAfter_zeroPadded width n)

theorem readNat32?_eq_of_digits (h : readDigits? cs = some n) :
    readNat32? cs = if n < 4294967296 then some n else none := by
  have hhead : ∀ rest, cs ≠ '+' :: rest := by
    rintro rest rfl
    simp [readDigits?, isDigit] at h
  have hread : readNat32? cs = (readDigits? cs).bind fun n =>
      if n < 4294967296 then some n else none := by
    unfold readNat32?
    split
    case h_1 rest => exact absurd rfl (hhead rest)
    case h_2 => rfl
  rw [hread, h, Option.bind_some]

theorem readNat32?_of_digits (h : readDigits? cs = some n) (hn : n < 4294967296) :
    readNat32? cs = some n := by
  rw [readNat32?_eq_of_digits h, if_pos hn]

/-! ## Numbers with a sign -/

theorem checked?_eq_some_iff {j : Int} : checked? i = some j ↔ fitsInt32 i = true ∧ i = j := by
  rw [checked?, Option.ite_none_right_eq_some, Option.some.injEq]

theorem checked?_of_fits (h : fitsInt32 i = true) : checked? i = some i := if_pos h

theorem fitsInt32_of_readInt32? (h : readInt32? cs = some i) :
    fitsInt32 i = true := by
  simp only [readInt32?, Option.bind_eq_bind] at h
  split at h
  all_goals
    obtain ⟨m, -, h⟩ := Option.bind_eq_some_iff.mp h
    obtain ⟨hfits, rfl⟩ := checked?_eq_some_iff.mp h
    exact hfits

theorem readInt32?_of_digits (h : readDigits? cs = some n) : readInt32? cs = checked? n := by
  have hdigits : cs.all isDigit = true := by
    rw [readDigits?] at h
    split at h
    case isTrue hcs => exact hcs.2
    case isFalse => cases h
  -- The first character is a digit, and so it is no sign.
  have hhead : ∀ c rest, cs = c :: rest → isDigit c = true := by
    rintro c rest rfl
    exact List.all_eq_true.mp hdigits c List.mem_cons_self
  have hread : readInt32? cs = ((readDigits? cs).map Int.ofNat).bind checked? := by
    unfold readInt32?
    split
    case h_1 rest => exact absurd (hhead '+' rest rfl) (by decide)
    case h_2 rest => exact absurd (hhead '-' rest rfl) (by decide)
    case h_3 => rfl
  rw [hread, h, Option.map_some, Option.bind_some, Int.ofNat_eq_natCast]

theorem readInt32?_of_minus (h : readDigits? cs = some n) :
    readInt32? ('-' :: cs) = checked? (-Int.ofNat n) := by
  have hread : readInt32? ('-' :: cs) =
      ((readDigits? cs).map (-Int.ofNat ·)).bind checked? := rfl
  rw [hread, h, Option.map_some, Option.bind_some]

theorem readInt32?_toString (h : fitsInt32 i = true) :
    readInt32? (toString i).toList = some i := by
  cases i with
  | ofNat n => exact (readInt32?_of_digits (readDigits?_repr n)).trans (checked?_of_fits h)
  | negSucc n =>
    have hwritten : (toString (Int.negSucc n)).toList = '-' :: (n + 1).repr.toList :=
      String.toList_append
    rw [hwritten]
    exact (readInt32?_of_minus (readDigits?_repr (n + 1))).trans (checked?_of_fits h)

theorem toString_ne_nil (i : Int) : (toString i).toList ≠ [] := by
  cases i with
  | ofNat n =>
    change n.repr.toList ≠ []
    rw [Nat.toList_repr]
    exact Nat.toDigits_ne_nil
  | negSucc n =>
    change ("-" ++ (n + 1).repr).toList ≠ []
    simp

theorem isDigit_or_eq_minus (h : c ∈ (toString i).toList) : isDigit c = true ∨ c = '-' := by
  cases i with
  | ofNat n => exact .inl (isDigit_of_mem_repr h)
  | negSucc n =>
    have hmem : c ∈ ("-" ++ (n + 1).repr).toList := h
    rw [String.toList_append] at hmem
    rcases List.mem_append.mp hmem with hc | hc
    · exact .inr (List.mem_singleton.mp hc)
    · exact .inl (isDigit_of_mem_repr hc)

theorem isBlank_eq_false_of_mem_toString (h : c ∈ (toString i).toList) : isBlank c = false := by
  rcases isDigit_or_eq_minus h with hdigit | rfl
  · exact isBlank_eq_false_of_isDigit hdigit
  · decide

end Daybook.Text
