import Daybook.Proofs.Decimal.Written

/-!
# Texts that are numbers

A text that begins with no minus sign is read as a number without a sign (`negative_of_read?`).
Digits, with a point and decimals behind them or without, are a number exactly if they are below
`2 ^ 96` when rounded to a whole number (`isSome_read?_iff`).
-/

namespace Daybook.Decimal

open Daybook.Text

variable {a : Decimal} {c : Char} {negative point seen : Bool} {m scale : Nat}

/-! ## The sign of what is read -/

theorem negative_of_ofParts? (h : ofParts? false m scale = some a) : a.negative = false := by
  rw [ofParts?] at h
  split at h
  · obtain rfl := Option.some.inj h
    rfl
  · cases h

theorem negative_of_roundedBy (h : roundedBy false m scale c = some a) : a.negative = false := by
  simp only [roundedBy] at h
  repeat' split at h
  all_goals first | exact negative_of_ofParts? h | cases h

theorem negative_of_readFrom? {cs : List Char}
    (h : readFrom? false point seen m scale cs = some a) : a.negative = false := by
  induction cs generalizing point seen m scale with
  | nil =>
    rw [readFrom?] at h
    split at h
    · exact negative_of_ofParts? h
    · cases h
  | cons c cs ih =>
    simp only [readFrom?] at h
    repeat' split at h
    all_goals first | exact negative_of_roundedBy h | exact ih h | cases h

theorem negative_of_readPlain? {cs : List Char} (hcs : cs.head? ≠ some '-')
    (h : readPlain? cs = some a) : a.negative = false := by
  unfold readPlain? at h
  split at h
  case h_1 => exact absurd rfl hcs
  case h_2 | h_3 => exact negative_of_readFrom? h

theorem negative_of_lowered? {n : Nat} {b : Decimal} (h : a.lowered? n = some b) :
    b.negative = a.negative := by
  rw [lowered?] at h
  split at h
  · obtain rfl := Option.some.inj h
    rfl
  · cases h

theorem negative_of_raised? {n : Nat} {b : Decimal} (ha : a.negative = false)
    (h : a.raised? n = some b) : b.negative = false := by
  rw [raised?, ha] at h
  split at h
  · obtain rfl := Option.some.inj h
    rfl
  split at h
  · exact negative_of_ofParts? h
  · cases h

theorem negative_of_read? {cs : List Char} (hcs : cs.head? ≠ some '-') (h : read? cs = some a) :
    a.negative = false := by
  unfold read? at h
  split at h
  case h_1 => exact negative_of_readPlain? hcs h
  case h_2 base exponent hcut =>
    obtain ⟨b, hb, h⟩ := Option.bind_eq_some_iff.mp h
    obtain ⟨e, -, rfl⟩ := cut?_eq_some hcut
    have hbase : base.head? ≠ some '-' := by
      intro hhead
      rw [List.head?_append, hhead] at hcs
      exact hcs rfl
    have hsign := negative_of_readPlain? hbase hb
    split at h
    · obtain ⟨n, -, h⟩ := Option.bind_eq_some_iff.mp h
      split at h
      · exact (negative_of_lowered? h).trans hsign
      · cases h
    · obtain ⟨n, -, h⟩ := Option.bind_eq_some_iff.mp h
      exact negative_of_raised? hsign h

/-! ## Digits that are a number -/

theorem isSome_ofParts? (hm : m < mantissaLimit) (hscale : scale ≤ maxScale) :
    (ofParts? negative m scale).isSome = true := by
  rw [ofParts?_of_fits hm hscale]
  rfl

theorem isSome_roundedBy_iff (hc : isDigit c = true) (hm : m < mantissaLimit)
    (hscale : scale ≤ maxScale) : (roundedBy negative m scale c).isSome = true ↔
      ¬(scale = 0 ∧ m + 1 = mantissaLimit ∧ 5 ≤ digitValue c) := by
  rw [roundedBy, if_pos hc]
  by_cases hdigit : digitValue c < 5
  · rw [if_pos hdigit]
    exact iff_of_true (isSome_ofParts? hm hscale) (by omega)
  rw [if_neg hdigit]
  by_cases hnext : m + 1 < mantissaLimit
  · rw [if_pos hnext]
    exact iff_of_true (isSome_ofParts? hnext hscale) (by omega)
  rw [if_neg hnext]
  by_cases hzero : scale = 0
  · rw [if_pos hzero]
    exact iff_of_false (by simp) (by omega)
  · rw [if_neg hzero]
    exact iff_of_true (isSome_ofParts? (by omega) (by omega)) (by omega)

variable {whole decimals : List Char}

theorem isSome_readFrom?_decimals (hdecimals : ∀ c ∈ decimals, isDigit c = true)
    (hm : m < mantissaLimit) (hpos : 0 < scale) (hscale : scale ≤ maxScale) :
    (readFrom? negative true true m scale decimals).isSome = true := by
  induction decimals generalizing m scale with
  | nil => exact isSome_ofParts? hm hscale
  | cons c cs ih =>
    obtain ⟨hc, hcs⟩ := List.forall_mem_cons.mp hdecimals
    have hrounded : (roundedBy negative m scale c).isSome = true :=
      (isSome_roundedBy_iff hc hm hscale).mpr (by omega)
    rw [readFrom?]
    by_cases hfull : scale = maxScale
    · rw [if_pos hfull]
      exact hrounded
    rw [if_neg hfull, if_pos hc]
    by_cases hfits : 10 * m + digitValue c < mantissaLimit
    · simp only [hfits, if_true]
      exact ih hcs hfits (by omega) (by omega)
    · simp only [hfits, if_false, if_true]
      exact hrounded

/-- The value of the first digit, which is zero if there is none. -/
def firstDigit (cs : List Char) : Nat := (cs.head?.map digitValue).getD 0

theorem isSome_readFrom?_point_iff (hdecimals : ∀ c ∈ decimals, isDigit c = true)
    (hm : m < mantissaLimit) : (readFrom? negative true true m 0 decimals).isSome = true ↔
      10 * m + firstDigit decimals + 5 < 10 * mantissaLimit := by
  cases decimals with
  | nil => exact iff_of_true (isSome_ofParts? hm (Nat.zero_le _)) (by simp [firstDigit]; omega)
  | cons c cs =>
    obtain ⟨hc, hcs⟩ := List.forall_mem_cons.mp hdecimals
    have hfirst : firstDigit (c :: cs) = digitValue c := rfl
    have hdigit : digitValue c ≤ 9 := by
      have hrange := isDigit_iff.mp hc
      rw [digitValue]
      simp
      omega
    rw [hfirst, readFrom?, if_neg (by decide), if_pos hc]
    by_cases hfits : 10 * m + digitValue c < mantissaLimit
    · simp only [hfits, if_true]
      exact iff_of_true (isSome_readFrom?_decimals hcs hfits (by decide) (by decide)) (by omega)
    · simp only [hfits, if_false, if_true]
      rw [isSome_roundedBy_iff hc hm (Nat.zero_le _)]
      omega

theorem readFrom?_whole_eq_none (hwhole : ∀ c ∈ whole, isDigit c = true) (hm : m < mantissaLimit)
    (hlarge : mantissaLimit ≤ valueAfter m whole) (rest : List Char) :
    readFrom? negative false seen m 0 (whole ++ rest) = none := by
  induction whole generalizing m seen with
  | nil => exact absurd hm (Nat.not_lt.mpr hlarge)
  | cons c cs ih =>
    obtain ⟨hc, hcs⟩ := List.forall_mem_cons.mp hwhole
    rw [List.cons_append, readFrom?, if_neg (by decide), if_pos hc]
    by_cases hfits : 10 * m + digitValue c < mantissaLimit
    · simp only [hfits, if_true, Bool.false_eq_true, if_false]
      exact ih hcs hfits hlarge
    · simp only [hfits, Bool.false_eq_true, if_false]

/-- Digits and decimals are a number exactly if they are below `2 ^ 96` when rounded to a whole
number. -/
theorem isSome_read?_iff (hwhole : ∀ c ∈ whole, isDigit c = true) (hne : whole ≠ [])
    (hdecimals : ∀ c ∈ decimals, isDigit c = true) :
    (read? (whole ++ (if decimals = [] then [] else '.' :: decimals))).isSome = true ↔
      10 * digitsValue whole + firstDigit decimals + 5 < 10 * mantissaLimit := by
  have hread : ∀ rest, (∀ c ∈ rest, isDigit c = true ∨ c = '.') →
      read? (whole ++ rest) = readFrom? false false false 0 0 (whole ++ rest) := fun rest hrest =>
    read?_eq_readFrom? (List.forall_mem_append.mpr ⟨fun c hc => .inl (hwhole c hc), hrest⟩)
  rw [hread _ (by grind)]
  by_cases hfits : digitsValue whole < mantissaLimit
  · have hgo : ∀ rest, readFrom? false false false 0 0 (whole ++ rest) =
        readFrom? false false true (digitsValue whole) 0 rest := readFrom?_whole hwhole hfits hne
    have hpoint : ∀ w, readFrom? false false true w 0 ('.' :: decimals) =
        readFrom? false true true w 0 decimals := fun w => by
      rw [readFrom?, if_neg (by decide), if_neg (by decide)]
      rfl
    rw [hgo]
    by_cases hnil : decimals = []
    · subst hnil
      exact iff_of_true (isSome_ofParts? hfits (Nat.zero_le _)) (by simp [firstDigit]; omega)
    · rw [if_neg hnil, hpoint]
      exact isSome_readFrom?_point_iff hdecimals hfits
  · have hnone : ∀ rest, readFrom? false false false 0 0 (whole ++ rest) = none :=
      readFrom?_whole_eq_none hwhole (by decide) (Nat.not_lt.mp hfits)
    rw [hnone]
    exact iff_of_false (by simp) (by omega)

end Daybook.Decimal
