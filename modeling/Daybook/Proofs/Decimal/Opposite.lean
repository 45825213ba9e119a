import Daybook.Proofs.Decimal.Exact

/-!
# Opposite numbers

Two numbers are opposite if their mantissas differ in the sign only; a zero is opposite to a zero of
either sign. Rounding looks at the size of a number and not at its sign, so the sum of opposite
numbers is opposite to the sum (`opposes_add?`), and a product has the sign changed with one of its
factors (`opposes_mul?`), whether or not they are rounded or overflow.
-/

namespace Daybook.Decimal

/-- The second number is the first one with the opposite sign, to as many decimals. -/
def Opposes (a b : Decimal) : Prop := b.coefficient = -a.coefficient ∧ b.scale = a.scale

variable {a a' b b' : Decimal}

/-! ## One number -/

theorem opposes_neg (a : Decimal) : Opposes a a.neg := ⟨coefficient_neg a, rfl⟩

theorem Opposes.mantissa (h : Opposes a a') : a'.mantissa = a.mantissa := by
  rw [← natAbs_coefficient, ← natAbs_coefficient, h.1, Int.natAbs_neg]

theorem Opposes.units (h : Opposes a a') (s : Nat) : a'.units s = -a.units s := by
  rw [Decimal.units, Decimal.units, h.1, h.2, Int.neg_mul]

theorem Opposes.value (h : Opposes a a') : a'.value = -a.value := h.units maxScale

theorem Opposes.isZero (h : Opposes a a') : a'.isZero = a.isZero := by
  rw [Decimal.isZero, Decimal.isZero, h.mantissa]

theorem Opposes.isSmall (h : Opposes a a') : a'.isSmall = a.isSmall := by
  rw [Decimal.isSmall, Decimal.isSmall, h.mantissa]

theorem Opposes.negative (h : Opposes a a') (hzero : a.isZero = false) :
    a'.negative = !a.negative := by
  have hcoefficient := h.1
  have hmantissa : a.mantissa ≠ 0 := by simpa [Decimal.isZero] using hzero
  rw [coefficient, coefficient, h.mantissa] at hcoefficient
  cases hneg : a.negative <;> cases hneg' : a'.negative <;>
    simp only [hneg, hneg'] at hcoefficient ⊢
  · simp only [Bool.false_eq_true, if_false] at hcoefficient
    omega
  · rfl
  · rfl
  · simp only [if_true] at hcoefficient
    omega

theorem Opposes.signum (h : Opposes a a') : Opposes a.signum a'.signum := by
  rw [Decimal.signum, Decimal.signum, h.isZero]
  cases hzero : a.isZero with
  | true => exact ⟨rfl, rfl⟩
  | false =>
    rw [h.negative hzero]
    cases a.negative <;> exact ⟨rfl, rfl⟩

/-! ## Rounding -/

theorem opposes_ofParts? (negative : Bool) (m s : Nat) :
    Option.Rel Opposes (ofParts? negative m s) (ofParts? (!negative) m s) := by
  rw [ofParts?, ofParts?]
  split
  · refine .some ⟨?_, rfl⟩
    by_cases hm : m = 0
    · simp [coefficient, hm]
    · cases negative <;> simp [coefficient, hm]
  · exact .none

theorem opposes_settle (negative : Bool) (m : Nat) :
    ∀ scale dropped, Option.Rel Opposes (settle negative m dropped scale)
      (settle (!negative) m dropped scale) := by
  intro scale
  induction scale with
  | zero => exact fun dropped => opposes_ofParts? ..
  | succ scale ih =>
    intro dropped
    rw [settle, settle]
    have hparts := opposes_ofParts? negative (roundQuotient m (powerOfTen dropped)) (scale + 1)
    generalize ofParts? negative _ _ = x, ofParts? (!negative) _ _ = y at hparts ⊢
    cases hparts with
    | some hxy => exact .some hxy
    | none => exact ih (dropped + 1)

/-! ## Sums and products -/

theorem opposes_ofUnits? (n : Int) {s : Nat} (hs : s ≤ maxScale) :
    Option.Rel Opposes (ofUnits? n s) (ofUnits? (-n) s) := by
  by_cases hn : n = 0
  · subst hn
    have hfits : (0 : Int).natAbs < mantissaLimit := by decide
    obtain ⟨z, hz, hcoefficient, -⟩ := units_ofUnits? hfits hs
    rw [Int.neg_zero, hz]
    exact .some ⟨by rw [hcoefficient]; rfl, rfl⟩
  · have hsign : decide (-n < 0) = !decide (n < 0) := by
      by_cases hneg : n < 0
      · simp only [hneg, decide_true, Bool.not_true, decide_eq_false_iff_not]
        omega
      · simp only [hneg, decide_false, Bool.not_false, decide_eq_true_eq]
        omega
    rw [ofUnits?, ofUnits?, Int.natAbs_neg, hsign]
    exact opposes_settle ..

theorem opposes_add? (ha : Opposes a a') (hb : Opposes b b') :
    Option.Rel Opposes (a.add? b) (a'.add? b') := by
  rw [add?, add?, ha.isZero, hb.isZero]
  split
  · exact .some hb
  split
  · exact .some ha
  · have hs : max a.scale b.scale ≤ maxScale := max_le a.scale_le b.scale_le
    simp only [ha.2, hb.2, ha.units, hb.units, ← Int.neg_add]
    exact opposes_ofUnits? _ hs

theorem opposes_mul? (a : Decimal) (hb : Opposes b b') :
    Option.Rel Opposes (a.mul? b) (a.mul? b') := by
  rw [mul?, mul?, hb.isZero, hb.isSmall, hb.2, hb.mantissa]
  split
  · exact .some ⟨rfl, rfl⟩
  split
  · exact .some ⟨rfl, rfl⟩
  case isFalse hzero _ =>
    have hbzero : b.isZero = false := by
      rw [Bool.or_eq_true, not_or, Bool.not_eq_true, Bool.not_eq_true] at hzero
      exact hzero.2
    rw [hb.negative hbzero, Bool.bne_not]
    exact opposes_settle ..

end Daybook.Decimal
