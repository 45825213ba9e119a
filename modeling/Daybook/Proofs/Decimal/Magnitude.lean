import Daybook.Decimal.Arith
import Mathlib.Tactic.Ring

/-!
# Sizes of sums and products

`wholes` is the size of a number, rounded up to a whole one. Rounding to fewer decimals never leads
past a whole number, so a sum is no larger than the sizes of its terms together, and a product no
larger than their product; and while that is below the limit of the mantissa nothing overflows
(`exists_add?`, `exists_mul?`).
-/

namespace Daybook.Decimal

/-- The least whole number that the number does not exceed in size. -/
def wholes (a : Decimal) : Nat := (a.mantissa + (powerOfTen a.scale - 1)) / powerOfTen a.scale

theorem wholes_le_iff {a : Decimal} {k : Nat} :
    a.wholes ≤ k ↔ a.mantissa ≤ k * powerOfTen a.scale := by
  have hpos := powerOfTen_pos a.scale
  have hdiv := Nat.div_lt_iff_lt_mul hpos (x := a.mantissa + (powerOfTen a.scale - 1)) (y := k + 1)
  rw [Nat.add_mul, Nat.one_mul] at hdiv
  rw [wholes]
  omega

theorem mantissa_le_wholes_mul (a : Decimal) : a.mantissa ≤ a.wholes * powerOfTen a.scale :=
  wholes_le_iff.mp (Nat.le_refl _)

@[simp] theorem wholes_zero : zero.wholes = 0 := rfl

theorem wholes_signum_le (a : Decimal) : a.signum.wholes ≤ 1 := by
  rw [signum]
  split
  · decide
  · split <;> decide

/-! ## Rounding -/

theorem roundQuotient_le {m k d : Nat} (hd : 0 < d) (h : m ≤ k * d) : roundQuotient m d ≤ k := by
  have hdiv : m / d ≤ k := Nat.div_le_of_le_mul (by rwa [Nat.mul_comm])
  rw [roundQuotient]
  by_cases heq : m / d = k
  · -- The quotient is whole already, so nothing is rounded.
    have hsplit := Nat.div_add_mod m d
    rw [heq, Nat.mul_comm] at hsplit
    have hmod : m % d = 0 := by omega
    simp only [hmod, Nat.mul_zero]
    rw [if_neg]
    · exact hdiv
    · simp only [Nat.not_lt_zero, decide_false, Bool.false_or, Bool.and_eq_true, decide_eq_true_eq]
      omega
  · split <;> omega

theorem wholes_of_ofParts? {negative : Bool} {m s : Nat} {a : Decimal} {k : Nat}
    (h : ofParts? negative m s = some a) (hm : m ≤ k * powerOfTen s) : a.wholes ≤ k := by
  rw [ofParts?] at h
  split at h
  · obtain rfl := Option.some.inj h
    exact wholes_le_iff.mpr hm
  · cases h

theorem exists_settle (negative : Bool) {m k : Nat} (hk : k < mantissaLimit) :
    ∀ scale dropped, m ≤ k * powerOfTen (scale + dropped) →
      ∃ a, settle negative m dropped scale = some a ∧ a.wholes ≤ k := by
  intro scale
  induction scale with
  | zero =>
    intro dropped hm
    rw [Nat.zero_add] at hm
    have hround := roundQuotient_le (powerOfTen_pos dropped) hm
    have hfits : roundQuotient m (powerOfTen dropped) < mantissaLimit := by omega
    have hparts := @ofParts?_of_fits negative _ _ hfits (Nat.zero_le maxScale)
    exact ⟨_, hparts, wholes_of_ofParts? hparts (by rwa [powerOfTen_zero, Nat.mul_one])⟩
  | succ scale ih =>
    intro dropped hm
    have hsplit : powerOfTen (scale + 1 + dropped) =
        powerOfTen (scale + 1) * powerOfTen dropped := Nat.pow_add 10 _ _
    have hround : roundQuotient m (powerOfTen dropped) ≤ k * powerOfTen (scale + 1) := by
      refine roundQuotient_le (powerOfTen_pos dropped) ?_
      rwa [Nat.mul_assoc, ← hsplit]
    rw [settle]
    cases hparts : ofParts? negative (roundQuotient m (powerOfTen dropped)) (scale + 1) with
    | some a => exact ⟨a, rfl, wholes_of_ofParts? hparts hround⟩
    | none =>
      refine ih (dropped + 1) ?_
      rwa [show scale + (dropped + 1) = scale + 1 + dropped by omega]

/-! ## Sums and products -/

theorem natAbs_units_le {a : Decimal} {s : Nat} (hs : a.scale ≤ s) :
    (a.units s).natAbs ≤ a.wholes * powerOfTen s := by
  have hsplit : powerOfTen s = powerOfTen a.scale * powerOfTen (s - a.scale) := by
    rw [powerOfTen, powerOfTen, powerOfTen]
    exact (Nat.pow_add 10 _ _ ▸ congrArg (Nat.pow 10) (by omega))
  rw [units, Int.natAbs_mul, natAbs_coefficient, Int.natAbs_natCast, hsplit, ← Nat.mul_assoc]
  exact Nat.mul_le_mul_right _ (mantissa_le_wholes_mul a)

theorem exists_add? {a b : Decimal} (h : a.wholes + b.wholes < mantissaLimit) :
    ∃ c, a.add? b = some c ∧ c.wholes ≤ a.wholes + b.wholes := by
  by_cases ha : a.isZero = true
  · exact ⟨b, by simp [add?, ha], Nat.le_add_left _ _⟩
  by_cases hb : b.isZero = true
  · exact ⟨a, by simp [add?, ha, hb], Nat.le_add_right _ _⟩
  have hsize : (a.units (max a.scale b.scale) + b.units (max a.scale b.scale)).natAbs ≤
      (a.wholes + b.wholes) * powerOfTen (max a.scale b.scale + 0) := by
    have htriangle := Int.natAbs_add_le (a.units (max a.scale b.scale))
      (b.units (max a.scale b.scale))
    have hleft := natAbs_units_le (a := a) (s := max a.scale b.scale) (by omega)
    have hright := natAbs_units_le (a := b) (s := max a.scale b.scale) (by omega)
    rw [Nat.add_mul, Nat.add_zero]
    omega
  obtain ⟨c, hc, hwholes⟩ := exists_settle _ h (max a.scale b.scale) 0 hsize
  refine ⟨c, ?_, hwholes⟩
  rw [add?, if_neg ha, if_neg hb]
  exact hc

theorem exists_mul? {a b : Decimal} (h : a.wholes * b.wholes < mantissaLimit) :
    ∃ c, a.mul? b = some c ∧ c.wholes ≤ a.wholes * b.wholes := by
  rw [mul?]
  split
  · exact ⟨zero, rfl, Nat.zero_le _⟩
  split
  · exact ⟨zero, rfl, Nat.zero_le _⟩
  · refine exists_settle _ h (a.scale + b.scale) 0 ?_
    have hsplit : powerOfTen (a.scale + b.scale) = powerOfTen a.scale * powerOfTen b.scale :=
      Nat.pow_add 10 _ _
    calc a.mantissa * b.mantissa
        ≤ (a.wholes * powerOfTen a.scale) * (b.wholes * powerOfTen b.scale) :=
          Nat.mul_le_mul (mantissa_le_wholes_mul a) (mantissa_le_wholes_mul b)
      _ = a.wholes * b.wholes * powerOfTen (a.scale + b.scale + 0) := by
          rw [Nat.add_zero, hsplit]
          ring

end Daybook.Decimal
