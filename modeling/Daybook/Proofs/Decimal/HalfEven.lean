import Daybook.Proofs.Decimal.Exact
import Daybook.Proofs.Decimal.Magnitude

/-!
# Rounding half to even, and the sign of zero

`RoundsTo` says to how many units of `10 ^ -places` a number is rounded half to even. There is one
such number of units (`RoundsTo.eq`), and `round` finds it (`roundsTo_round`). The sign says more
than whether a number is below zero, since a zero can have one too: rounding keeps the sign of a
zero and gives none to what becomes zero (`negative_round_iff`), and a sum is a negative zero only
if its second term is one (`isNegativeZero_of_add?`).
-/

namespace Daybook.Decimal

/-- A zero with a minus sign. -/
def IsNegativeZero (a : Decimal) : Prop := a.negative = true ∧ a.isZero = true

instance (a : Decimal) : Decidable a.IsNegativeZero :=
  inferInstanceAs (Decidable (a.negative = true ∧ a.isZero = true))

/-- Whether the number is rounded half to even to `n` units of `10 ^ -places`: it is closer to them
than half a unit, or half a unit away and `n` is even. -/
def RoundsTo (a : Decimal) (places : Nat) (n : Int) : Prop :=
  2 * |a.coefficient * powerOfTen places - n * powerOfTen a.scale| < powerOfTen a.scale ∨
    2 * |a.coefficient * powerOfTen places - n * powerOfTen a.scale| = powerOfTen a.scale ∧ 2 ∣ n

instance (a : Decimal) (places : Nat) (n : Int) : Decidable (a.RoundsTo places n) :=
  inferInstanceAs (Decidable (_ ∨ _ ∧ _))

variable {a b c : Decimal} {places : Nat} {n m : Int}

/-! ## The nearest number of units -/

theorem le_of_nearest {x d : Int} (hd : 0 < d)
    (hn : 2 * |x - n * d| < d ∨ 2 * |x - n * d| = d ∧ 2 ∣ n)
    (hm : 2 * |x - m * d| < d ∨ 2 * |x - m * d| = d ∧ 2 ∣ m) : m ≤ n := by
  by_contra hlt
  have hstep : (n + 1) * d ≤ m * d := mul_le_mul_of_nonneg_right (by omega) hd.le
  rw [add_mul, one_mul] at hstep
  have hbelow := le_abs_self (x - n * d)
  have habove := neg_le_abs (x - m * d)
  -- Both are half a unit away, on either side, so they are neighbours and cannot both be even.
  have hnext : m * d = (n + 1) * d := by
    rw [add_mul, one_mul]
    omega
  have hsucc : m = n + 1 := mul_right_cancel₀ hd.ne' hnext
  omega

theorem RoundsTo.eq (hn : a.RoundsTo places n) (hm : a.RoundsTo places m) : n = m := by
  have hd : (0 : Int) < powerOfTen a.scale := by
    have := powerOfTen_pos a.scale
    omega
  exact le_antisymm (le_of_nearest hd hm hn) (le_of_nearest hd hn hm)

theorem roundQuotient_nearest (m : Nat) {d : Nat} (hd : 0 < d) :
    2 * |(m : Int) - roundQuotient m d * d| < d ∨
      2 * |(m : Int) - roundQuotient m d * d| = d ∧ 2 ∣ (roundQuotient m d : Int) := by
  have hsplit : (m : Int) = (m / d : Nat) * d + (m % d : Nat) := by
    rw [← Nat.cast_mul, ← Nat.cast_add, Nat.mul_comm, Nat.div_add_mod]
  have hmod := Nat.mod_lt m hd
  simp only [roundQuotient, Bool.or_eq_true, Bool.and_eq_true, decide_eq_true_eq]
  split
  case isTrue hup =>
    have hdist : |(m : Int) - (m / d + 1 : Nat) * d| = d - (m % d : Nat) := by
      have hdiff : (m : Int) - (m / d + 1 : Nat) * d = (m % d : Nat) - d := by
        rw [Nat.cast_succ, add_mul, one_mul]
        omega
      rw [hdiff, abs_of_neg (by omega), neg_sub]
    rw [hdist]
    omega
  case isFalse hdown =>
    have hdist : |(m : Int) - (m / d : Nat) * d| = (m % d : Nat) := by
      have hdiff : (m : Int) - (m / d : Nat) * d = (m % d : Nat) := by omega
      rw [hdiff, Nat.abs_cast]
    rw [hdist]
    omega

theorem roundQuotient_zero (d : Nat) : roundQuotient 0 d = 0 := by
  simp [roundQuotient]

theorem round_of_lt (h : places < a.scale) :
    (a.round places).scale = places ∧
      (a.round places).mantissa = roundQuotient a.mantissa (powerOfTen (a.scale - places)) ∧
      (a.round places).negative = (a.negative && (a.isZero || (a.round places).mantissa ≠ 0)) := by
  have hpos := powerOfTen_pos (a.scale - places)
  have hle : roundQuotient a.mantissa (powerOfTen (a.scale - places)) ≤ a.mantissa :=
    roundQuotient_le hpos (Nat.le_mul_of_pos_right _ hpos)
  rw [round, dif_pos h, dif_pos (Nat.lt_of_le_of_lt hle a.mantissa_lt)]
  exact ⟨rfl, rfl, rfl⟩

theorem round_of_le (h : a.scale ≤ places) : a.round places = a := dif_neg (Nat.not_lt.mpr h)

theorem isNegativeZero_round_iff (a : Decimal) (places : Nat) :
    (a.round places).IsNegativeZero ↔ a.IsNegativeZero := by
  by_cases hlt : places < a.scale
  · obtain ⟨-, hmantissa, hnegative⟩ := round_of_lt hlt
    simp only [IsNegativeZero, hnegative, isZero, Bool.and_eq_true, Bool.or_eq_true,
      decide_eq_true_eq]
    constructor
    · rintro ⟨⟨hneg, hzero | hne⟩, hrounded⟩
      · exact ⟨hneg, hzero⟩
      · exact absurd hrounded hne
    · rintro ⟨hneg, hzero⟩
      rw [hzero, roundQuotient_zero] at hmantissa
      exact ⟨⟨hneg, .inl hzero⟩, hmantissa⟩
  · rw [round_of_le (Nat.not_lt.mp hlt)]

/-- The sign goes along with the mantissa, also where it is lost, since that is zero there. -/
theorem coefficient_round (h : places < a.scale) :
    a.coefficient = a.mantissa ∧ (a.round places).coefficient = (a.round places).mantissa ∨
      a.coefficient = -a.mantissa ∧
        (a.round places).coefficient = -((a.round places).mantissa : Int) := by
  obtain ⟨-, -, hnegative⟩ := round_of_lt h
  cases hneg : a.negative with
  | false =>
    rw [hneg, Bool.false_and] at hnegative
    exact .inl ⟨by simp [coefficient, hneg], by simp [coefficient, hnegative]⟩
  | true =>
    refine .inr ⟨by simp [coefficient, hneg], ?_⟩
    by_cases hzero : (a.round places).mantissa = 0
    · simp [coefficient, hzero]
    · simp [coefficient, hnegative, hneg, hzero]

theorem roundsTo_round (a : Decimal) (places : Nat) :
    a.RoundsTo places ((a.round places).units places) := by
  rw [RoundsTo, units]
  by_cases hlt : places < a.scale
  · obtain ⟨hscale, hmantissa, -⟩ := round_of_lt hlt
    have hnearest := roundQuotient_nearest a.mantissa (powerOfTen_pos (a.scale - places))
    rw [← hmantissa] at hnearest
    have hpos : (0 : Int) < powerOfTen places := by
      have := powerOfTen_pos places
      omega
    have hsplit : (powerOfTen a.scale : Int) =
        powerOfTen places * powerOfTen (a.scale - places) := by
      rw [← Nat.cast_mul, ← powerOfTen_add, Nat.add_sub_cancel' (Nat.le_of_lt hlt)]
    have hoff : ∀ x y : Int, 2 * |x * powerOfTen places - y * powerOfTen a.scale| =
        powerOfTen places * (2 * |x - y * powerOfTen (a.scale - places)|) := by
      intro x y
      have hfactor : x * powerOfTen places - y * powerOfTen a.scale =
          powerOfTen places * (x - y * powerOfTen (a.scale - places)) := by
        rw [hsplit]
        ring
      rw [hfactor, abs_mul, abs_of_pos hpos]
      ring
    rw [hscale, Nat.sub_self, powerOfTen_zero, Nat.cast_one, mul_one, hoff, hsplit,
      mul_lt_mul_iff_right₀ hpos, mul_right_inj' hpos.ne']
    rcases coefficient_round hlt with ⟨hbefore, hafter⟩ | ⟨hbefore, hafter⟩
    · rwa [hbefore, hafter]
    · rwa [hbefore, hafter, neg_mul, ← neg_sub', abs_neg, dvd_neg]
  · have hle := Nat.not_lt.mp hlt
    have hsplit : (powerOfTen places : Int) =
        powerOfTen (places - a.scale) * powerOfTen a.scale := by
      rw [← Nat.cast_mul, ← powerOfTen_add, Nat.sub_add_cancel hle]
    rw [round_of_le hle, hsplit, ← mul_assoc, sub_self, abs_zero, mul_zero]
    left
    have := powerOfTen_pos a.scale
    omega

theorem negative_round_iff (h : a.RoundsTo places n) :
    (a.round places).negative = true ↔ n < 0 ∨ a.IsNegativeZero := by
  have hunit : (0 : Int) < powerOfTen (places - (a.round places).scale) := by
    have := powerOfTen_pos (places - (a.round places).scale)
    omega
  have hbelow : n < 0 ↔ (a.round places).coefficient < 0 := by
    rw [h.eq (roundsTo_round a places), units]
    exact ⟨fun hn => neg_of_mul_neg_left hn hunit.le, fun hc => mul_neg_of_neg_of_pos hc hunit⟩
  rw [hbelow, ← isNegativeZero_round_iff a places, IsNegativeZero, coefficient, isZero]
  cases (a.round places).negative with
  | false => simp
  | true =>
    simp only [if_true, true_and, decide_eq_true_eq, true_iff]
    omega

/-! ## Sums -/

theorem not_isNegativeZero_of_ofParts? {negative : Bool} {mantissa scale : Nat}
    (h : ofParts? negative mantissa scale = some a) : ¬a.IsNegativeZero := by
  rw [ofParts?] at h
  split at h
  · obtain rfl := Option.some.inj h
    simp only [IsNegativeZero, isZero, Bool.and_eq_true, decide_eq_true_eq]
    exact fun hboth => hboth.1.2 hboth.2
  · cases h

theorem not_isNegativeZero_of_settle {negative : Bool} {mantissa dropped scale : Nat}
    (h : settle negative mantissa dropped scale = some a) : ¬a.IsNegativeZero := by
  induction scale generalizing dropped with
  | zero => exact not_isNegativeZero_of_ofParts? h
  | succ scale ih =>
    rw [settle] at h
    split at h
    · rename_i hparts
      obtain rfl := Option.some.inj h
      exact not_isNegativeZero_of_ofParts? hparts
    · exact ih h

theorem isNegativeZero_of_add? (h : a.add? b = some c) :
    c.IsNegativeZero ↔ a.isZero = true ∧ b.IsNegativeZero := by
  rw [add?] at h
  split at h
  case isTrue hzero =>
    obtain rfl := Option.some.inj h
    exact (and_iff_right hzero).symm
  case isFalse ha =>
    refine iff_of_false ?_ fun hboth => ha hboth.1
    split at h
    case isTrue hzero =>
      obtain rfl := Option.some.inj h
      exact fun hc => ha hc.2
    case isFalse hb => exact not_isNegativeZero_of_settle h

end Daybook.Decimal
