import Daybook.Proofs.Decimal.Exact
import Daybook.Proofs.Decimal.Written

/-!
# Numbers of so many decimals

A number may be stored with fewer or more decimals than it is shown with. If it is a number of that
many decimals (`Fits`), nothing is lost: it is written as the number that is stored with them
(`exists_textWithPlaces_eq`).
-/

namespace Daybook

open Daybook.Text

/-! ## Zeros behind the digits -/

namespace Text

variable {width n : Nat}

theorem repr_mul_ten (hn : 0 < n) : (10 * n).repr.toList = n.repr.toList ++ ['0'] := by
  rw [Nat.toList_repr, Nat.toList_repr, Nat.toDigits_eq_if (by omega), if_neg (by omega)]
  simp

theorem zeroPadded_mul_ten (hwidth : 0 < width) (n : Nat) :
    (zeroPadded (width + 1) (10 * n)).toList = (zeroPadded width n).toList ++ ['0'] := by
  rcases Nat.eq_zero_or_pos n with rfl | hn
  · have hzero : (Nat.repr 0).toList = ['0'] := rfl
    have hzeros : List.replicate (width - 1) '0' ++ ['0'] = List.replicate width '0' := by
      rw [← List.replicate_succ', Nat.sub_add_cancel hwidth]
    rw [toList_zeroPadded, toList_zeroPadded, Nat.mul_zero, hzero, List.length_singleton,
      Nat.add_sub_cancel, hzeros]
  · rw [toList_zeroPadded, toList_zeroPadded, repr_mul_ten hn, List.length_append,
      List.length_singleton, Nat.add_sub_add_right, List.append_assoc]

theorem zeroPadded_mul_powerOfTen (hwidth : 0 < width) (n k : Nat) :
    (zeroPadded (width + k) (n * Decimal.powerOfTen k)).toList =
      (zeroPadded width n).toList ++ List.replicate k '0' := by
  induction k with
  | zero => simp
  | succ k ih =>
    rw [Decimal.powerOfTen_succ, Nat.mul_left_comm, ← Nat.add_assoc,
      zeroPadded_mul_ten (Nat.add_pos_left hwidth k), ih, List.append_assoc,
      List.replicate_succ']

end Text

namespace Decimal

variable {a b : Decimal} {places : Nat}

/-- The number is stored as another, with zeros behind its digits. -/
structure Extends (a b : Decimal) : Prop where
  negative : b.negative = a.negative
  scale_le : a.scale ≤ b.scale
  mantissa : b.mantissa = a.mantissa * powerOfTen (b.scale - a.scale)

theorem Extends.padded (h : Extends a b) :
    b.padded = a.padded ++ List.replicate (b.scale - a.scale) '0' := by
  have hscale : b.scale + 1 = a.scale + 1 + (b.scale - a.scale) := by
    have := h.scale_le
    omega
  rw [Decimal.padded, h.mantissa, hscale]
  exact zeroPadded_mul_powerOfTen (Nat.succ_pos _) _ _

theorem Extends.length_padded (h : Extends a b) :
    b.padded.length - b.scale = a.padded.length - a.scale := by
  have hle := h.scale_le
  rw [h.padded, List.length_append, List.length_replicate]
  omega

theorem Extends.wholePart (h : Extends a b) : b.wholePart = a.wholePart := by
  rw [Decimal.wholePart, h.length_padded, h.padded, List.take_append_of_le_length (by omega)]
  rfl

theorem Extends.decimalPart (h : Extends a b) :
    b.decimalPart = a.decimalPart ++ List.replicate (b.scale - a.scale) '0' := by
  rw [Decimal.decimalPart, h.length_padded, h.padded, List.drop_append_of_le_length (by omega)]
  rfl

theorem Extends.digits (h : Extends a b) :
    a.digits ++ ((if a.scale = 0 && b.scale ≠ 0 then ['.'] else []) ++
      List.replicate (b.scale - a.scale) '0') = b.digits := by
  have hle := h.scale_le
  rw [digits_eq, digits_eq, h.wholePart, h.decimalPart]
  by_cases hb : b.scale = 0
  · have ha : a.scale = 0 := by omega
    simp [ha, hb]
  · by_cases ha : a.scale = 0
    · have hnil : a.decimalPart = [] :=
        List.length_eq_zero_iff.mp (by rw [length_decimalPart, ha])
      simp [ha, hb, hnil]
    · simp [ha, hb]

theorem exists_extends (hscale : a.scale ≤ places) (hplaces : places ≤ maxScale)
    (hfits : a.mantissa * powerOfTen (places - a.scale) < mantissaLimit) :
    ∃ b, Extends a b ∧ b.scale = places :=
  ⟨⟨a.negative, _, places, hfits, hplaces⟩, ⟨rfl, hscale, rfl⟩, rfl⟩

theorem Extends.value (h : Extends a b) : b.value = a.value := by
  have hcoefficient : b.coefficient = a.coefficient * powerOfTen (b.scale - a.scale) := by
    rw [coefficient, coefficient, h.negative, h.mantissa]
    split <;> push_cast <;> ring
  rw [value_eq, value_eq, hcoefficient, grid_eq_mul h.scale_le b.scale_le]
  push_cast
  ring

theorem natAbs_value (a : Decimal) : a.value.natAbs = a.mantissa * grid a.scale := by
  rw [value_eq, Int.natAbs_mul, natAbs_coefficient, Int.natAbs_natCast]

theorem extends_round (hplaces : places < a.scale) (h : (grid places : Int) ∣ a.value) :
    Extends (a.round places) a := by
  have hzeros : powerOfTen (a.scale - places) ∣ a.mantissa := by
    refine powerOfTen_dvd a.scale_le ?_ (Nat.le_refl _)
    rw [← natAbs_value]
    exact Int.natCast_dvd.mp h
  have hpos := powerOfTen_pos (a.scale - places)
  have hlt : a.mantissa / powerOfTen (a.scale - places) < mantissaLimit :=
    Nat.lt_of_le_of_lt (Nat.div_le_self ..) a.mantissa_lt
  have hround : a.round places =
      ⟨a.negative && (a.isZero || a.mantissa / powerOfTen (a.scale - places) ≠ 0),
        a.mantissa / powerOfTen (a.scale - places), places, hlt,
        Nat.le_trans (Nat.le_of_lt hplaces) a.scale_le⟩ := by
    simp only [round, dif_pos hplaces, roundQuotient_of_dvd hpos hzeros, dif_pos hlt]
  have hmantissa : a.mantissa =
      a.mantissa / powerOfTen (a.scale - places) * powerOfTen (a.scale - places) :=
    (Nat.div_mul_cancel hzeros).symm
  rw [hround]
  refine ⟨?_, Nat.le_of_lt hplaces, hmantissa⟩
  by_cases hquotient : a.mantissa / powerOfTen (a.scale - places) = 0
  · rw [hquotient, Nat.zero_mul] at hmantissa
    simp [isZero, hmantissa]
  · simp [hquotient]

theorem value_round (h : (grid places : Int) ∣ a.value) : (a.round places).value = a.value := by
  by_cases hplaces : places < a.scale
  · exact (extends_round hplaces h).value.symm
  · rw [round, dif_neg hplaces]

theorem exists_textWithPlaces_eq (hplaces : places ≤ maxScale) (h : Fits places a.value) :
    ∃ b : Decimal, b.scale = places ∧ b.value = a.value ∧ a.textWithPlaces places = b.text := by
  have hscale := a.scale_round_le places
  have hvalue := value_round h.1
  have hfits : (a.round places).mantissa * powerOfTen (places - (a.round places).scale) <
      mantissaLimit := by
    have hlt := h.2
    rw [← hvalue, natAbs_value, grid_eq_mul hscale hplaces, ← Nat.mul_assoc] at hlt
    exact Nat.lt_of_mul_lt_mul_right hlt
  obtain ⟨b, hextends, hb⟩ := exists_extends hscale hplaces hfits
  refine ⟨b, hb, hextends.value.trans hvalue, ?_⟩
  have hdigits := hextends.digits
  rw [hb] at hdigits
  rw [textWithPlaces, text, text, ← hdigits, hextends.negative, ← String.toList_inj]
  split <;> simp

end Decimal

end Daybook
