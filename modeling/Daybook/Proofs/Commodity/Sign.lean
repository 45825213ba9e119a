import Daybook.Proofs.Commodity.ByName
import Daybook.Proofs.Decimal.HalfEven
import Daybook.Proofs.Decimal.Written

/-!
# The minus sign of an amount

An amount is written with a minus sign in front if it is rounded to something below zero, or if it
is a negative zero (`beginsWithMinus_text_iff`). A total is a negative zero exactly if the last of
its amounts is one and the others come to nothing (`isNegativeZero_of_total?`).
-/

namespace Daybook

def BeginsWithMinus (text : String) : Prop := text.toList.head? = some '-'

instance (text : String) : Decidable (BeginsWithMinus text) :=
  inferInstanceAs (Decidable (text.toList.head? = some '-'))

theorem beginsWithMinus_append_iff (s t : String) :
    BeginsWithMinus (s ++ t) ↔ BeginsWithMinus s ∨ s = "" ∧ BeginsWithMinus t := by
  rw [BeginsWithMinus, BeginsWithMinus, BeginsWithMinus, String.toList_append,
    ← String.toList_eq_nil_iff]
  cases s.toList <;> simp

theorem Decimal.head?_digits_ne_minus (a : Decimal) : a.digits.head? ≠ some '-' := by
  obtain ⟨c, rest, hdigits, hc⟩ := a.exists_digits_eq_cons
  rw [hdigits]
  rintro hminus
  obtain rfl := Option.some.inj hminus
  exact absurd hc (by decide)

theorem Decimal.beginsWithMinus_textWithPlaces_iff (a : Decimal) (places : Nat) :
    BeginsWithMinus (a.textWithPlaces places) ↔ (a.round places).negative = true := by
  obtain ⟨c, rest, hdigits, -⟩ := (a.round places).exists_digits_eq_cons
  have hhead := (a.round places).head?_digits_ne_minus
  rw [hdigits] at hhead
  rw [BeginsWithMinus, textWithPlaces, text]
  cases (a.round places).negative with
  | true => simp
  | false => simpa [hdigits] using hhead

theorem Decimal.textWithPlaces_ne_empty (a : Decimal) (places : Nat) :
    a.textWithPlaces places ≠ "" := by
  obtain ⟨c, rest, hdigits, -⟩ := (a.round places).exists_digits_eq_cons
  rw [ne_eq, ← String.toList_eq_nil_iff, textWithPlaces, text, hdigits]
  split <;> simp

namespace Commodity

def IsNegativeZero (c : Commodity) : Prop := c.amount.IsNegativeZero

instance (c : Commodity) : Decidable c.IsNegativeZero :=
  inferInstanceAs (Decidable c.amount.IsNegativeZero)

/-- Whether the unit is written in front and begins with a minus sign of its own. -/
def LeadsWithMinus (c : Commodity) : Prop := c.currency = true ∧ BeginsWithMinus c.name

instance (c : Commodity) : Decidable c.LeadsWithMinus :=
  inferInstanceAs (Decidable (c.currency = true ∧ BeginsWithMinus c.name))

variable {c d : Commodity} {cs : List Commodity} {n : Int}

theorem beginsWithMinus_text_iff (h : c.amount.RoundsTo c.precision n) :
    BeginsWithMinus c.text ↔ n < 0 ∨ c.IsNegativeZero ∨ c.LeadsWithMinus := by
  rw [← or_assoc, IsNegativeZero, ← Decimal.negative_round_iff h,
    ← Decimal.beginsWithMinus_textWithPlaces_iff, LeadsWithMinus, text]
  by_cases hcurrency : c.currency = true
  · simp only [hcurrency, if_true, true_and]
    split
    case h_1 digits hnumber =>
      exact iff_of_true (by simp [BeginsWithMinus]) (.inl (by simp [BeginsWithMinus, hnumber]))
    case h_2 hnumber =>
      have hnot : ¬BeginsWithMinus (c.amount.textWithPlaces c.precision) := fun hminus =>
        hnumber _ (List.eq_cons_of_mem_head? hminus)
      rw [beginsWithMinus_append_iff]
      tauto
  · have hnonempty := c.amount.textWithPlaces_ne_empty c.precision
    simp only [hcurrency, Bool.false_eq_true, if_false, false_and, or_false]
    split
    · rfl
    · rw [beginsWithMinus_append_iff, beginsWithMinus_append_iff]
      simp [hnonempty]

theorem isNegativeZero_invert_iff (c : Commodity) :
    c.invert.IsNegativeZero ↔ c.isZero = true ∧ ¬c.IsNegativeZero := by
  have hinvert : c.invert.IsNegativeZero ↔ (!c.amount.negative) = true ∧ c.amount.isZero = true :=
    Iff.rfl
  rw [hinvert, IsNegativeZero, Decimal.IsNegativeZero, isZero]
  cases c.amount.negative <;> simp

theorem not_isNegativeZero (h : c.isZero = false) : ¬c.IsNegativeZero := fun hzero =>
  absurd (h.symm.trans hzero.2) Bool.false_ne_true

theorem not_isNegativeZero_invert (h : c.isZero = false) : ¬c.invert.IsNegativeZero :=
  not_isNegativeZero h

/-! ## Totals -/

/-- Whether the amounts come to nothing, which no amounts do, too. -/
def ComesToZero (cs : List Commodity) : Prop :=
  ∃ sum, total? cs = .ok sum ∧ ∀ c ∈ sum, c.isZero = true

/-- Whether the last amount is a negative zero, and those before it come to nothing. -/
def EndsInNegativeZero (cs : List Commodity) : Prop :=
  ∃ before last, cs = before ++ [last] ∧ last.IsNegativeZero ∧ ComesToZero before

theorem EndsInNegativeZero.exists_mem (h : EndsInNegativeZero cs) :
    ∃ c ∈ cs, c.IsNegativeZero := by
  obtain ⟨before, last, rfl, hlast, -⟩ := h
  exact ⟨last, by simp, hlast⟩

theorem comesToZero_iff (h : total? cs = .ok (some c)) : ComesToZero cs ↔ c.isZero = true := by
  constructor
  · rintro ⟨sum, hsum, hzero⟩
    exact hzero c (Except.ok.inj (h.symm.trans hsum)).symm
  · intro hzero
    refine ⟨some c, h, fun d hd => ?_⟩
    obtain rfl := Option.some.inj hd
    exact hzero

theorem isNegativeZero_of_addTo {sum : Option Commodity} (h : addTo sum d = .ok (some c)) :
    c.IsNegativeZero ↔ (∀ x ∈ sum, x.isZero = true) ∧ d.IsNegativeZero := by
  cases sum with
  | none =>
    obtain rfl := Option.some.inj (Except.ok.inj h)
    simp
  | some x =>
    obtain ⟨e, hadd, he⟩ := Result.map_eq_ok_iff.mp h
    obtain rfl := Option.some.inj he
    obtain ⟨-, n, hn, rfl⟩ := add_eq_ok_iff.mp hadd
    refine (Decimal.isNegativeZero_of_add? hn).trans (and_congr_left' ?_)
    simp [isZero]

theorem isNegativeZero_of_total? (h : total? cs = .ok (some c)) :
    c.IsNegativeZero ↔ EndsInNegativeZero cs := by
  rcases List.eq_nil_or_concat cs with rfl | ⟨before, last, rfl⟩
  · cases Except.ok.inj h
  · rw [List.concat_eq_append] at h ⊢
    rw [total?, List.foldlM_append, Result.bind_eq_ok_iff] at h
    obtain ⟨sum, hsum, hlast⟩ := h
    rw [List.foldlM_cons, Result.bind_eq_ok_iff] at hlast
    obtain ⟨_, hlast, hend⟩ := hlast
    obtain rfl := Except.ok.inj hend
    rw [isNegativeZero_of_addTo hlast]
    constructor
    · rintro ⟨hzero, hnegative⟩
      exact ⟨before, last, rfl, hnegative, sum, hsum, hzero⟩
    · rintro ⟨before', last', happend, hnegative, sum', hsum', hzero⟩
      obtain ⟨rfl, hone⟩ := List.append_inj' happend rfl
      obtain ⟨rfl, -⟩ := List.cons.inj hone
      obtain rfl := Except.ok.inj (hsum.symm.trans hsum')
      exact ⟨hzero, hnegative⟩

end Commodity

end Daybook
