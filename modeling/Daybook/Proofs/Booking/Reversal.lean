import Daybook.Proofs.Booking.Residual
import Daybook.Proofs.Decimal.Opposite

/-!
# Reversed transactions

A transaction is reversed by changing the sign of every amount, while the prices stay as they are.
Each cost is then opposite to what it was, because a total price takes its sign from the amount and
a price by the unit is multiplied by it; so is each sum on the way, whether or not it is rounded.
Hence the sums of the reversed transaction are opposite to those of the transaction, or both have
none for the same reason (`residual_reverse`).
-/

namespace Daybook

open Result (Rel)

/-- The errors are of one kind. -/
inductive AmountError.Alike : AmountError → AmountError → Prop
  | mismatch {left right left' right' : Commodity} :
    Alike (.mismatch left right) (.mismatch left' right')
  | overflow : Alike .overflow .overflow

namespace Commodity

/-- The second amount is the first one with the opposite number, written alike. -/
def Opposes (c c' : Commodity) : Prop :=
  c' = { c with amount := c'.amount } ∧ c.amount.Opposes c'.amount

variable {a a' b b' c c' : Commodity}

theorem opposes_invert (c : Commodity) : Opposes c c.invert := ⟨rfl, c.amount.opposes_neg⟩

theorem Opposes.name (h : Opposes c c') : c'.name = c.name := by
  rw [h.1]

theorem Opposes.currency (h : Opposes c c') : c'.currency = c.currency := by
  rw [h.1]

theorem Opposes.precision (h : Opposes c c') : c'.precision = c.precision := by
  rw [h.1]

theorem Opposes.isBalanced (h : Opposes c c') : c'.isBalanced = c.isBalanced := by
  rw [Bool.eq_iff_iff, isBalanced_iff, isBalanced_iff, value, h.2.value, abs_neg]
  rfl

theorem opposes_add (ha : Opposes a a') (hb : Opposes b b') :
    Rel Opposes AmountError.Alike (a.add b) (a'.add b') := by
  have hsimilar : a'.isSimilar b' = a.isSimilar b := by
    rw [isSimilar, isSimilar, ha.name, ha.currency, hb.name, hb.currency]
  rw [add, add, hsimilar]
  split
  · have hsum := Decimal.opposes_add? ha.2 hb.2
    generalize a.amount.add? b.amount = x, a'.amount.add? b'.amount = y at hsum ⊢
    cases hsum with
    | some hxy =>
      refine ⟨?_, hxy⟩
      rw [ha.precision, hb.precision, ha.1]
    | none => exact .overflow
  · exact .mismatch

end Commodity

namespace Posting

def reverse (p : Posting) : Posting := { p with amount := p.amount.map Commodity.invert }

theorem isTally_reverse (p : Posting) : p.reverse.isTally = p.isTally := by
  rw [isTally, isTally, reverse, Option.isNone_map]

theorem price?_reverse (p : Posting) : p.reverse.price? = p.price? := rfl

theorem opposes_costAt {c c' : Commodity} (h : c.Opposes c') (price : Commodity) :
    Rel Commodity.Opposes AmountError.Alike (costAt c price) (costAt c' price) := by
  have hproduct : Option.Rel Decimal.Opposes
      (if price.total then price.amount.abs.mul? c.amount.signum else price.amount.mul? c.amount)
      (if price.total then price.amount.abs.mul? c'.amount.signum
        else price.amount.mul? c'.amount) := by
    split
    · exact Decimal.opposes_mul? _ h.2.signum
    · exact Decimal.opposes_mul? _ h.2
  rw [costAt, costAt]
  generalize (if price.total then price.amount.abs.mul? c.amount.signum
    else price.amount.mul? c.amount) = x,
    (if price.total then price.amount.abs.mul? c'.amount.signum
      else price.amount.mul? c'.amount) = y at hproduct ⊢
  cases hproduct with
  | some hxy => exact ⟨rfl, hxy⟩
  | none => exact .overflow

theorem opposes_cost? (p : Posting) :
    Rel (Option.Rel Commodity.Opposes) AmountError.Alike p.cost? p.reverse.cost? := by
  rw [cost?, cost?, price?_reverse, reverse]
  cases p.amount with
  | none => exact .none
  | some c =>
    cases p.price? with
    | none => exact .some (Commodity.opposes_invert c)
    | some price =>
      exact (opposes_costAt (Commodity.opposes_invert c) price).map fun _ _ h => .some h

end Posting

namespace Transaction

/-- The transaction with the opposite amounts, at the same prices. -/
def reverse (t : Transaction) : Transaction :=
  { t with postings := t.postings.map Posting.reverse }

theorem any_isTally_reverse (t : Transaction) :
    t.reverse.postings.any (·.isTally) = t.postings.any (·.isTally) := by
  rw [reverse, List.any_map]
  exact List.any_congr rfl fun p => Posting.isTally_reverse p

theorem opposes_addCost {sums sums' : NameMap Commodity}
    (h : NameMap.Rel Commodity.Opposes sums sums') (p : Posting) :
    Rel (NameMap.Rel Commodity.Opposes) AmountError.Alike (addCost sums p)
      (addCost sums' p.reverse) := by
  rw [addCost, addCost]
  refine p.opposes_cost?.bind fun cost cost' hcost => ?_
  cases hcost with
  | none => exact h
  | @some c c' hc =>
    have hfound := h.find? c.name
    simp only [hc.name]
    generalize sums.find? c.name = x, sums'.find? c.name = y at hfound ⊢
    cases hfound with
    | none => exact h.insert c.name hc
    | some hsum => exact (Commodity.opposes_add hsum hc).bind fun _ _ hx => h.insert c.name hx

/-- The sums of a reversed transaction are opposite to its sums, and where it has none the reversed
transaction has none for the same reason; it is balanced exactly if the reversed one is. -/
theorem residual_reverse (t : Transaction) :
    Rel (List.Forall₂ Commodity.Opposes) AmountError.Alike t.residual t.reverse.residual ∧
      Rel (· = ·) AmountError.Alike t.isBalanced t.reverse.isBalanced := by
  have hresidual : Rel (List.Forall₂ Commodity.Opposes) AmountError.Alike t.residual
      t.reverse.residual := by
    have hsums : Rel (NameMap.Rel Commodity.Opposes) AmountError.Alike
        (t.postings.foldlM addCost .empty)
        ((t.postings.map Posting.reverse).foldlM addCost .empty) :=
      Rel.foldlM (fun _ _ p h => opposes_addCost h p) NameMap.rel_empty
    exact hsums.bind fun _ _ h => h.values
  refine ⟨hresidual, ?_⟩
  rw [isBalanced_eq, isBalanced_eq, any_isTally_reverse]
  split
  · exact rfl
  · refine hresidual.map fun sums sums' h => ?_
    induction h with
    | nil => rfl
    | cons hc _ ih => rw [List.all_cons, List.all_cons, hc.isBalanced, ih]

end Transaction

end Daybook
