import Daybook.Proofs.Commodity.Sign
import Daybook.Proofs.Store.Offset
import Daybook.Proofs.Store.Refusals
import Daybook.Proofs.Store.Writing

/-!
# Where negative zeros come from

Completing a transaction inverts sums, and the opposite of a zero would be a negative one. But only
sums are inverted that are off, and these are not zero (`isZero_of_mem_imbalance`), while the zero
of the default commodity has no sign. So what a first pass stores is a negative zero only if it has
been written as one (`written_of_isNegativeZero`).
-/

namespace Daybook

open Commodity (tolerance)
open Posting (costs)

theorem Commodity.abs_value_le_tolerance {c : Commodity} (h : c.isZero = true) :
    |c.value| ≤ tolerance.value := by
  rw [value, (Decimal.value_eq_zero_iff c.amount).mpr h, abs_zero]
  exact zero_le_tolerance

def Transaction.HasNegativeZero (n : String) (t : Transaction) : Prop :=
  ∃ x ∈ t.postings, ∃ c, x.amount = some c ∧ c.name = n ∧ c.IsNegativeZero

namespace Transaction

variable {t u : Transaction}

theorem isZero_of_mem_imbalance {sums : List Commodity} (h : t.imbalance = .ok sums)
    {sum : Commodity} (hsum : sum ∈ sums) : sum.isZero = false := by
  obtain ⟨cs, -, hcs, -⟩ := imbalance_eq_ok_iff.mp h
  obtain ⟨-, hoff⟩ := (mem_imbalance_iff hcs h sum).mp hsum
  by_contra hzero
  rw [Bool.not_eq_false] at hzero
  rw [(Commodity.isBalanced_iff sum).mpr (Commodity.abs_value_le_tolerance hzero)] at hoff
  cases hoff

theorem isZero_of_lone {x : Posting} {cost : Commodity} (hone : t.postings = [x])
    (hcost : x.cost? = .ok (some cost)) (hoff : t.isBalanced = .ok false) :
    cost.isZero = false := by
  by_contra hzero
  rw [Bool.not_eq_false] at hzero
  have hcosts : costs t.postings = .ok [cost] := by
    rw [hone]
    exact Posting.costs_cons_eq_ok_iff.mpr ⟨some cost, [], hcost, rfl, rfl⟩
  have hbalanced : t.isBalanced = .ok true := by
    refine isBalanced_iff_imbalance.mpr ⟨fun y hy => ?_, ?_⟩
    · rw [hone, List.mem_singleton] at hy
      exact hy ▸ Posting.isTally_of_cost? hcost
    · rw [imbalance_of_one_cost hcosts, if_pos (Commodity.abs_value_le_tolerance hzero)]
  rw [hbalanced] at hoff
  cases hoff

theorem not_isNegativeZero_of_offset {unit : Commodity} {sums : List Commodity}
    (h : t.imbalance = .ok sums) : ¬(unit.offset sums).IsNegativeZero := by
  cases sums with
  | nil => exact fun hzero => absurd hzero.1 Bool.false_ne_true
  | cons sum sums =>
    exact Commodity.not_isNegativeZero_invert (isZero_of_mem_imbalance h List.mem_cons_self)

theorem hasNegativeZero_of_completes {bucket : Option String} {unit : Commodity}
    {places : List Nat} {n : String} (h : t.Completes bucket unit u places)
    (hoff : t.isBalanced = .ok false) (hu : u.HasNegativeZero n) : t.HasNegativeZero n := by
  obtain ⟨x, hx, c, hamount, hname, hzero⟩ := hu
  cases h with
  | @lone y account cost hone _ hcost =>
    simp only [List.mem_cons, List.not_mem_nil, or_false] at hx
    rcases hx with rfl | rfl
    · exact ⟨x, by simp [hone], c, hamount, hname, hzero⟩
    · obtain rfl := Option.some.inj hamount
      exact absurd hzero
        (Commodity.not_isNegativeZero_invert (isZero_of_lone hone hcost hoff))
  | @tally before after y sums hparts _ _ _ hsums =>
    have hmem : ∀ z, z ∈ before ∨ z ∈ after → z ∈ t.postings := by
      rw [hparts]
      simp only [List.mem_append, List.mem_cons]
      tauto
    simp only [Posting.furtherOffsets, List.append_assoc, List.cons_append, List.mem_append,
      List.mem_cons, List.mem_map] at hx
    rcases hx with hx | rfl | hx | ⟨sum, hsum, rfl⟩
    · exact ⟨x, hmem x (.inl hx), c, hamount, hname, hzero⟩
    · obtain rfl := Option.some.inj hamount
      exact absurd hzero (not_isNegativeZero_of_offset hsums)
    · exact ⟨x, hmem x (.inr hx), c, hamount, hname, hzero⟩
    · obtain rfl := Option.some.inj hamount
      exact absurd hzero (Commodity.not_isNegativeZero_invert
        (isZero_of_mem_imbalance hsums (List.mem_of_mem_tail hsum)))
  | whole => exact ⟨x, hx, c, hamount, hname, hzero⟩

end Transaction

theorem Store.hasNegativeZero_of_kept? {s : Store} {t t' : Transaction} {n : String}
    (h : s.kept? t = .ok t') (ht' : t'.HasNegativeZero n) : t.HasNegativeZero n := by
  obtain ⟨u, hpostings, hu⟩ := completed_of_kept? h
  have hcompleted : u.HasNegativeZero n := by
    obtain ⟨y, hy, c, hamount, hname, hzero⟩ := ht'
    obtain ⟨name, x, hx, rfl⟩ := exists_of_mem_kept hpostings hy
    obtain ⟨d, hd, rfl⟩ := Option.map_eq_some_iff.mp hamount
    rw [name_declaredForm] at hname
    rw [Commodity.IsNegativeZero, amount_declaredForm] at hzero
    exact ⟨x, hx, d, hd, hname, hzero⟩
  rcases hu with ⟨-, rfl⟩ | ⟨-, hoff, places, hcompletes⟩
  · exact hcompleted
  · exact Transaction.hasNegativeZero_of_completes hcompletes hoff hcompleted

namespace Filling

variable {σ : Type} {r : Reporter σ} {ds : List (Spanned Directive)} {options : Options} {state : σ}
  {p : Progress σ}

/-- A negative zero that is covered has been written in the journal. -/
theorem written_of_isNegativeZero
    (hfirst : runOn (firstPass r ds) (.empty options) state = (.ok (), p)) :
    ∀ e ∈ p.store.covered, e.2.IsNegativeZero →
      ∃ t span, ⟨.transaction t, span⟩ ∈ ds ∧ t.HasNegativeZero e.2.name := by
  intro e he hzero
  obtain ⟨t', ht', hentry⟩ := List.mem_flatMap.mp he
  obtain ⟨y, hy, hbrought⟩ := List.mem_filterMap.mp hentry
  have hstored : t'.HasNegativeZero e.2.name :=
    ⟨y, hy, e.2, (Posting.brought?_eq_some_iff.mp hbrought).2, rfl, hzero⟩
  obtain ⟨-, m, hall, -, rfl⟩ := leads_firstPass.mp hfirst
  have hholds : m.store.Holds t' := (List.mem_filter.mp ht').1
  obtain ⟨s, t, before, span, after, -, rfl, -, -, hkept⟩ :=
    (hall.holds_iff.mp hholds).resolve_left List.not_mem_nil
  exact ⟨t, span, by simp, Store.hasNegativeZero_of_kept? hkept hstored⟩

end Filling

end Daybook
