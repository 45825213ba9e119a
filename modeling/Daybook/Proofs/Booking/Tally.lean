import Daybook.Proofs.Booking.Imbalance
import Daybook.Proofs.Booking.Residual

/-!
# Filling in a tally posting

The only posting without an amount, if it has no price, is given what the others leave: the opposite
of the first sum that is off, while each other sum is met by a further posting like it. No other
posting changes, nothing at all is left of what was off, and there is nothing to fill in any more
(`balance_offsets`).
-/

namespace Daybook

open Commodity (named ExactRange)
open Posting (costs)

namespace Transaction

/-- The transaction with an amount for the posting `p` at the place, the opposite of the first sum,
and with further postings like it for the other sums, behind the last one. -/
structure FillsIn (t : Transaction) (place : Nat) (p : Posting) (first : Commodity)
    (others : List Commodity) (t' : Transaction) : Prop where
  head : { t' with postings := t.postings } = t
  length : t'.postings.length = t.postings.length + others.length
  filled : t'.postings[place]? = some (p.withAmount first.invert)
  further : ∀ j sum, others[j]? = some sum →
    t'.postings[t.postings.length + j]? = some (p.withAmount sum.invert)
  kept : ∀ j < t.postings.length, j ≠ place → t'.postings[j]? = t.postings[j]?

variable {t : Transaction} {place : Nat} {p : Posting} {cs : List Commodity}

theorem exists_parts_of_tally (hp : t.postings[place]? = some p)
    (htally : ∀ j q, t.postings[j]? = some q → (q.isTally = true ↔ j = place)) :
    ∃ before after, t.postings = before ++ p :: after ∧ before.length = place ∧
      p.isTally = true ∧ ∀ q ∈ before ++ after, q.isTally = false := by
  obtain ⟨hplace, hget⟩ := List.getElem?_eq_some_iff.mp hp
  have hparts : t.postings = t.postings.take place ++ p :: t.postings.drop (place + 1) := by
    rw [← hget, ← List.drop_eq_getElem_cons hplace, List.take_append_drop]
  refine ⟨_, _, hparts, List.length_take_of_le hplace.le, (htally place p hp).mpr rfl, ?_⟩
  intro q hq
  obtain ⟨j, hj, hne⟩ : ∃ j, t.postings[j]? = some q ∧ j ≠ place := by
    rcases List.mem_append.mp hq with hq | hq
    · obtain ⟨j, hj⟩ := List.mem_iff_getElem?.mp hq
      rw [List.getElem?_take] at hj
      split at hj
      case isTrue hlt => exact ⟨j, hj, hlt.ne⟩
      case isFalse => simp at hj
    · obtain ⟨j, hj⟩ := List.mem_iff_getElem?.mp hq
      rw [List.getElem?_drop] at hj
      exact ⟨place + 1 + j, hj, by omega⟩
  exact Bool.eq_false_iff.mpr fun hq => hne ((htally j q hj).mp hq)

theorem fillsIn_of_parts {before after : List Posting} (hparts : t.postings = before ++ p :: after)
    (unit first : Commodity) (others : List Commodity) :
    FillsIn t before.length p first others
      { t with postings :=
          before ++ p.withAmount (.offset unit (first :: others)) :: after ++
            p.furtherOffsets (first :: others) } := by
  have hlt : before.length < t.postings.length := by
    rw [hparts, List.length_append, List.length_cons]
    omega
  have hset : before ++ p.withAmount first.invert :: after =
      t.postings.set before.length (p.withAmount first.invert) := by
    rw [hparts, List.set_append_right _ _ (Nat.le_refl _), Nat.sub_self, List.set_cons_zero]
  simp only [Commodity.offset, Posting.furtherOffsets, List.tail_cons, hset]
  constructor
  case head => rfl
  case length => simp
  case filled =>
    rw [List.getElem?_append_left (by simpa using hlt), List.getElem?_set_self hlt]
  case further =>
    intro j sum hsum
    rw [List.getElem?_append_right (by simp), List.length_set, Nat.add_sub_cancel_left,
      List.getElem?_map, hsum, Option.map_some]
  case kept =>
    intro j hj hne
    rw [List.getElem?_append_left (by simpa using hj), List.getElem?_set_ne hne.symm]

theorem balance_of_isBalanced (hlength : 2 ≤ t.postings.length) (h : t.isBalanced = .ok true)
    (bucket : Option String) (unit : Commodity) : t.balance bucket unit = .ok (t, []) := by
  obtain ⟨htallies, hnone⟩ := isBalanced_iff_imbalance.mp h
  exact balance_of_completes (.whole hlength htallies hnone (by simp))

/-- Offsets of all that is off make the postings balance, and leave nothing of it. -/
theorem settled_of_offsets {before after : List Posting} {c₁ c₂ sums : List Commodity}
    {unit : Commodity}
    (hpostings : t.postings =
      before ++ p.withAmount (.offset unit sums) :: after ++ p.furtherOffsets sums)
    (hrest : ∀ q ∈ before ++ after, q.isTally = false) (hprice : p.price? = none)
    (hbefore : costs before = .ok c₁) (hafter : costs after = .ok c₂)
    (himbalance : Commodity.Imbalance (c₁ ++ c₂) sums)
    (hexact : ∀ n, ExactRange (named n (c₁ ++ c₂))) (hoff : sums ≠ []) :
    t.isBalanced = .ok true ∧ ∃ nets, t.residual = .ok nets ∧
      ∀ sum ∈ sums, ∃ net, named sum.name nets = [net] ∧ net.isZero = true := by
  have hcosts : costs t.postings = .ok (Commodity.withOffsets unit c₁ c₂ sums) := by
    rw [hpostings]
    exact Posting.costs_filled hprice hbefore hafter unit sums
  have hagree := @Commodity.agree_withOffsets unit c₁ c₂ sums himbalance hoff
  have hcancel := @Commodity.offsets_cancel unit c₁ c₂ sums himbalance hexact
  constructor
  · refine isBalanced_eq_true_iff.mpr ⟨?_, _, hcosts, fun n => ?_⟩
    · rw [hpostings]
      exact Posting.isTally_of_offsets hrest _ _
    · exact (Commodity.cancelsOut_iff hagree (hcancel n).1).mpr (hcancel n).2
  · have hexact' := fun n => (hcancel n).1
    obtain ⟨nets, hnets⟩ := (exists_residual_iff hcosts hexact').mpr hagree
    have hsums := sumsByName_of_residual hcosts hexact' hnets
    refine ⟨nets, hnets, fun sum hsum => ?_⟩
    -- What is off comes from a cost, which is still there, so that its name has a sum.
    obtain ⟨c, hc, hname, -⟩ := himbalance.source sum hsum
    have hc' : c ∈ Commodity.withOffsets unit c₁ c₂ sums := by
      rcases List.mem_append.mp hc with hc | hc <;> simp [Commodity.withOffsets, hc]
    obtain ⟨net, hnet, hnetName⟩ :=
      List.mem_map.mp ((hsums.names sum.name).mpr (List.mem_map.mpr ⟨c, hc', hname⟩))
    have hvalue := hsums.value net hnet
    rw [hnetName, (Commodity.offsets_settle himbalance hexact hsum).2] at hvalue
    refine ⟨net, ?_, (Decimal.value_eq_zero_iff net.amount).mp hvalue⟩
    rw [← hnetName]
    exact Commodity.named_of_mem hsums.ascending hnet

/-- In the exact range the only posting without an amount, if it has no price, gets the exact
opposite of the first sum that is off, in the order of the names, and each other sum is met by a
further posting like it. The transaction then balances, nothing is left of what was off, and
balancing it again changes nothing. -/
theorem balance_offsets {first : Commodity} {others : List Commodity}
    (hlength : 2 ≤ t.postings.length) (hp : t.postings[place]? = some p)
    (htally : ∀ j q, t.postings[j]? = some q → (q.isTally = true ↔ j = place))
    (hcostPrice : p.costPrice = none) (hlotPrice : p.lotPrice = none)
    (hsums : t.imbalance = .ok (first :: others)) (hcosts : costs t.postings = .ok cs)
    (hexact : ∀ n, ExactRange (named n cs)) (bucket : Option String) (unit : Commodity) :
    (first :: others).Pairwise (fun a b => a.name < b.name) ∧
    ∃ t', t.balance bucket unit =
        .ok (t', place :: List.range' t.postings.length others.length) ∧
      FillsIn t place p first others t' ∧
      t'.isBalanced = .ok true ∧
      (∃ nets, t'.residual = .ok nets ∧ ∀ sum ∈ first :: others,
        ∃ net, named sum.name nets = [net] ∧ net.isZero = true) ∧
      ∀ bucket' unit', t'.balance bucket' unit' = .ok (t', []) := by
  have himbalance := imbalance_of_costs hcosts hexact hsums
  refine ⟨himbalance.ascending, ?_⟩
  obtain ⟨before, after, hparts, rfl, hp', hrest⟩ := exists_parts_of_tally hp htally
  have hne : before ++ after ≠ [] := by
    intro hnil
    obtain ⟨rfl, rfl⟩ := List.append_eq_nil_iff.mp hnil
    rw [hparts] at hlength
    simp at hlength
  have hprice : p.price? = none := by
    rw [Posting.price?, hcostPrice, hlotPrice, Option.none_or]
  have hcompletes : Completes t bucket unit _ _ := .tally hparts hne hp' hrest hsums
  have hfills := fillsIn_of_parts hparts unit first others
  rw [hparts, Posting.costs_around_tally_iff hp'] at hcosts
  obtain ⟨c₁, c₂, h₁, h₂, rfl⟩ := hcosts
  obtain ⟨hisBalanced, hnets⟩ :=
    settled_of_offsets (t := { t with postings := _ }) rfl hrest hprice h₁ h₂ himbalance hexact
      (List.cons_ne_nil first others)
  refine ⟨_, balance_of_completes hcompletes, hfills, hisBalanced, hnets, ?_⟩
  refine balance_of_isBalanced ?_ hisBalanced
  rw [hfills.length]
  exact Nat.le_add_right_of_le hlength

/-- A posting without an amount, between two of different commodities. -/
theorem balance_offsets_two :
    let usd : Commodity := .plain "USD" .one
    let eur : Commodity := .plain "EUR" .one
    let tally : Posting := .tally "Cash"
    let t : Transaction := { Transaction.ofPayee ⟨2024, 1, 1, by decide⟩ "" with
      postings := [.ofAmount "Bank" usd, tally, .ofAmount "Card" eur] }
    t.imbalance = .ok [eur, usd] ∧ ∃ t', t.balance none usd = .ok (t', [1, 3]) ∧
      FillsIn t 1 tally eur [usd] t' ∧ t'.isBalanced = .ok true := by
  intro usd eur tally t
  have hcosts : costs t.postings = .ok [usd, eur] := rfl
  have hall : ExactRange [usd, eur] := by decide +kernel
  have hsums : t.imbalance = .ok [eur, usd] := by decide +kernel
  have htally : ∀ j q, t.postings[j]? = some q → (q.isTally = true ↔ j = 1) := by
    intro j q hq
    match j with
    | 0 | 1 | 2 =>
      obtain rfl := Option.some.inj hq
      decide
    | j + 3 => simp [t] at hq
  obtain ⟨-, t', hbalance, hfills, hbalanced, -⟩ := balance_offsets (t := t) (by decide) rfl htally
    rfl rfl hsums hcosts hall.byName none usd
  exact ⟨hsums, t', hbalance, hfills, hbalanced⟩

end Transaction

end Daybook
