import Daybook.Proofs.Booking.Completion
import Daybook.Proofs.Commodity.Load

/-!
# Balancing in range

A posting weighs what its amount and its cost do. Within the limit no cost and no sum of costs
overflows, so a transaction is balanced or refused (`ensures_balance`); and the amounts that are
filled in weigh no more than the costs that they offset (`load_amounts_le_of_completes`).
-/

namespace Daybook

open Result (Ensures)
open Turnover (Bounded Keyed accumulate)

namespace Posting

/-- The name of the cost, and a whole number that the cost does not exceed in size. -/
def costWeight? (p : Posting) : Option (String × Nat) :=
  match p.amount, p.price? with
  | none, _ => none
  | some amount, none => some amount.weight
  | some amount, some price =>
    some (price.name, if price.total then price.wholes else price.wholes * amount.wholes)

/-- What the posting weighs: its amount, and its cost. -/
def weights (p : Posting) : List (String × Nat) :=
  p.amount.toList.map Commodity.weight ++ p.costWeight?.toList

theorem ensures_cost? {p : Posting} (hlimit : InLimit p.costWeight?.toList) :
    Ensures (fun cost => ∀ c, cost = some c → ∃ k, p.costWeight? = some (c.name, k) ∧ c.wholes ≤ k)
      (· ≠ .overflow) p.cost? := by
  cases hamount : p.amount with
  | none =>
    simp only [cost?, hamount]
    exact fun c hc => by cases hc
  | some amount =>
    cases hprice : p.price? with
    | none =>
      simp only [cost?, costWeight?, hamount, hprice]
      rintro c hc
      obtain rfl := Option.some.inj hc
      exact ⟨_, rfl, Nat.le_refl _⟩
    | some price =>
      have hload := hlimit price.name
      simp only [costWeight?, hamount, hprice, Option.toList_some, load_singleton] at hload
      simp only [cost?, costWeight?, hamount, hprice, costAt]
      cases htotal : price.total with
      | true =>
        rw [htotal, if_pos rfl] at hload
        have hunit : price.amount.abs.wholes * amount.amount.signum.wholes ≤ price.wholes := by
          have hsign := Decimal.wholes_signum_le amount.amount
          exact (Nat.mul_le_mul_left _ hsign).trans (Nat.le_of_eq (Nat.mul_one _))
        obtain ⟨n, hn, hwholes⟩ := Decimal.exists_mul? (Nat.lt_of_le_of_lt hunit hload)
        simp only [if_true, hn]
        rintro c hc
        obtain rfl := Option.some.inj hc
        exact ⟨_, rfl, hwholes.trans hunit⟩
      | false =>
        rw [htotal, if_neg (by decide)] at hload
        obtain ⟨n, hn, hwholes⟩ := Decimal.exists_mul? hload
        simp only [Bool.false_eq_true, if_false, hn]
        rintro c hc
        obtain rfl := Option.some.inj hc
        exact ⟨_, rfl, hwholes⟩

end Posting

namespace Transaction

def weights (t : Transaction) : List (String × Nat) := t.postings.flatMap Posting.weights

def amounts (t : Transaction) : List Commodity := t.postings.filterMap (·.amount)

def costWeights (t : Transaction) : List (String × Nat) :=
  t.postings.flatMap fun p => p.costWeight?.toList

theorem load_weights (t : Transaction) (n : String) :
    load n t.weights = load n (t.amounts.map Commodity.weight) + load n t.costWeights := by
  rw [weights, amounts, costWeights]
  induction t.postings with
  | nil => rfl
  | cons p ps ih =>
    have hamount : load n ((p :: ps).filterMap (·.amount) |>.map Commodity.weight) =
        load n (p.amount.toList.map Commodity.weight) +
          load n ((ps.filterMap (·.amount)).map Commodity.weight) := by
      cases h : p.amount <;> simp [h, load_cons]
    rw [List.flatMap_cons, List.flatMap_cons, load_append, load_append, hamount, ih,
      Posting.weights, load_append]
    omega

/-! ## Sums of costs -/

theorem addCost_eq (sums : NameMap Commodity) (p : Posting) :
    addCost sums p = p.cost? >>= fun cost =>
      match cost with
      | none => .ok sums
      | some cost => accumulate sums cost := by
  rw [addCost]
  congr 1
  funext cost
  cases cost with
  | none => rfl
  | some cost =>
    simp only [accumulate]
    cases hfind : sums.find? cost.name with
    | none => rfl
    | some sum =>
      cases hadd : sum.add cost with
      | error e =>
        simp only [hadd]
        rfl
      | ok x =>
        have hname := (Commodity.isSimilar_iff.mp (Commodity.add_eq_ok_iff.mp hadd).1).1
        simp only [hadd, hname]

theorem ensures_foldlM_addCost {ps : List Posting}
    (hlimit : InLimit (ps.flatMap fun p => p.costWeight?.toList)) :
    Ensures (fun sums => Keyed sums ∧ Bounded sums (ps.flatMap fun p => p.costWeight?.toList))
      (· ≠ .overflow) (ps.foldlM addCost .empty) := by
  refine Ensures.foldlM (I := fun (done : List Posting) sums =>
    Keyed sums ∧ Bounded sums (done.flatMap fun p => p.costWeight?.toList))
    (fun done p sums hbegins hsums => ?_) ⟨Turnover.keyed_empty, Turnover.bounded_empty _⟩
  obtain ⟨hkeyed, hbounded⟩ := hsums
  have hload : InLimit (done.flatMap (fun p => p.costWeight?.toList) ++ p.costWeight?.toList) := by
    refine hlimit.mono fun n => ?_
    obtain ⟨rest, rfl⟩ := hbegins
    simp
  have hone : InLimit p.costWeight?.toList := hload.mono fun n => by simp
  rw [addCost_eq, List.flatMap_append, List.flatMap_singleton]
  refine (Posting.ensures_cost? hone).bind fun cost hcost => ?_
  cases cost with
  | none => exact ⟨hkeyed, hbounded.mono fun n => by simp⟩
  | some c =>
    obtain ⟨k, hweight, hwholes⟩ := hcost c rfl
    rw [hweight, Option.toList_some] at hload ⊢
    have hsum := Turnover.ensures_accumulate hbounded hwholes hload
    refine Result.ensures_iff.mpr ⟨fun sums' hok => ?_, (Result.ensures_iff.mp hsum).2⟩
    exact ⟨hkeyed.accumulate hok, (Result.ensures_iff.mp hsum).1 sums' hok⟩

theorem ensures_imbalance {t : Transaction} (hlimit : InLimit t.costWeights) :
    Ensures (fun sums => ∀ n, load n (sums.map Commodity.weight) ≤ load n t.costWeights)
      (· ≠ .overflow) t.imbalance := by
  have hresidual : Ensures (fun sums => ∀ n, load n (sums.map Commodity.weight) ≤
      load n t.costWeights) (· ≠ .overflow) t.residual :=
    (ensures_foldlM_addCost hlimit).bind fun sums hsums n =>
      Turnover.load_values_le hsums.1 hsums.2 n
  refine hresidual.bind fun sums hsums n => ?_
  exact (load_le_of_sublist (List.filter_sublist.map _)).trans (hsums n)

theorem ensures_isBalanced {t : Transaction} (hlimit : InLimit t.costWeights) :
    Ensures (fun _ => True) (· ≠ .overflow) t.isBalanced := by
  rw [isBalanced]
  split
  · trivial
  · exact (ensures_imbalance hlimit).bind fun _ _ => trivial

/-! ## Completed transactions -/

theorem ensures_balance {t : Transaction} (hlimit : InLimit t.costWeights)
    (bucket : Option String) (unit : Commodity) :
    Ensures (fun _ => True) (· ≠ .amount .overflow) (t.balance bucket unit) := by
  have himbalance : Ensures (fun _ => True) (· ≠ .amount .overflow)
      (t.imbalance.mapError BookingError.amount) := by
    refine ((ensures_imbalance hlimit).mono (fun _ _ => trivial) fun _ h => h).mapError ?_
    exact fun e he heq => he (BookingError.amount.inj heq)
  rw [balance]
  split
  · exact fun h => by cases h
  · rename_i p hp
    have hcost : Ensures (fun _ => True) (· ≠ .amount .overflow)
        (p.cost?.mapError BookingError.amount) := by
      have hone : InLimit p.costWeight?.toList := hlimit.mono fun n => by
        rw [costWeights, hp, List.flatMap_singleton]
      refine ((Posting.ensures_cost? hone).mono (fun _ _ => trivial) fun _ h => h).mapError ?_
      exact fun e he heq => he (BookingError.amount.inj heq)
    rw [balanceLone]
    refine hcost.bind fun cost _ => ?_
    split
    · trivial
    · exact fun h => by cases h
  · split
    · exact fun h => by cases h
    · exact himbalance.bind fun _ _ => trivial
    · refine himbalance.bind fun sums _ => ?_
      split
      · exact fun h => by cases h
      · trivial

theorem load_amounts_le_of_completes {t u : Transaction} {bucket : Option String} {unit : Commodity}
    {places : List Nat} (hlimit : InLimit t.costWeights) (h : t.Completes bucket unit u places)
    (n : String) : load n (u.amounts.map Commodity.weight) ≤ load n t.weights := by
  cases h with
  | @lone p account cost hp _ hcost =>
    have hone : InLimit p.costWeight?.toList := hlimit.mono fun n => by
      rw [costWeights, hp, List.flatMap_singleton]
    obtain ⟨k, hweight, hwholes⟩ :=
      (Result.ensures_iff.mp (Posting.ensures_cost? hone)).1 _ hcost cost rfl
    have hamounts : amounts { t with postings := [p, .ofAmount account cost.invert] } =
        p.amount.toList ++ [cost.invert] := by
      cases hamount : p.amount <;> simp [amounts, hamount, Posting.ofAmount]
    rw [hamounts, weights, hp, List.flatMap_singleton, Posting.weights, hweight, List.map_append,
      List.map_singleton, Commodity.weight_invert, load_append, load_append]
    refine Nat.add_le_add_left ?_ _
    by_cases hname : cost.name = n
    · simpa [load_cons, Commodity.weight, hname] using hwholes
    · simp [load_cons, Commodity.weight, hname]
  | @tally before after p sums hps _ htally _ hsums =>
    have hbound := (Result.ensures_iff.mp (ensures_imbalance hlimit)).1 sums hsums n
    have hnone : p.amount = none := Option.isNone_iff_eq_none.mp htally
    have hoffsets : load n ((Commodity.offset unit sums).weight ::
        sums.tail.map fun sum => sum.invert.weight) ≤ load n (sums.map Commodity.weight) := by
      cases sums with
      | nil => simp [load_cons, Commodity.offset, Commodity.weight, Commodity.wholes,
          Commodity.similar]
      | cons sum sums => exact Nat.le_refl _
    have hwritten : t.amounts = before.filterMap (·.amount) ++ after.filterMap (·.amount) := by
      simp [amounts, hps, hnone]
    have hfurther : (p.furtherOffsets sums).filterMap (·.amount) =
        sums.tail.map Commodity.invert := by
      rw [Posting.furtherOffsets, List.filterMap_map]
      exact List.filterMap_eq_map ▸ rfl
    rw [load_weights, hwritten]
    simp only [amounts, List.append_assoc, List.cons_append, List.filterMap_append,
      List.filterMap_cons, Posting.withAmount, hfurther, List.map_append, List.map_cons, load_append,
      load_cons, List.map_map] at hoffsets ⊢
    have hmap : sums.tail.map (Commodity.weight ∘ Commodity.invert) =
        sums.tail.map fun sum => sum.invert.weight := rfl
    rw [hmap]
    omega
  | whole =>
    rw [load_weights]
    exact Nat.le_add_right _ _

end Transaction

end Daybook
