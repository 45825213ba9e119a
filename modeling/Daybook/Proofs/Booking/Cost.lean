import Daybook.Booking
import Daybook.Proofs.Commodity.ByName
import Daybook.Proofs.Result

/-!
# Costs of a transaction

The sums of a transaction are the totals of its costs, by name (`residual_eq_ok_iff`), and it is
balanced exactly if all its postings have amounts and the costs of each name cancel out
(`isBalanced_eq_true_iff`). For costs in the exact range that says that they add up to nine
thousandths at most (`cancelsOut_iff`).
-/

namespace Daybook

open Commodity (addTo total? named sumOf Agree ExactSums valueOf)
open Turnover (Keyed accumulate sums?)

/-- The costs of the postings that have amounts, in order. -/
def Posting.costs : List Posting → Except AmountError (List Commodity)
  | [] => .ok []
  | p :: rest => do
    let cost ← p.cost?
    return cost.toList ++ (← costs rest)

/-- Whether the amounts of the name add up to little enough. -/
def Commodity.CancelsOut (n : String) (cs : List Commodity) : Prop :=
  ∃ r, total? (named n cs) = .ok r ∧ ∀ x ∈ r, x.isBalanced = true

namespace Posting

theorem costs_cons_eq_ok_iff {p : Posting} {ps : List Posting} {cs : List Commodity} :
    costs (p :: ps) = .ok cs ↔
      ∃ cost rest, p.cost? = .ok cost ∧ costs ps = .ok rest ∧ cs = cost.toList ++ rest := by
  simp only [costs, Result.bind_eq_ok_iff, Result.pure_eq_ok_iff]
  constructor
  · rintro ⟨cost, hcost, rest, hrest, rfl⟩
    exact ⟨cost, rest, hcost, hrest, rfl⟩
  · rintro ⟨cost, rest, hcost, hrest, rfl⟩
    exact ⟨cost, hcost, rest, hrest, rfl⟩

theorem costs_append_eq_ok_iff {ps qs : List Posting} {cs : List Commodity} :
    costs (ps ++ qs) = .ok cs ↔
      ∃ c₁ c₂, costs ps = .ok c₁ ∧ costs qs = .ok c₂ ∧ cs = c₁ ++ c₂ := by
  induction ps generalizing cs with
  | nil => simp [costs]
  | cons p ps ih =>
    simp only [List.cons_append, costs_cons_eq_ok_iff, ih]
    constructor
    · rintro ⟨cost, rest, hcost, ⟨c₁, c₂, h₁, h₂, rfl⟩, rfl⟩
      exact ⟨cost.toList ++ c₁, c₂, ⟨cost, c₁, hcost, h₁, rfl⟩, h₂, by simp⟩
    · rintro ⟨c, c₂, ⟨cost, c₁, hcost, h₁, rfl⟩, h₂, rfl⟩
      exact ⟨cost, c₁ ++ c₂, hcost, ⟨c₁, c₂, h₁, h₂, rfl⟩, by simp⟩

theorem cost?_of_isTally {p : Posting} (h : p.isTally = true) : p.cost? = .ok none := by
  rw [isTally, Option.isNone_iff_eq_none] at h
  simp [cost?, h]

theorem isTally_of_cost? {p : Posting} {c : Commodity} (h : p.cost? = .ok (some c)) :
    p.isTally = false := by
  by_contra htally
  rw [cost?_of_isTally (by simpa using htally)] at h
  simp at h

theorem cost?_of_price?_eq_none {p : Posting} (h : p.price? = none) :
    p.cost? = .ok p.amount := by
  rw [cost?, h]
  cases p.amount <;> rfl

theorem similar_of_cost? {p : Posting} {c : Commodity} (h : p.cost? = .ok (some c)) :
    ∃ d, p.price?.or p.amount = some d ∧ c.name = d.name ∧ c.currency = d.currency := by
  rw [cost?] at h
  cases hamount : p.amount with
  | none => simp [hamount] at h
  | some amount =>
    cases hprice : p.price? with
    | none =>
      obtain rfl : amount = c := by simpa [hamount, hprice] using h
      exact ⟨amount, rfl, rfl, rfl⟩
    | some price =>
      simp only [hamount, hprice, costAt] at h
      split at h
      · obtain rfl := Option.some.inj (Except.ok.inj h)
        exact ⟨price, rfl, rfl, rfl⟩
      · simp [Except.map] at h

theorem costs_around_tally_iff {before after : List Posting} {p : Posting} (hp : p.isTally = true)
    {cs : List Commodity} :
    costs (before ++ p :: after) = .ok cs ↔
      ∃ c₁ c₂, costs before = .ok c₁ ∧ costs after = .ok c₂ ∧ cs = c₁ ++ c₂ := by
  rw [costs_append_eq_ok_iff]
  simp only [costs_cons_eq_ok_iff, cost?_of_isTally hp]
  constructor
  · rintro ⟨c₁, _, h₁, ⟨cost, c₂, hcost, h₂, rfl⟩, rfl⟩
    obtain rfl := Except.ok.inj hcost
    exact ⟨c₁, c₂, h₁, h₂, rfl⟩
  · rintro ⟨c₁, c₂, h₁, h₂, rfl⟩
    exact ⟨c₁, c₂, h₁, ⟨none, c₂, rfl, h₂, rfl⟩, rfl⟩

end Posting

namespace Transaction

open Posting (costs)

theorem addCost_of_no_cost (sums : NameMap Commodity) {p : Posting} (hp : p.cost? = .ok none) :
    addCost sums p = .ok sums := by
  simp [addCost, hp, bind, Except.bind, pure, Except.pure]

theorem addCost_of_cost {sums : NameMap Commodity} (h : Keyed sums) {p : Posting} {c : Commodity}
    (hp : p.cost? = .ok (some c)) : addCost sums p = accumulate sums c := by
  simp only [addCost, hp, accumulate, bind, Except.bind]
  cases hfind : sums.find? c.name with
  | none => rfl
  | some sum => simp only [h _ _ hfind]

theorem foldlM_addCost_eq {ps : List Posting} {cs : List Commodity} (hcs : costs ps = .ok cs)
    {sums : NameMap Commodity} (h : Keyed sums) :
    ps.foldlM addCost sums = cs.foldlM accumulate sums := by
  induction ps generalizing cs sums with
  | nil =>
    obtain rfl := Except.ok.inj hcs
    rfl
  | cons p ps ih =>
    obtain ⟨cost, rest, hcost, hrest, rfl⟩ := Posting.costs_cons_eq_ok_iff.mp hcs
    cases cost with
    | none =>
      rw [List.foldlM_cons, addCost_of_no_cost sums hcost]
      exact ih hrest h
    | some c =>
      rw [Option.toList_some, List.singleton_append, List.foldlM_cons, List.foldlM_cons,
        addCost_of_cost h hcost]
      cases hnext : accumulate sums c with
      | error e => rfl
      | ok next => exact ih hrest (h.accumulate hnext)

theorem foldlM_addCost_eq_ok_iff {ps : List Posting} {sums sums' : NameMap Commodity}
    (h : Keyed sums) :
    ps.foldlM addCost sums = .ok sums' ↔
      ∃ cs, costs ps = .ok cs ∧ cs.foldlM accumulate sums = .ok sums' := by
  induction ps generalizing sums with
  | nil => simp [costs]
  | cons p ps ih =>
    simp only [List.foldlM_cons, Result.bind_eq_ok_iff, Posting.costs_cons_eq_ok_iff]
    cases hcost : p.cost? with
    | error e => simp [addCost, hcost, bind, Except.bind]
    | ok cost =>
      cases cost with
      | none =>
        simp [addCost_of_no_cost sums hcost, ih h]
      | some cost =>
        rw [addCost_of_cost h hcost]
        constructor
        · rintro ⟨next, hnext, hrest⟩
          obtain ⟨cs, hcs, hfold⟩ := (ih (h.accumulate hnext)).mp hrest
          refine ⟨cost :: cs, ⟨some cost, cs, rfl, hcs, rfl⟩, ?_⟩
          rw [List.foldlM_cons, hnext]
          exact hfold
        · rintro ⟨cs, ⟨c, rest, hc, hrest, rfl⟩, hfold⟩
          obtain rfl := Except.ok.inj hc
          rw [Option.toList_some, List.singleton_append, List.foldlM_cons,
            Result.bind_eq_ok_iff] at hfold
          obtain ⟨next, hnext, hfold⟩ := hfold
          exact ⟨next, hnext, (ih (h.accumulate hnext)).mpr ⟨rest, hrest, hfold⟩⟩

theorem residual_eq_ok_iff {t : Transaction} {l : List Commodity} :
    t.residual = .ok l ↔
      ∃ cs sums, costs t.postings = .ok cs ∧ sums? cs = .ok sums ∧ l = sums.values := by
  simp only [residual, Result.bind_eq_ok_iff, Result.pure_eq_ok_iff,
    foldlM_addCost_eq_ok_iff Turnover.keyed_empty, sums?]
  constructor
  · rintro ⟨sums, ⟨cs, hcs, hsums⟩, rfl⟩
    exact ⟨cs, sums, hcs, hsums, rfl⟩
  · rintro ⟨cs, sums, hcs, hsums, rfl⟩
    exact ⟨sums, ⟨cs, hcs, hsums⟩, rfl⟩

theorem residual_eq_of_costs {t : Transaction} {cs : List Commodity}
    (hcs : costs t.postings = .ok cs) : t.residual = NameMap.values <$> sums? cs := by
  rw [residual, foldlM_addCost_eq hcs Turnover.keyed_empty]
  rfl

theorem imbalance_eq_ok_iff {t : Transaction} {l : List Commodity} :
    t.imbalance = .ok l ↔ ∃ cs sums, costs t.postings = .ok cs ∧ sums? cs = .ok sums ∧
      l = sums.values.filter (!·.isBalanced) := by
  simp only [imbalance, Result.bind_eq_ok_iff, Result.pure_eq_ok_iff, residual_eq_ok_iff]
  constructor
  · rintro ⟨_, ⟨cs, sums, hcs, hsums, rfl⟩, rfl⟩
    exact ⟨cs, sums, hcs, hsums, rfl⟩
  · rintro ⟨cs, sums, hcs, hsums, rfl⟩
    exact ⟨_, ⟨cs, sums, hcs, hsums, rfl⟩, rfl⟩

theorem mem_imbalance_iff {t : Transaction} {cs l : List Commodity}
    (hcs : costs t.postings = .ok cs) (h : t.imbalance = .ok l) (x : Commodity) :
    x ∈ l ↔ total? (named x.name cs) = .ok (some x) ∧ x.isBalanced = false := by
  obtain ⟨cs', sums, hcs', hsums, rfl⟩ := imbalance_eq_ok_iff.mp h
  obtain rfl : cs = cs' := Except.ok.inj (hcs.symm.trans hcs')
  simp only [List.mem_filter, NameMap.mem_values_iff, Bool.not_eq_true']
  refine and_congr_left fun _ => ?_
  rw [Turnover.find?_of_sums? hsums, Except.ok.injEq]
  constructor
  · rintro ⟨n, hn⟩
    rwa [Turnover.keyed_of_sums? hsums n x hn]
  · exact fun hx => ⟨x.name, hx⟩

theorem exists_similar_of_mem_imbalance {t : Transaction} {cs l : List Commodity}
    (hcs : costs t.postings = .ok cs) (h : t.imbalance = .ok l) {x : Commodity} (hx : x ∈ l) :
    ∃ c ∈ cs, c.name = x.name ∧ c.currency = x.currency := by
  obtain ⟨htotal, -⟩ := (mem_imbalance_iff hcs h x).mp hx
  have hne : named x.name cs ≠ [] :=
    mt (Commodity.total?_eq_none_iff htotal).mpr (Option.some_ne_none x)
  obtain ⟨c, hc⟩ := List.exists_mem_of_ne_nil _ hne
  exact ⟨c, (Commodity.mem_named.mp hc).1, Commodity.similar_of_total? htotal c hc⟩

theorem pairwise_imbalance {t : Transaction} {l : List Commodity} (h : t.imbalance = .ok l) :
    l.Pairwise (fun a b => a.name < b.name) := by
  obtain ⟨cs, sums, -, hsums, rfl⟩ := imbalance_eq_ok_iff.mp h
  exact (Turnover.pairwise_values (Turnover.keyed_of_sums? hsums)).filter _

theorem isBalanced_iff_imbalance {t : Transaction} :
    t.isBalanced = .ok true ↔ (∀ p ∈ t.postings, p.isTally = false) ∧ t.imbalance = .ok [] := by
  rw [isBalanced]
  by_cases htally : t.postings.any (·.isTally) = true
  · have hex : ¬∀ p ∈ t.postings, p.isTally = false := by
      simpa using htally
    simp [htally, hex, pure, Except.pure]
  · have hall : ∀ p ∈ t.postings, p.isTally = false := by
      simpa using htally
    rw [if_neg htally, Result.bind_eq_ok_iff]
    simp only [Result.pure_eq_ok_iff, List.isEmpty_iff]
    exact ⟨fun ⟨_, hl, hempty⟩ => ⟨hall, hempty ▸ hl⟩, fun ⟨_, hnone⟩ => ⟨[], hnone, rfl⟩⟩

theorem isBalanced_eq_true_iff {t : Transaction} :
    t.isBalanced = .ok true ↔ (∀ p ∈ t.postings, p.isTally = false) ∧
      ∃ cs, costs t.postings = .ok cs ∧ ∀ n, Commodity.CancelsOut n cs := by
  rw [isBalanced_iff_imbalance, imbalance_eq_ok_iff]
  refine and_congr_right fun _ => ⟨?_, ?_⟩
  · rintro ⟨cs, sums, hcs, hsums, hempty⟩
    refine ⟨cs, hcs, fun n => ⟨_, Turnover.find?_of_sums? hsums n, fun x hx => ?_⟩⟩
    have := List.filter_eq_nil_iff.mp hempty.symm x (NameMap.mem_values_iff.mpr ⟨n, hx⟩)
    simpa using this
  · rintro ⟨cs, hcs, hcancel⟩
    obtain ⟨sums, hsums⟩ := Turnover.exists_sums?_iff.mpr fun n =>
      let ⟨r, hr, _⟩ := hcancel n
      ⟨r, hr⟩
    refine ⟨cs, sums, hcs, hsums, (List.filter_eq_nil_iff.mpr fun x hx => ?_).symm⟩
    obtain ⟨n, hn⟩ := NameMap.mem_values_iff.mp hx
    obtain ⟨r, hr, hbalanced⟩ := hcancel n
    rw [Turnover.find?_of_sums? hsums, hn] at hr
    simpa using hbalanced x (Except.ok.inj hr).symm

end Transaction

theorem Commodity.cancelsOut_iff {n : String} {cs : List Commodity} (hagree : Agree cs)
    (hexact : ExactSums (named n cs)) :
    CancelsOut n cs ↔ |sumOf (named n cs)| ≤ tolerance.value := by
  obtain ⟨r, hr, hvalue⟩ := total?_exact hagree hexact
  rw [← hvalue, CancelsOut, hr]
  simp only [Except.ok.injEq, exists_eq_left']
  cases r with
  | none => simp [tolerance, Decimal.value, Decimal.units, Decimal.coefficient]
  | some x => simp [isBalanced_iff]

end Daybook
