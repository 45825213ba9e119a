import Daybook.Proofs.Booking.Cost
import Daybook.Proofs.Commodity.Parts
import Mathlib.Data.List.Sort

/-!
# The sums of a transaction

In the exact range a transaction has one sum for each name among its costs: what the costs of the
name come to, with the precision of the one that is shown with most decimals (`SumsByName`). There
are no sums exactly if two costs of one name are written differently. None of this depends on the
order of the postings (`residual_sumsByName`).
-/

namespace Daybook

open Commodity (addTo total? named sumOf Agree ExactRange ExactSums)
open Posting (costs)
open Turnover (sums?)

namespace Commodity

/-- The amounts come to the sums: one for each name, in the order of the names, which is what the
amounts of the name have together, with the largest of their precisions. -/
structure SumsByName (cs sums : List Commodity) : Prop where
  ascending : sums.Pairwise fun a b => a.name < b.name
  names : ∀ n, n ∈ sums.map (·.name) ↔ n ∈ cs.map (·.name)
  value : ∀ sum ∈ sums, sum.value = sumOf (named sum.name cs)
  precision : ∀ sum ∈ sums, ((named sum.name cs).map (·.precision)).max? = some sum.precision

/-- What an amount says, apart from how it is written. -/
def measure (c : Commodity) : String × Int × Nat := (c.name, c.value, c.precision)

theorem precision_of_foldlM_addTo {cs : List Commodity} {o r : Option Commodity}
    (h : cs.foldlM addTo o = .ok r) :
    ((o.toList ++ cs).map (·.precision)).max? = r.map (·.precision) := by
  induction cs generalizing o with
  | nil =>
    obtain rfl := Result.pure_eq_ok_iff.mp h
    cases o <;> rfl
  | cons d cs ih =>
    rw [List.foldlM_cons, Result.bind_eq_ok_iff] at h
    obtain ⟨o', hd, hrest⟩ := h
    rw [← ih hrest]
    cases o with
    | none =>
      obtain rfl := Except.ok.inj hd
      rfl
    | some sum =>
      obtain ⟨x, hadd, rfl⟩ := Result.map_eq_ok_iff.mp hd
      obtain ⟨-, n, -, rfl⟩ := add_eq_ok_iff.mp hadd
      simp only [Option.toList_some, List.singleton_append, List.map_cons, List.max?_cons',
        List.foldl_cons]

theorem sumsByName_of_sums? {cs : List Commodity} {sums : NameMap Commodity}
    (h : sums? cs = .ok sums) (hexact : ∀ n, ExactSums (named n cs)) :
    SumsByName cs sums.values := by
  have hkeyed := Turnover.keyed_of_sums? h
  have htotal : ∀ sum ∈ sums.values, total? (named sum.name cs) = .ok (some sum) := by
    intro sum hsum
    obtain ⟨n, hn⟩ := NameMap.mem_values_iff.mp hsum
    rw [hkeyed n sum hn, ← hn]
    exact Turnover.find?_of_sums? h n
  refine ⟨Turnover.pairwise_values hkeyed, fun n => ?_, fun sum hsum => ?_, fun sum hsum => ?_⟩
  · constructor
    · intro hn
      obtain ⟨sum, hsum, rfl⟩ := List.mem_map.mp hn
      obtain ⟨k, hk⟩ := NameMap.mem_values_iff.mp hsum
      obtain ⟨c, hc, hname, -⟩ := Turnover.exists_similar_of_sums? h hk
      exact List.mem_map.mpr ⟨c, hc, hname.trans (hkeyed k sum hk).symm⟩
    · intro hn
      obtain ⟨c, hc, rfl⟩ := List.mem_map.mp hn
      obtain ⟨sum, hsum⟩ := Turnover.exists_find?_of_mem h hc rfl
      exact List.mem_map.mpr
        ⟨sum, NameMap.mem_values_iff.mpr ⟨c.name, hsum⟩, hkeyed c.name sum hsum⟩
  · exact valueOf_of_total? (htotal sum hsum) (hexact sum.name)
  · exact precision_of_foldlM_addTo (htotal sum hsum)

theorem SumsByName.measures_eq {cs ds sums sums' : List Commodity} (h : SumsByName cs sums)
    (h' : SumsByName ds sums') (hperm : ds.Perm cs) : sums'.map measure = sums.map measure := by
  have hnames : sums'.map (·.name) = sums.map (·.name) := by
    refine List.Pairwise.eq_of_mem_iff (List.pairwise_map.mpr h'.ascending)
      (List.pairwise_map.mpr h.ascending) fun n => ?_
    rw [h.names, h'.names, (hperm.map _).mem_iff]
  -- What a sum says is decided by its name.
  let measureOf (n : String) : String × Int × Nat :=
    (n, sumOf (named n cs), ((named n cs).map (·.precision)).max?.getD 0)
  have hmeasure : sums.map measure = (sums.map (·.name)).map measureOf := by
    rw [List.map_map]
    refine List.map_congr_left fun sum hsum => ?_
    simp only [measure, measureOf, Function.comp_apply, h.value sum hsum, h.precision sum hsum,
      Option.getD_some]
  have hmeasure' : sums'.map measure = (sums'.map (·.name)).map measureOf := by
    rw [List.map_map]
    refine List.map_congr_left fun sum hsum => ?_
    have hprecision := h'.precision sum hsum
    rw [List.max?_eq_some_iff] at hprecision
    have hnamed := (named_perm hperm sum.name).map (·.precision)
    have hmax : ((named sum.name cs).map (·.precision)).max? = some sum.precision := by
      rw [List.max?_eq_some_iff]
      exact ⟨hnamed.mem_iff.mp hprecision.1, fun b hb => hprecision.2 b (hnamed.mem_iff.mpr hb)⟩
    simp only [measure, measureOf, Function.comp_apply, h'.value sum hsum, hmax, Option.getD_some,
      sumOf_perm (named_perm hperm sum.name)]
  rw [hmeasure, hmeasure', hnames]

theorem all_isBalanced_of_measures_eq {sums sums' : List Commodity}
    (h : sums'.map measure = sums.map measure) :
    sums'.all (·.isBalanced) = sums.all (·.isBalanced) := by
  have hdecides : ∀ l : List Commodity, l.all (·.isBalanced) =
      (l.map measure).all fun m => decide (|m.2.1| ≤ tolerance.value) := by
    intro l
    rw [List.all_map]
    refine List.all_congr rfl fun c => ?_
    rw [Bool.eq_iff_iff, isBalanced_iff, Function.comp_apply, measure, decide_eq_true_iff]
  rw [hdecides, hdecides, h]

end Commodity

theorem Posting.costs_perm {ps qs : List Posting} (h : ps.Perm qs) {cs : List Commodity}
    (hcs : costs ps = .ok cs) : ∃ ds, costs qs = .ok ds ∧ ds.Perm cs := by
  induction h generalizing cs with
  | nil => exact ⟨cs, hcs, List.Perm.refl _⟩
  | cons p _ ih =>
    obtain ⟨cost, rest, hcost, hrest, rfl⟩ := costs_cons_eq_ok_iff.mp hcs
    obtain ⟨ds, hds, hperm⟩ := ih hrest
    exact ⟨_, costs_cons_eq_ok_iff.mpr ⟨cost, ds, hcost, hds, rfl⟩, hperm.append_left _⟩
  | swap p q ps =>
    obtain ⟨first, _, hfirst, hothers, rfl⟩ := costs_cons_eq_ok_iff.mp hcs
    obtain ⟨second, rest, hsecond, hrest, rfl⟩ := costs_cons_eq_ok_iff.mp hothers
    refine ⟨second.toList ++ (first.toList ++ rest), ?_, ?_⟩
    · exact costs_cons_eq_ok_iff.mpr ⟨second, _, hsecond,
        costs_cons_eq_ok_iff.mpr ⟨first, rest, hfirst, hrest, rfl⟩, rfl⟩
    · rw [← List.append_assoc, ← List.append_assoc]
      exact List.perm_append_comm.append_right rest
  | trans _ _ ih₁ ih₂ =>
    obtain ⟨ds, hds, hperm⟩ := ih₁ hcs
    obtain ⟨es, hes, hperm'⟩ := ih₂ hds
    exact ⟨es, hes, hperm'.trans hperm⟩

namespace Transaction

theorem isBalanced_eq (t : Transaction) :
    t.isBalanced = if t.postings.any (·.isTally) then .ok false
      else (fun sums => sums.all (·.isBalanced)) <$> t.residual := by
  rw [isBalanced]
  split
  · rfl
  · rw [imbalance]
    cases t.residual with
    | error e => rfl
    | ok sums =>
      refine congrArg Except.ok ?_
      rw [Bool.eq_iff_iff]
      simp

section Sums

variable {t : Transaction} {cs : List Commodity}

theorem exists_residual_iff (hcosts : costs t.postings = .ok cs)
    (hexact : ∀ n, ExactSums (named n cs)) : (∃ sums, t.residual = .ok sums) ↔ Agree cs := by
  rw [residual_eq_of_costs hcosts]
  constructor
  · rintro ⟨sums, hsums⟩
    obtain ⟨m, hm, -⟩ := Result.map_eq_ok_iff.mp hsums
    exact Turnover.agree_of_sums? hm
  · intro hagree
    obtain ⟨m, hm⟩ := Turnover.exists_sums? hagree hexact
    exact ⟨_, Result.map_eq_ok_iff.mpr ⟨m, hm, rfl⟩⟩

theorem residual_ne_overflow (hcosts : costs t.postings = .ok cs)
    (hexact : ∀ n, ExactRange (named n cs)) : t.residual ≠ .error .overflow := by
  rw [residual_eq_of_costs hcosts]
  have hsums := Turnover.sums?_ne_overflow hexact
  cases hm : sums? cs with
  | ok m => exact fun hover => by cases hover
  | error e =>
    rw [hm] at hsums
    exact fun hover => hsums (congrArg Except.error (Except.error.inj hover))

theorem sumsByName_of_residual (hcosts : costs t.postings = .ok cs)
    (hexact : ∀ n, ExactSums (named n cs)) {sums : List Commodity} (h : t.residual = .ok sums) :
    Commodity.SumsByName cs sums := by
  rw [residual_eq_of_costs hcosts] at h
  obtain ⟨m, hm, rfl⟩ := Result.map_eq_ok_iff.mp h
  exact Commodity.sumsByName_of_sums? hm hexact

/-- In the exact range the sums say the same for every order of the postings. -/
theorem residual_perm (hcosts : costs t.postings = .ok cs)
    (hexact : ∀ n, ExactRange (named n cs)) {t' : Transaction}
    (hperm : t'.postings.Perm t.postings) {sums : List Commodity} (h : t.residual = .ok sums) :
    ∃ sums', t'.residual = .ok sums' ∧
      sums'.map Commodity.measure = sums.map Commodity.measure := by
  obtain ⟨ds, hds, hsame⟩ := Posting.costs_perm hperm.symm hcosts
  have hexact' : ∀ n, ExactRange (named n ds) := fun n =>
    (hexact n).perm (Commodity.named_perm hsame n)
  have hexactSums := fun n => (hexact n).exactSums
  have hexactSums' := fun n => (hexact' n).exactSums
  have hagree := (exists_residual_iff hcosts hexactSums).mp ⟨sums, h⟩
  obtain ⟨sums', h'⟩ := (exists_residual_iff hds hexactSums').mpr (hagree.perm hsame)
  exact ⟨sums', h', (sumsByName_of_residual hcosts hexactSums h).measures_eq
    (sumsByName_of_residual hds hexactSums' h') hsame⟩

theorem isBalanced_perm (hcosts : costs t.postings = .ok cs)
    (hexact : ∀ n, ExactRange (named n cs)) {t' : Transaction}
    (hperm : t'.postings.Perm t.postings) {b : Bool} (h : t.isBalanced = .ok b) :
    t'.isBalanced = .ok b := by
  have htallies : t'.postings.any (·.isTally) = t.postings.any (·.isTally) := hperm.any_eq
  rw [isBalanced_eq] at h ⊢
  rw [htallies]
  split at h
  case isTrue htally => rwa [if_pos htally]
  case isFalse htally =>
    obtain ⟨sums, hsums, rfl⟩ := Result.map_eq_ok_iff.mp h
    obtain ⟨sums', hsums', hsame⟩ := residual_perm hcosts hexact hperm hsums
    rw [if_neg htally, hsums']
    exact congrArg Except.ok (Commodity.all_isBalanced_of_measures_eq hsame)

/-- In the exact range adding up the costs of a transaction fails exactly if two of them have one
name and different notations, and never by an overflow; otherwise it gives one sum for each name.
The order of the postings decides neither whether it fails nor what the sums say. -/
theorem residual_sumsByName (hcosts : costs t.postings = .ok cs)
    (hexact : ∀ n, ExactRange (named n cs)) :
    ((∃ e, t.residual = .error e) ↔ ∃ a ∈ cs, ∃ b ∈ cs, a.name = b.name ∧ a.currency ≠ b.currency) ∧
    t.residual ≠ .error .overflow ∧
    (∀ sums, t.residual = .ok sums → Commodity.SumsByName cs sums) ∧
    ∀ t' : Transaction, t'.postings.Perm t.postings →
      ((∃ e, t'.residual = .error e) ↔ ∃ e, t.residual = .error e) ∧
      (∀ sums sums', t.residual = .ok sums → t'.residual = .ok sums' →
        sums'.map Commodity.measure = sums.map Commodity.measure) ∧
      ∀ b, t'.isBalanced = .ok b ↔ t.isBalanced = .ok b := by
  have hexactSums := fun n => (hexact n).exactSums
  refine ⟨?_, residual_ne_overflow hcosts hexact,
    fun sums => sumsByName_of_residual hcosts hexactSums, fun t' hperm => ?_⟩
  · rw [Result.exists_error_iff, exists_residual_iff hcosts hexactSums]
    simp only [Agree, not_forall, exists_prop, ne_eq]
  · obtain ⟨ds, hds, hsame⟩ := Posting.costs_perm hperm.symm hcosts
    have hexact' : ∀ n, ExactRange (named n ds) := fun n =>
      (hexact n).perm (Commodity.named_perm hsame n)
    refine ⟨?_, fun sums sums' h h' => ?_, fun b => ⟨?_, ?_⟩⟩
    · rw [Result.exists_error_iff, Result.exists_error_iff, exists_residual_iff hcosts hexactSums,
        exists_residual_iff hds fun n => (hexact' n).exactSums]
      exact not_congr ⟨fun hagree => hagree.perm hsame.symm, fun hagree => hagree.perm hsame⟩
    · obtain ⟨sums'', h'', hmeasures⟩ := residual_perm hcosts hexact hperm h
      rw [Except.ok.inj (h'.symm.trans h''), hmeasures]
    · exact isBalanced_perm hds hexact' hperm.symm
    · exact isBalanced_perm hcosts hexact hperm

/-- Two amounts of one commodity and one of another, in both orders. -/
theorem residual_sumsByName_mixed :
    let usd : Commodity := .plain "USD" .one
    let half : Commodity := .plain "USD" ⟨false, 50, 2, by decide, by decide⟩
    let eur : Commodity := .plain "EUR" .one
    let t : Transaction := { Transaction.ofPayee ⟨2024, 1, 1, by decide⟩ "" with
      postings := [.ofAmount "Bank" usd, .ofAmount "Cash" eur, .ofAmount "Card" half] }
    let t' : Transaction := { t with postings := t.postings.reverse }
    costs t.postings = .ok [usd, eur, half] ∧ (∀ n, ExactRange (named n [usd, eur, half])) ∧
      ∃ sums sums', t.residual = .ok sums ∧ Commodity.SumsByName [usd, eur, half] sums ∧
        t'.residual = .ok sums' ∧ sums'.map Commodity.measure = sums.map Commodity.measure := by
  intro usd half eur t t'
  have hcosts : costs t.postings = .ok [usd, eur, half] := rfl
  have hall : ExactRange [usd, eur, half] := by decide +kernel
  have hexact : ∀ n, ExactRange (named n [usd, eur, half]) := hall.byName
  obtain ⟨hfails, -, hsums, hperm⟩ := residual_sumsByName hcosts hexact
  obtain ⟨hfails', hsame, -⟩ := hperm t' (List.reverse_perm _)
  have hnone : ¬∃ e, t.residual = .error e := by
    rw [hfails]
    decide
  obtain ⟨sums, h⟩ := not_not.mp (mt Result.exists_error_iff.mpr hnone)
  obtain ⟨sums', h'⟩ := not_not.mp (mt Result.exists_error_iff.mpr (mt hfails'.mp hnone))
  exact ⟨hcosts, hexact, sums, sums', h, hsums sums h, h', hsame sums sums' h h'⟩

end Sums

end Transaction

end Daybook
