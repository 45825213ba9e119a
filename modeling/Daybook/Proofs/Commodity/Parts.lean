import Daybook.Proofs.Commodity.Posts
import Daybook.Report.Totals
import Mathlib.Algebra.BigOperators.Group.List.Basic

/-!
# Sums of sums

Amounts that have been summed up in parts can be summed up once more, part by part: the sums by name
of the sums by name of the parts are those of all amounts (`exists_sums?_of_parts`). This is how a
report adds up what several accounts hold; its totals take in amounts as a turnover does
(`Totals.addAll_eq`).
-/

namespace Daybook

open Commodity (named sumOf valueOf total? Agree ExactRange)

/-! ## Parts of a list -/

theorem perm_filter_or {α : Type} {p q : α → Bool} {l : List α}
    (h : ∀ x ∈ l, p x = true → q x = false) :
    (l.filter p ++ l.filter q).Perm (l.filter fun x => p x || q x) := by
  induction l with
  | nil => exact List.Perm.refl _
  | cons x l ih =>
    have hrest := ih fun y hy => h y (List.mem_cons_of_mem _ hy)
    cases hp : p x with
    | true =>
      have hq := h x List.mem_cons_self hp
      rw [List.filter_cons_of_pos hp, List.filter_cons_of_neg (by simp [hq]),
        List.filter_cons_of_pos (by simp [hp]), List.cons_append]
      exact hrest.cons x
    | false =>
      rw [List.filter_cons_of_neg (by simp [hp])]
      cases hq : q x with
      | true =>
        rw [List.filter_cons_of_pos hq, List.filter_cons_of_pos (by simp [hq])]
        exact List.perm_middle.trans (hrest.cons x)
      | false =>
        rw [List.filter_cons_of_neg (by simp [hq]), List.filter_cons_of_neg (by simp [hp, hq])]
        exact hrest

theorem perm_flatMap_filter {α β : Type} {parts : List β} {p : β → α → Bool} {l : List α}
    (h : parts.Pairwise fun a b => ∀ x ∈ l, p a x = true → p b x = false) :
    (parts.flatMap fun a => l.filter (p a)).Perm (l.filter fun x => parts.any (p · x)) := by
  induction parts with
  | nil => simp
  | cons a parts ih =>
    obtain ⟨ha, hparts⟩ := List.pairwise_cons.mp h
    have hapart : ∀ x ∈ l, p a x = true → parts.any (p · x) = false := fun x hx hpx =>
      List.any_eq_false.mpr fun b hb => by simp [ha b hb x hx hpx]
    rw [List.flatMap_cons]
    exact ((ih hparts).append_left _).trans (perm_filter_or hapart)

namespace Commodity

theorem sumOf_perm {cs ds : List Commodity} (h : cs.Perm ds) : sumOf cs = sumOf ds :=
  (h.map value).sum_eq

theorem named_perm {cs ds : List Commodity} (h : cs.Perm ds) (n : String) :
    (named n cs).Perm (named n ds) :=
  h.filter _

theorem ExactRange.perm {cs ds : List Commodity} (h : ExactRange ds) (hperm : cs.Perm ds) :
    ExactRange cs := by
  obtain ⟨s, hs, hdvd, hlt⟩ := h
  refine ⟨s, hs, fun c hc => hdvd c (hperm.mem_iff.mp hc), ?_⟩
  rwa [(hperm.map (·.value.natAbs)).sum_eq]

theorem Agree.perm {cs ds : List Commodity} (h : Agree ds) (hperm : cs.Perm ds) : Agree cs :=
  fun a ha b hb => h a (hperm.mem_iff.mp ha) b (hperm.mem_iff.mp hb)

theorem named_flatMap {α : Type} (n : String) (f : α → List Commodity) (l : List α) :
    named n (l.flatMap f) = l.flatMap fun a => named n (f a) :=
  List.filter_flatMap

theorem sumOf_named_flatMap_eq_zero {α : Type} {n : String} {f : α → List Commodity} {l : List α}
    (h : ∀ a ∈ l, sumOf (named n (f a)) = 0) : sumOf (named n (l.flatMap f)) = 0 := by
  induction l with
  | nil => rfl
  | cons a l ih =>
    rw [List.flatMap_cons, named_append, sumOf_append, h a List.mem_cons_self,
      ih fun b hb => h b (List.mem_cons_of_mem _ hb), add_zero]

end Commodity

/-! ## Summing up sums -/

namespace Turnover

theorem named_values {sums : NameMap Commodity} (h : Keyed sums) (n : String) :
    named n sums.values = (sums.find? n).toList := by
  obtain ⟨entries, hsorted⟩ := sums
  have hkeyed : ∀ e ∈ entries, e.2.name = e.1 := fun e he =>
    h e.1 e.2 ((NameMap.mem_iff_lookup hsorted).mp he)
  clear h
  show named n (entries.map (·.2)) = (NameMap.lookup n entries).toList
  induction entries with
  | nil => rfl
  | cons e rest ih =>
    obtain ⟨hlt, hrest⟩ := List.pairwise_cons.mp hsorted
    have hname := hkeyed e List.mem_cons_self
    have hothers := ih hrest fun x hx => hkeyed x (List.mem_cons_of_mem _ hx)
    rw [List.map_cons, Commodity.named_cons, NameMap.lookup, hothers, hname]
    by_cases heq : e.1 = n
    · subst heq
      rw [if_pos rfl, if_pos rfl, NameMap.lookup_eq_none_of_lt hlt]
      rfl
    · rw [if_neg heq, if_neg heq]

variable {α : Type} {l : List α} {sums : α → NameMap Commodity} {part : α → List Commodity}

theorem sumOf_find? {cs : List Commodity} {m : NameMap Commodity} (h : sums? cs = .ok m)
    {n : String} (hexact : ExactRange (named n cs)) :
    sumOf (m.find? n).toList = sumOf (named n cs) := by
  rw [← Commodity.valueOf_of_total? (find?_of_sums? h n) hexact.exactSums]
  cases m.find? n <;> simp

theorem sumOf_flatMap_find? (hsums : ∀ a ∈ l, sums? (part a) = .ok (sums a)) {n : String}
    (hexact : ExactRange (named n (l.flatMap part))) :
    sumOf (l.flatMap fun a => ((sums a).find? n).toList) = sumOf (named n (l.flatMap part)) := by
  induction l with
  | nil => rfl
  | cons a l ih =>
    rw [List.flatMap_cons, Commodity.named_append] at hexact
    have hfirst := sumOf_find? (hsums a List.mem_cons_self)
      (hexact.sublist (List.sublist_append_left ..))
    have hrest := ih (fun b hb => hsums b (List.mem_cons_of_mem _ hb))
      (hexact.sublist (List.sublist_append_right ..))
    rw [List.flatMap_cons, List.flatMap_cons, Commodity.named_append, Commodity.sumOf_append,
      Commodity.sumOf_append, hfirst, hrest]

theorem sum_natAbs_flatMap_find?_le (hsums : ∀ a ∈ l, sums? (part a) = .ok (sums a)) {n : String}
    (hexact : ExactRange (named n (l.flatMap part))) :
    ((l.flatMap fun a => ((sums a).find? n).toList).map (·.value.natAbs)).sum ≤
      ((named n (l.flatMap part)).map (·.value.natAbs)).sum := by
  induction l with
  | nil => exact Nat.le_refl _
  | cons a l ih =>
    rw [List.flatMap_cons, Commodity.named_append] at hexact
    have hrest := ih (fun b hb => hsums b (List.mem_cons_of_mem _ hb))
      (hexact.sublist (List.sublist_append_right ..))
    have hfirst : (((sums a).find? n).toList.map (·.value.natAbs)).sum ≤
        ((named n (part a)).map (·.value.natAbs)).sum := by
      have habs := Commodity.natAbs_sumOf_le (named n (part a))
      rw [← sumOf_find? (hsums a List.mem_cons_self)
        (hexact.sublist (List.sublist_append_left ..))] at habs
      cases hfind : (sums a).find? n with
      | none => simp
      | some c =>
        rw [hfind] at habs
        simpa using habs
    simp only [List.flatMap_cons, Commodity.named_append, List.map_append, List.sum_append]
    exact Nat.add_le_add hfirst hrest

theorem exactRange_flatMap_find? (hsums : ∀ a ∈ l, sums? (part a) = .ok (sums a)) {n : String}
    (hexact : ExactRange (named n (l.flatMap part))) :
    ExactRange (l.flatMap fun a => ((sums a).find? n).toList) := by
  have hbound := sum_natAbs_flatMap_find?_le hsums hexact
  have hparts : ∀ a ∈ l, (named n (part a)).Sublist (named n (l.flatMap part)) := fun a ha =>
    (List.sublist_flatten_of_mem (List.mem_map_of_mem ha)).filter _
  obtain ⟨s, hs, hdvd, hlt⟩ := id hexact
  refine ⟨s, hs, fun c hc => ?_, Nat.lt_of_le_of_lt hbound hlt⟩
  obtain ⟨a, ha, hc⟩ := List.mem_flatMap.mp hc
  have hvalue := sumOf_find? (hsums a ha) (hexact.sublist (hparts a ha))
  rw [Option.mem_toList.mp hc, Option.toList_some] at hvalue
  have hc' : c.value = sumOf (named n (part a)) := by simpa using hvalue
  rw [hc']
  exact Commodity.dvd_sumOf fun d hd => hdvd d ((hparts a ha).subset hd)

theorem exists_similar_of_mem_values (hsums : ∀ a ∈ l, sums? (part a) = .ok (sums a))
    {c : Commodity} (hc : c ∈ l.flatMap fun a => (sums a).values) :
    ∃ d ∈ l.flatMap part, d.name = c.name ∧ d.currency = c.currency := by
  obtain ⟨a, ha, hc⟩ := List.mem_flatMap.mp hc
  obtain ⟨n, hn⟩ := NameMap.mem_values_iff.mp hc
  obtain ⟨d, hd, hname, hcurrency⟩ := exists_similar_of_sums? (hsums a ha) hn
  refine ⟨d, List.mem_flatMap.mpr ⟨a, ha, hd⟩, ?_, hcurrency⟩
  rw [hname, keyed_of_sums? (hsums a ha) n c hn]

theorem exists_sums?_of_parts (hsums : ∀ a ∈ l, sums? (part a) = .ok (sums a))
    (hagree : Agree (l.flatMap part)) (hexact : ∀ n, ExactRange (named n (l.flatMap part))) :
    ∃ total, sums? (l.flatMap fun a => (sums a).values) = .ok total ∧
      ∀ n, valueOf (total.find? n) = sumOf (named n (l.flatMap part)) := by
  have hnamed : ∀ n, named n (l.flatMap fun a => (sums a).values) =
      l.flatMap fun a => ((sums a).find? n).toList := fun n => by
    rw [Commodity.named_flatMap]
    exact List.flatMap_congr fun a ha => named_values (keyed_of_sums? (hsums a ha)) n
  have hagree' : Agree (l.flatMap fun a => (sums a).values) := by
    intro c hc d hd hname
    obtain ⟨c', hc', hcname, hccurrency⟩ := exists_similar_of_mem_values hsums hc
    obtain ⟨d', hd', hdname, hdcurrency⟩ := exists_similar_of_mem_values hsums hd
    rw [← hccurrency, ← hdcurrency]
    exact hagree c' hc' d' hd' (by rw [hcname, hdname, hname])
  have hexact' : ∀ n, ExactRange (named n (l.flatMap fun a => (sums a).values)) := fun n =>
    (hnamed n).symm ▸ exactRange_flatMap_find? hsums (hexact n)
  have htotals : ∀ n, ∃ r, total? (named n (l.flatMap fun a => (sums a).values)) = .ok r ∧
      valueOf r = sumOf (named n (l.flatMap part)) := by
    intro n
    obtain ⟨r, hr, hvalue⟩ := Commodity.total?_exact hagree' (hexact' n).exactSums
    refine ⟨r, hr, ?_⟩
    rw [hvalue, hnamed, sumOf_flatMap_find? hsums (hexact n)]
  obtain ⟨total, htotal⟩ := exists_sums?_iff.mpr fun n => ⟨_, (htotals n).choose_spec.1⟩
  refine ⟨total, htotal, fun n => ?_⟩
  obtain ⟨r, hr, hvalue⟩ := htotals n
  obtain rfl := Except.ok.inj (hr.symm.trans (find?_of_sums? htotal n))
  exact hvalue

end Turnover

/-! ## Totals -/

namespace Totals

/-- The first amount of a name is its own sum, because it is added to a zero that is like it. -/
theorem add_eq (t : Totals) (c : Commodity) :
    t.add c = Totals.mk <$> Turnover.accumulate t.sums c := by
  rw [add, find?, Turnover.accumulate]
  cases hfind : t.sums.find? c.name with
  | none =>
    have hzero : (c.similar .zero).add c = .ok c := by
      refine Commodity.add_eq_ok_iff.mpr ⟨Commodity.isSimilar_iff.mpr ⟨rfl, rfl⟩, c.amount,
        Decimal.add?_of_zero_left rfl, ?_⟩
      simp [Commodity.similar]
    rw [Option.getD_none, hzero]
    rfl
  | some sum =>
    rw [Option.getD_some]
    cases hadd : sum.add c with
    | error e =>
      simp only [hadd]
      rfl
    | ok x =>
      have hname := (Commodity.isSimilar_iff.mp (Commodity.add_eq_ok_iff.mp hadd).1).1
      simp only [hadd, hname]
      rfl

theorem addAll_eq (t : Totals) (cs : List Commodity) :
    t.addAll cs = Totals.mk <$> cs.foldlM Turnover.accumulate t.sums := by
  induction cs generalizing t with
  | nil => rfl
  | cons c cs ih =>
    rw [addAll, List.foldlM_cons, add_eq, List.foldlM_cons]
    cases Turnover.accumulate t.sums c with
    | error e => rfl
    | ok sums => exact ih ⟨sums⟩

theorem addAll_append (t : Totals) (cs ds : List Commodity) :
    t.addAll (cs ++ ds) = t.addAll cs >>= fun t => t.addAll ds :=
  List.foldlM_append

theorem addAll_empty_eq_ok_iff {cs : List Commodity} {t : Totals} :
    empty.addAll cs = .ok t ↔ Turnover.sums? cs = .ok t.sums := by
  have hfold : empty.addAll cs = Totals.mk <$> Turnover.sums? cs := addAll_eq empty cs
  rw [hfold]
  cases Turnover.sums? cs with
  | error e => exact iff_of_false nofun nofun
  | ok sums =>
    cases t
    simp [Functor.map, Except.map]

end Totals

end Daybook
