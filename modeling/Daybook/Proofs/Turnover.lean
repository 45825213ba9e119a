import Daybook.Proofs.Commodity.Posts
import Mathlib.Algebra.Order.BigOperators.Group.List
import Mathlib.Data.List.Induction

/-!
# Recording amounts

Amounts are recorded in a turnover one after the other, whether or not some are refused. An amount
is refused exactly if the balance of its name is written differently, and then nothing is changed
(`record_cases`): the second sum that it would change cannot fail once the first one has been found.
So the turnover is always what the amounts that were not refused have been posted to, and its three
sums go together (`Consistent`).
-/

namespace Daybook

open Commodity (named sumOf valueOf total? Agree ExactRange)

namespace Commodity

/-! ## Debits and credits -/

theorem sumOf_debits_add_credits (cs : List Commodity) :
    sumOf (debits cs) + sumOf (credits cs) = sumOf cs := by
  induction cs with
  | nil => rfl
  | cons c cs ih =>
    rw [sumOf_cons, ← ih, debits, debits, credits, credits]
    by_cases hneg : c.value < 0
    · rw [List.filter_cons_of_neg (by simpa using hneg),
        List.filter_cons_of_pos (by simpa using hneg), sumOf_cons]
      ring
    · rw [List.filter_cons_of_pos (by simpa using hneg),
        List.filter_cons_of_neg (by simpa using hneg), sumOf_cons]
      ring

theorem sumOf_debits_nonneg (cs : List Commodity) : 0 ≤ sumOf (debits cs) := by
  refine List.sum_nonneg fun v hv => ?_
  obtain ⟨c, hc, rfl⟩ := List.mem_map.mp hv
  simpa using (List.mem_filter.mp hc).2

theorem sumOf_credits_neg {cs : List Commodity} (h : credits cs ≠ []) : sumOf (credits cs) < 0 := by
  have hbelow : ∀ c ∈ credits cs, c.value < 0 := fun c hc => by
    simpa using (List.mem_filter.mp hc).2
  generalize credits cs = ds at h hbelow
  induction ds with
  | nil => exact absurd rfl h
  | cons c ds ih =>
    obtain ⟨hc, hds⟩ := List.forall_mem_cons.mp hbelow
    rw [sumOf_cons]
    by_cases hnil : ds = []
    · rw [hnil, sumOf_nil, add_zero]
      exact hc
    · exact add_neg hc (ih hnil hds)

theorem debits_ne_nil_or_credits_ne_nil_iff (cs : List Commodity) :
    debits cs ≠ [] ∨ credits cs ≠ [] ↔ cs ≠ [] := by
  constructor
  · rintro (h | h) rfl <;> exact h rfl
  · intro h
    obtain ⟨c, hc⟩ := List.exists_mem_of_ne_nil _ h
    by_cases hneg : c.value < 0
    · exact .inr (List.ne_nil_of_mem (List.mem_filter.mpr ⟨hc, by simpa using hneg⟩))
    · exact .inl (List.ne_nil_of_mem (List.mem_filter.mpr ⟨hc, by simpa using hneg⟩))

end Commodity

namespace Turnover

/-! ## Sums that go together -/

/-- The three sums of the turnover go together. -/
structure Consistent (t : Turnover) : Prop where
  names : ∀ n, t.balances.contains n = true ↔
    t.debits.contains n = true ∨ t.credits.contains n = true
  currency : ∀ n b c, t.balances.find? n = some b →
    t.debits.find? n = some c ∨ t.credits.find? n = some c → c.currency = b.currency
  debit_nonneg : ∀ n c, t.debits.find? n = some c → 0 ≤ c.value
  credit_pos : ∀ n c, t.credits.find? n = some c → 0 < c.value
  balance : ∀ n, valueOf (t.balances.find? n) =
    valueOf (t.debits.find? n) - valueOf (t.credits.find? n)
  ascending : ∀ sums ∈ [t.balances, t.debits, t.credits],
    Keyed sums ∧ sums.values.Pairwise fun a b => a.name < b.name

theorem Keeps.valueOf_eq {sums : NameMap Commodity} {n : String} {present : Prop} {sum : Int}
    (h : Keeps sums n present sum) (hnone : ¬present → sum = 0) : valueOf (sums.find? n) = sum := by
  cases hfind : sums.find? n with
  | none =>
    rw [hnone fun hpresent => by simpa [hfind] using h.1.mpr hpresent]
    rfl
  | some c => exact (h.2 c hfind).2

theorem consistent_of_foldlM_post {cs : List Commodity} {t : Turnover}
    (h : cs.foldlM post empty = .ok t) (hexact : ∀ n, ExactRange (named n cs)) : t.Consistent := by
  obtain ⟨hbalances, hdebits, hcredits⟩ := sums_of_foldlM_post h
  have htotals := fun n => totals_of_foldlM_post h (hexact n)
  refine ⟨fun n => ?_, fun n b c hb hc => ?_, fun n c hc => ?_, fun n c hc => ?_, fun n => ?_, ?_⟩
  · simp only [NameMap.contains, (htotals n).balances.1, (htotals n).debits.1,
      (htotals n).credits.1, Commodity.debits_ne_nil_or_credits_ne_nil_iff]
  · obtain ⟨d, hd, hname, hcurrency⟩ : ∃ d ∈ cs, d.name = n ∧ d.currency = c.currency := by
      rcases hc with hc | hc
      · obtain ⟨d, hd, hdc⟩ := exists_similar_of_sums? hdebits hc
        exact ⟨d, (List.mem_filter.mp hd).1, hdc⟩
      · obtain ⟨d, hd, hdc⟩ := exists_similar_of_sums? hcredits hc
        obtain ⟨e, he, rfl⟩ := List.mem_map.mp hd
        exact ⟨e, (List.mem_filter.mp he).1, hdc⟩
    rw [← hcurrency]
    exact currency_of_sums? hbalances hb hd hname
  · rw [((htotals n).debits.2 c hc).2]
    exact Commodity.sumOf_debits_nonneg _
  · rw [((htotals n).credits.2 c hc).2, neg_pos]
    refine Commodity.sumOf_credits_neg ((htotals n).credits.1.mp ?_)
    rw [hc, Option.isSome_some]
  · rw [(htotals n).balances.valueOf_eq, (htotals n).debits.valueOf_eq,
      (htotals n).credits.valueOf_eq, sub_neg_eq_add, Commodity.sumOf_debits_add_credits]
    all_goals
      intro hnil
      rw [not_not.mp hnil]
      rfl
  · intro sums hsums
    simp only [List.mem_cons, List.not_mem_nil, or_false] at hsums
    rcases hsums with rfl | rfl | rfl
    · exact ⟨keyed_of_sums? hbalances, pairwise_values (keyed_of_sums? hbalances)⟩
    · exact ⟨keyed_of_sums? hdebits, pairwise_values (keyed_of_sums? hdebits)⟩
    · exact ⟨keyed_of_sums? hcredits, pairwise_values (keyed_of_sums? hcredits)⟩

/-! ## One amount -/

/-- Whether there is a balance of the name of the amount, written differently. -/
def Clashes (t : Turnover) (c : Commodity) : Prop :=
  ∃ b, t.balances.find? c.name = some b ∧ b.currency ≠ c.currency

theorem record_of_clashes {t : Turnover} {c : Commodity} (h : t.Clashes c) :
    ∃ e, t.record c = (t, some e) := by
  obtain ⟨b, hb, hcurrency⟩ := h
  have hsimilar : b.isSimilar c = false := by
    simp [Commodity.isSimilar, hcurrency]
  have hrefused : accumulate t.balances c = .error (.mismatch b c) := by
    simp [accumulate, hb, Commodity.add, hsimilar, bind, Except.bind]
  exact ⟨.mismatch b c, by rw [record, hrefused]⟩

theorem record_eq_of_post {t t' : Turnover} {c : Commodity} (h : t.post c = .ok t') :
    t.record c = (t', none) := by
  rw [post] at h
  split at h
  case h_1 hrecord => rw [hrecord, Except.ok.inj h]
  case h_2 => cases h

theorem agree_of_not_clashes {cs : List Commodity} {t : Turnover}
    (ht : cs.foldlM post empty = .ok t) {c : Commodity} (h : ¬t.Clashes c) : Agree (cs ++ [c]) := by
  have hbalances : sums? cs = .ok t.balances := (sums_of_foldlM_post ht).1
  have hagree := agree_of_sums? hbalances
  have hlike : ∀ d ∈ cs, d.name = c.name → d.currency = c.currency := by
    intro d hd hname
    obtain ⟨b, hb⟩ := exists_find?_of_mem hbalances hd hname
    rw [currency_of_sums? hbalances hb hd hname]
    exact not_not.mp fun hne => h ⟨b, hb, hne⟩
  intro a ha b hb hab
  rw [List.mem_append, List.mem_singleton] at ha hb
  rcases ha with ha | rfl <;> rcases hb with hb | rfl
  · exact hagree a ha b hb hab
  · exact hlike a ha hab
  · exact (hlike b hb hab.symm).symm
  · rfl

/-- An amount in the exact range is refused if it clashes, and nothing is changed; otherwise it is
posted. -/
theorem record_cases {cs : List Commodity} {t : Turnover} (ht : cs.foldlM post empty = .ok t)
    {c : Commodity} (hexact : ∀ n, ExactRange (named n (cs ++ [c]))) :
    (t.Clashes c ∧ ∃ e, t.record c = (t, some e)) ∨
      (¬t.Clashes c ∧ ∃ t', t.record c = (t', none) ∧ (cs ++ [c]).foldlM post empty = .ok t') := by
  by_cases hclash : t.Clashes c
  · exact .inl ⟨hclash, record_of_clashes hclash⟩
  · obtain ⟨t', ht'⟩ := exists_foldlM_post (agree_of_not_clashes ht hclash) hexact
    have hpost := ht'
    rw [List.foldlM_append, Result.bind_eq_ok_iff] at hpost
    obtain ⟨u, hu, hlast⟩ := hpost
    obtain rfl := Except.ok.inj (ht.symm.trans hu)
    rw [List.foldlM_cons, Result.bind_eq_ok_iff] at hlast
    obtain ⟨v, hv, hnil⟩ := hlast
    obtain rfl := Result.pure_eq_ok_iff.mp hnil
    exact .inr ⟨hclash, v, record_eq_of_post hv, ht'⟩

/-! ## All amounts -/

/-- The turnover in which the amounts have been recorded, with no regard to refusals. -/
def recordAll (cs : List Commodity) : Turnover := cs.foldl (fun t c => (t.record c).1) empty

theorem recordAll_concat (cs : List Commodity) (c : Commodity) :
    recordAll (cs ++ [c]) = ((recordAll cs).record c).1 := by
  rw [recordAll, List.foldl_append]
  rfl

theorem exists_foldlM_post_of_recordAll {cs : List Commodity}
    (hexact : ∀ n, ExactRange (named n cs)) :
    ∃ ds : List Commodity, ds.Sublist cs ∧ ds.foldlM post empty = .ok (recordAll cs) := by
  induction cs using List.reverseRecOn with
  | nil => exact ⟨[], List.Sublist.refl _, rfl⟩
  | append_singleton cs c ih =>
    obtain ⟨ds, hsub, hds⟩ := ih fun n =>
      (hexact n).sublist ((List.sublist_append_left cs [c]).filter _)
    have hmore := hsub.append_right [c]
    rw [recordAll_concat]
    rcases record_cases hds fun n => (hexact n).sublist (hmore.filter _) with
      ⟨-, e, hrefused⟩ | ⟨-, t', hposted, ht'⟩
    · rw [hrefused]
      exact ⟨ds, hsub.trans (List.sublist_append_left cs [c]), hds⟩
    · rw [hposted]
      exact ⟨ds ++ [c], hmore, ht'⟩

/-- Amounts in the exact range that are recorded one after the other leave a consistent turnover.
One is refused exactly if it clashes, and then the turnover stays as it is. -/
theorem recordAll_consistent {cs : List Commodity} (hexact : ∀ n, ExactRange (named n cs)) :
    (recordAll cs).Consistent ∧ ∀ before c after, cs = before ++ c :: after →
      ((∃ e, ((recordAll before).record c).2 = some e) ↔ (recordAll before).Clashes c) ∧
        ∀ e, ((recordAll before).record c).2 = some e →
          ((recordAll before).record c).1 = recordAll before := by
  constructor
  · obtain ⟨ds, hsub, hds⟩ := exists_foldlM_post_of_recordAll hexact
    exact consistent_of_foldlM_post hds fun n => (hexact n).sublist (hsub.filter _)
  · rintro before c after rfl
    have hbefore : ∀ n, ExactRange (named n before) := fun n =>
      (hexact n).sublist ((List.sublist_append_left before _).filter _)
    obtain ⟨ds, hsub, hds⟩ := exists_foldlM_post_of_recordAll hbefore
    have hmore : (ds ++ [c]).Sublist (before ++ c :: after) :=
      hsub.append ((List.nil_sublist after).cons_cons c)
    rcases record_cases hds fun n => (hexact n).sublist (hmore.filter _) with
      ⟨hclash, e, hrefused⟩ | ⟨hclash, t', hposted, -⟩
    · rw [hrefused]
      exact ⟨iff_of_true ⟨e, rfl⟩ hclash, fun _ _ => rfl⟩
    · rw [hposted]
      exact ⟨iff_of_false (fun ⟨e, he⟩ => by cases he) hclash, fun e he => by cases he⟩

/-- Of three amounts the second one is written differently: it is refused, the others are kept. -/
theorem recordAll_consistent_refusing :
    let one : Commodity := .plain "USD" .one
    let other : Commodity := .ofCurrency "USD" .one
    let cs := [one, other, one.invert]
    (∀ n, ExactRange (named n cs)) ∧ (recordAll cs).Consistent ∧ (recordAll [one]).Clashes other ∧
      ∃ e, ((recordAll [one]).record other).2 = some e ∧
        ((recordAll [one]).record other).1 = recordAll [one] := by
  intro one other cs
  have hall : ExactRange cs := by decide +kernel
  have hexact : ∀ n, ExactRange (named n cs) := hall.byName
  obtain ⟨hconsistent, hcalls⟩ := recordAll_consistent hexact
  obtain ⟨hrefused, hkept⟩ := hcalls [one] other [one.invert] rfl
  have hclash : (recordAll [one]).Clashes other := ⟨one, by decide +kernel, by decide +kernel⟩
  obtain ⟨e, he⟩ := hrefused.mpr hclash
  exact ⟨hexact, hconsistent, hclash, e, he, hkept e he⟩

end Turnover

end Daybook
