import Daybook.Proofs.Commodity.Sum
import Daybook.Proofs.NameMap
import Daybook.Proofs.Result
import Daybook.Turnover

/-!
# Sums by name

A map that keeps every sum under its own name (`Keyed`) and takes in amounts one by one holds, under
each name, the total of the amounts of that name (`find?_of_sums?`). The names do not meet: the
amounts can be taken in exactly if those of each name have a total (`exists_sums?_iff`).
-/

namespace Daybook

open Commodity (addTo total? named)

namespace Turnover

/-- Every sum is kept under its own name. -/
def Keyed (sums : NameMap Commodity) : Prop := ∀ n c, sums.find? n = some c → c.name = n

theorem keyed_empty : Keyed .empty := fun n c h => by simp at h

theorem Keyed.insert {sums : NameMap Commodity} (h : Keyed sums) {n : String} {c : Commodity}
    (hc : c.name = n) : Keyed (sums.insert n c) := by
  intro other d hd
  rw [NameMap.find?_insert] at hd
  split at hd
  case isTrue heq =>
    obtain rfl := Option.some.inj hd
    rw [hc, heq]
  case isFalse => exact h other d hd

theorem accumulate_eq_ok_iff {sums sums' : NameMap Commodity} (h : Keyed sums) {c : Commodity} :
    accumulate sums c = .ok sums' ↔
      ∃ x, addTo (sums.find? c.name) c = .ok (some x) ∧ x.name = c.name ∧
        sums' = sums.insert c.name x := by
  rw [accumulate]
  cases hfind : sums.find? c.name with
  | none =>
    simp only [addTo, pure, Except.pure, Except.ok.injEq, Option.some.injEq]
    constructor
    · rintro rfl
      exact ⟨c, rfl, rfl, rfl⟩
    · rintro ⟨x, rfl, -, rfl⟩
      rfl
  | some sum =>
    have hname := h _ _ hfind
    cases hadd : sum.add c with
    | error e => simp [addTo, hadd, bind, Except.bind]
    | ok x =>
      obtain ⟨-, n, -, hx⟩ := Commodity.add_eq_ok_iff.mp hadd
      have hxname : x.name = c.name := by rw [hx, hname]
      simp only [addTo, hadd, hname, bind, Except.bind, pure, Except.pure, Except.ok.injEq]
      constructor
      · rintro rfl
        exact ⟨x, rfl, hxname, rfl⟩
      · rintro ⟨y, hy, -, rfl⟩
        obtain rfl : x = y := by simpa using hy
        rfl

theorem Keyed.accumulate {sums sums' : NameMap Commodity} (h : Keyed sums) {c : Commodity}
    (hok : accumulate sums c = .ok sums') : Keyed sums' := by
  obtain ⟨x, -, hname, rfl⟩ := (accumulate_eq_ok_iff h).mp hok
  exact h.insert hname

theorem find?_foldlM_accumulate {cs : List Commodity} {sums sums' : NameMap Commodity}
    (h : Keyed sums) (hok : cs.foldlM accumulate sums = .ok sums') :
    Keyed sums' ∧ ∀ n, (named n cs).foldlM addTo (sums.find? n) = .ok (sums'.find? n) := by
  induction cs generalizing sums with
  | nil =>
    obtain rfl : sums = sums' := by simpa [pure, Except.pure] using hok
    exact ⟨h, fun n => rfl⟩
  | cons c cs ih =>
    rw [List.foldlM_cons, Result.bind_eq_ok_iff] at hok
    obtain ⟨next, hc, hok⟩ := hok
    obtain ⟨x, hx, hname, rfl⟩ := (accumulate_eq_ok_iff h).mp hc
    obtain ⟨hkeyed, hfind⟩ := ih (h.insert hname) hok
    refine ⟨hkeyed, fun n => ?_⟩
    have hn := hfind n
    rw [Commodity.named_cons]
    by_cases heq : c.name = n
    · subst heq
      rw [if_pos rfl, List.foldlM_cons, hx]
      rw [NameMap.find?_insert_self] at hn
      exact hn
    · rw [if_neg heq]
      rwa [NameMap.find?_insert_of_ne _ _ heq] at hn

theorem exists_foldlM_accumulate {cs : List Commodity} {sums : NameMap Commodity} (h : Keyed sums)
    (hok : ∀ n, ∃ r, (named n cs).foldlM addTo (sums.find? n) = .ok r) :
    ∃ sums', cs.foldlM accumulate sums = .ok sums' := by
  induction cs generalizing sums with
  | nil => exact ⟨sums, rfl⟩
  | cons c cs ih =>
    have hsplit : ∀ n, named n (c :: cs) = if c.name = n then c :: named n cs else named n cs :=
      fun n => Commodity.named_cons n c cs
    obtain ⟨x, hx, hname⟩ : ∃ x, addTo (sums.find? c.name) c = .ok (some x) ∧ x.name = c.name := by
      obtain ⟨r, hr⟩ := hok c.name
      rw [hsplit, if_pos rfl, List.foldlM_cons, Result.bind_eq_ok_iff] at hr
      obtain ⟨o, hadd, -⟩ := hr
      obtain ⟨x, rfl, hname, -⟩ := Commodity.addTo_eq_ok hadd
      refine ⟨x, hadd, ?_⟩
      cases hfind : sums.find? c.name with
      | none => simpa [hfind] using hname
      | some sum => simpa [hfind, h _ _ hfind] using hname
    have hc := (accumulate_eq_ok_iff h).mpr ⟨x, hx, hname, rfl⟩
    obtain ⟨sums', hsums'⟩ := ih (h.insert hname) fun n => by
      obtain ⟨r, hr⟩ := hok n
      rw [hsplit] at hr
      by_cases heq : c.name = n
      · subst heq
        rw [if_pos rfl, List.foldlM_cons, hx] at hr
        exact ⟨r, by rw [NameMap.find?_insert_self]; exact hr⟩
      · rw [if_neg heq] at hr
        exact ⟨r, by rwa [NameMap.find?_insert_of_ne _ _ heq]⟩
    exact ⟨sums', by rw [List.foldlM_cons, hc]; exact hsums'⟩

def sums? (cs : List Commodity) : Except AmountError (NameMap Commodity) :=
  cs.foldlM accumulate .empty

theorem keyed_of_sums? {cs : List Commodity} {sums : NameMap Commodity} (h : sums? cs = .ok sums) :
    Keyed sums :=
  (find?_foldlM_accumulate keyed_empty h).1

theorem find?_of_sums? {cs : List Commodity} {sums : NameMap Commodity} (h : sums? cs = .ok sums)
    (n : String) : total? (named n cs) = .ok (sums.find? n) :=
  (find?_foldlM_accumulate keyed_empty h).2 n

theorem isSome_find?_of_sums? {cs : List Commodity} {sums : NameMap Commodity}
    (h : sums? cs = .ok sums) (n : String) :
    (sums.find? n).isSome = true ↔ named n cs ≠ [] := by
  rw [ne_eq, ← Commodity.total?_eq_none_iff (find?_of_sums? h n), ← Option.not_isSome_iff_eq_none,
    not_not]

theorem exists_find?_of_mem {cs : List Commodity} {sums : NameMap Commodity}
    (h : sums? cs = .ok sums) {c : Commodity} (hc : c ∈ cs) {n : String} (hname : c.name = n) :
    ∃ x, sums.find? n = some x := by
  have hne : named n cs ≠ [] := List.ne_nil_of_mem (Commodity.mem_named.mpr ⟨hc, hname⟩)
  exact Option.isSome_iff_exists.mp ((isSome_find?_of_sums? h n).mpr hne)

theorem currency_of_sums? {cs : List Commodity} {sums : NameMap Commodity} (h : sums? cs = .ok sums)
    {n : String} {x : Commodity} (hx : sums.find? n = some x) {c : Commodity} (hc : c ∈ cs)
    (hname : c.name = n) : c.currency = x.currency := by
  have htotal := find?_of_sums? h n
  rw [hx] at htotal
  exact (Commodity.similar_of_total? htotal c (Commodity.mem_named.mpr ⟨hc, hname⟩)).2

theorem exists_similar_of_sums? {cs : List Commodity} {sums : NameMap Commodity}
    (h : sums? cs = .ok sums) {n : String} {x : Commodity} (hx : sums.find? n = some x) :
    ∃ c ∈ cs, c.name = n ∧ c.currency = x.currency := by
  obtain ⟨c, hc⟩ := List.exists_mem_of_ne_nil _
    ((isSome_find?_of_sums? h n).mp (Option.isSome_of_eq_some hx))
  obtain ⟨hmem, hname⟩ := Commodity.mem_named.mp hc
  exact ⟨c, hmem, hname, currency_of_sums? h hx hmem hname⟩

theorem pairwise_values {sums : NameMap Commodity} (h : Keyed sums) :
    sums.values.Pairwise fun a b => a.name < b.name := by
  refine List.pairwise_map.mpr (sums.sorted.imp_of_mem fun {a b} ha hb hlt => ?_)
  rwa [h _ _ (NameMap.mem_entries_iff.mp ha), h _ _ (NameMap.mem_entries_iff.mp hb)]

theorem exists_sums?_iff {cs : List Commodity} :
    (∃ sums, sums? cs = .ok sums) ↔ ∀ n, ∃ r, total? (named n cs) = .ok r :=
  ⟨fun ⟨_, h⟩ n => ⟨_, find?_of_sums? h n⟩, fun h => exists_foldlM_accumulate keyed_empty h⟩

theorem exists_sums? {cs : List Commodity} (hagree : Commodity.Agree cs)
    (hexact : ∀ n, Commodity.ExactSums (named n cs)) : ∃ sums, sums? cs = .ok sums := by
  refine exists_sums?_iff.mpr fun n => ?_
  obtain ⟨r, hr, -⟩ := Commodity.total?_exact hagree (hexact n)
  exact ⟨r, hr⟩

/-- A sum by name that is in the exact range does not overflow, whether or not there is one. -/
theorem accumulate_ne_overflow {cs : List Commodity} {sums : NameMap Commodity}
    (h : sums? cs = .ok sums) {c : Commodity}
    (hexact : Commodity.ExactRange (named c.name (cs ++ [c]))) :
    accumulate sums c ≠ .error .overflow := by
  have hsplit : named c.name (cs ++ [c]) = named c.name cs ++ [c] := by
    rw [Commodity.named_append, Commodity.named_cons, if_pos rfl, Commodity.named_nil]
  rw [hsplit] at hexact
  rw [accumulate]
  cases hfind : sums.find? c.name with
  | none => exact fun hover => by cases hover
  | some sum =>
    have hvalue := Commodity.valueOf_of_total? (find?_of_sums? h c.name)
      (hexact.sublist (List.sublist_append_left ..)).exactSums
    rw [hfind, Commodity.valueOf_some] at hvalue
    obtain ⟨s, hs, hfits⟩ := hexact.fits
    have hsum := hfits _ (List.Sublist.refl _)
    rw [Commodity.sumOf_append, Commodity.sumOf_cons, Commodity.sumOf_nil, add_zero,
      ← hvalue] at hsum
    obtain ⟨n, hn, -⟩ := Decimal.value_add? hs hsum
    intro hover
    simp only [Result.bind_eq_error_iff, Commodity.add, hn, Commodity.settled] at hover
    obtain hadd | ⟨x, -, hx⟩ := hover
    · split at hadd <;> cases hadd
    · cases hx

theorem sums?_ne_overflow {cs : List Commodity}
    (hexact : ∀ n, Commodity.ExactRange (named n cs)) : sums? cs ≠ .error .overflow := by
  have hsums : Result.Ensures (fun sums => sums? cs = .ok sums) (· ≠ .overflow) (sums? cs) := by
    refine Result.Ensures.foldlM (I := fun done sums => sums? done = .ok sums)
      (fun done c sums hbegins hdone => ?_) rfl
    have hstep : sums? (done ++ [c]) = accumulate sums c := by
      rw [sums?, List.foldlM_append, show done.foldlM accumulate .empty = .ok sums from hdone]
      exact bind_pure (accumulate sums c)
    rw [hstep, Result.ensures_iff]
    refine ⟨fun _ hnext => hnext, fun e he hover => ?_⟩
    exact accumulate_ne_overflow hdone
      ((hexact c.name).sublist (hbegins.sublist.filter _)) (hover ▸ he)
  exact fun hover => (Result.ensures_iff.mp hsums).2 _ hover rfl

theorem agree_of_sums? {cs : List Commodity} {sums : NameMap Commodity}
    (h : sums? cs = .ok sums) : Commodity.Agree cs := by
  intro a ha b hb hab
  obtain ⟨x, hx⟩ := exists_find?_of_mem h ha rfl
  rw [currency_of_sums? h hx ha rfl, currency_of_sums? h hx hb hab.symm]

end Turnover

end Daybook
