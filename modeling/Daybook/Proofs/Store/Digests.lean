import Daybook.Proofs.NameMap
import Daybook.Proofs.Store.FirstPass
import Daybook.Proofs.Store.Kept
import Mathlib.Data.List.Induction

/-!
# Digests that have been seen before

`repeats` is the number of entries of a list that stand in it earlier as well. A store counts how
often it has seen each digest. Main statement: after a run these counts are those of the digests of
the written transactions, and the counts less one sum up to the number of repeats
(`Filling.Admits.tallies`).
-/

namespace Daybook

def Directive.transaction? : Directive → Option Transaction
  | .transaction t => some t
  | _ => none

theorem Directive.transaction?_of_ne {d : Directive} (h : ∀ t, d ≠ .transaction t) :
    d.transaction? = none := by
  cases d
  case transaction t => exact absurd rfl (h t)
  all_goals rfl

/-- The transactions among the items, in order. -/
def Journal.written (ds : List (Spanned Directive)) : List Transaction :=
  ds.filterMap (·.value.transaction?)

/-- The digests of the transactions among the items, as far as they have any. -/
def Journal.digests (ds : List (Spanned Directive)) : List String :=
  ((written ds).map (·.digest)).filter (· ≠ "")

namespace Journal

theorem written_concat (ds : List (Spanned Directive)) (d : Spanned Directive) :
    written (ds ++ [d]) = written ds ++ d.value.transaction?.toList := by
  rw [written, List.filterMap_append]
  refine congrArg (_ ++ ·) ?_
  cases htransaction : d.value.transaction? with
  | none => exact List.filterMap_cons_none htransaction
  | some t => exact List.filterMap_cons_some htransaction

theorem digests_concat (ds : List (Spanned Directive)) (d : Spanned Directive) :
    digests (ds ++ [d]) =
      digests ds ++ (d.value.transaction?.toList.map (·.digest)).filter (· ≠ "") := by
  rw [digests, written_concat, List.map_append, List.filter_append, digests]

end Journal

/-- The number of entries that stand earlier in the list as well. -/
def repeats {α : Type} [DecidableEq α] (l : List α) : Nat :=
  (List.range l.length).countP fun j => ∃ i < j, l[i]? = l[j]?

section

variable {α β : Type} [DecidableEq α] [DecidableEq β]

theorem repeats_concat (l : List α) (x : α) :
    repeats (l ++ [x]) = repeats l + if x ∈ l then 1 else 0 := by
  have hbefore : ∀ j ∈ List.range l.length,
      (decide (∃ i < j, (l ++ [x])[i]? = (l ++ [x])[j]?) = true ↔
        decide (∃ i < j, l[i]? = l[j]?) = true) := by
    intro j hj
    have hj := List.mem_range.mp hj
    rw [decide_eq_true_iff, decide_eq_true_iff]
    refine exists_congr fun i => and_congr_right fun hi => ?_
    rw [List.getElem?_append_left hj, List.getElem?_append_left (Nat.lt_trans hi hj)]
  have hlast : (∃ i < l.length, (l ++ [x])[i]? = (l ++ [x])[l.length]?) ↔ x ∈ l := by
    rw [List.getElem?_concat_length, List.mem_iff_getElem?]
    constructor
    · rintro ⟨i, hi, hx⟩
      exact ⟨i, by rwa [List.getElem?_append_left hi] at hx⟩
    · rintro ⟨i, hx⟩
      have hi := (List.getElem?_eq_some_iff.mp hx).1
      exact ⟨i, hi, by rwa [List.getElem?_append_left hi]⟩
  rw [repeats, List.length_append, List.length_singleton, List.range_succ, List.countP_append,
    List.countP_congr hbefore, List.countP_singleton]
  simp only [decide_eq_true_eq, hlast]
  rfl

theorem repeats_map {f : α → β} {l : List α} (h : ∀ a ∈ l, ∀ b ∈ l, f a = f b → a = b) :
    repeats (l.map f) = repeats l := by
  induction l using List.reverseRecOn with
  | nil => rfl
  | append_singleton l x ih =>
    have hl : ∀ a ∈ l, ∀ b ∈ l, f a = f b → a = b := fun a ha b hb =>
      h a (List.mem_append_left _ ha) b (List.mem_append_left _ hb)
    have hx : f x ∈ l.map f ↔ x ∈ l := by
      refine ⟨fun hmem => ?_, List.mem_map_of_mem⟩
      obtain ⟨a, ha, hax⟩ := List.mem_map.mp hmem
      rwa [← h a (List.mem_append_left _ ha) x (by simp) hax]
    rw [List.map_append, List.map_singleton, repeats_concat, repeats_concat, ih hl]
    simp only [hx]

end

/-- The map says how often each name stands in the list, and the numbers less one sum up to the
number of repeats. -/
structure NameMap.Tallies (m : NameMap Nat) (l : List String) : Prop where
  found : ∀ name, m.find? name = if name ∈ l then some (l.count name) else none
  surplus : (m.values.map (· - 1)).sum = repeats l

theorem NameMap.tallies_empty : NameMap.empty.Tallies [] := ⟨fun _ => rfl, rfl⟩

namespace NameMap.Tallies

variable {m : NameMap Nat} {l : List String}

theorem getD_find? (h : m.Tallies l) (name : String) : (m.find? name).getD 0 = l.count name := by
  rw [h.found]
  split
  case isTrue => rfl
  case isFalse hname => exact (List.count_eq_zero.mpr hname).symm

theorem concat (h : m.Tallies l) (name : String) :
    (m.insert name ((m.find? name).getD 0 + 1)).Tallies (l ++ [name]) := by
  rw [h.getD_find?]
  refine ⟨fun other => ?_, ?_⟩
  · rw [find?_insert]
    by_cases hother : name = other
    · subst hother
      rw [if_pos rfl, if_pos (by simp), List.count_append, List.count_singleton_self]
    · have hmem : other ∈ l ++ [name] ↔ other ∈ l := by simp [Ne.symm hother]
      have hcount : (l ++ [name]).count other = l.count other := by
        rw [List.count_append, List.count_singleton, if_neg (by simpa using hother), Nat.add_zero]
      simp only [if_neg hother, h.found, hmem, hcount]
  · have hsum := sum_map_values_insert m name (l.count name + 1) (· - 1)
    rw [repeats_concat, ← h.surplus]
    rw [h.found] at hsum
    by_cases hname : name ∈ l
    · have hpos := List.count_pos_iff.mpr hname
      rw [if_pos hname] at hsum ⊢
      simp only [Option.map_some, Option.getD_some] at hsum
      omega
    · rw [if_neg hname] at hsum ⊢
      simp only [Option.map_none, Option.getD_none] at hsum
      rw [List.count_eq_zero.mpr hname] at hsum ⊢
      omega

end NameMap.Tallies

theorem Store.digestsWith_of_tallies {s : Store} {l : List String} (h : s.digests.Tallies l)
    (t : Transaction) : (s.digestsWith t).Tallies (l ++ [t.digest].filter (· ≠ "")) := by
  rw [digestsWith]
  by_cases hdigest : t.digest = ""
  · rw [if_pos hdigest, List.filter_cons_of_neg (by simpa using hdigest), List.filter_nil,
      List.append_nil]
    exact h
  · rw [if_neg hdigest, List.filter_cons_of_pos (by simpa using hdigest), List.filter_nil]
    exact h.concat t.digest

namespace Filling

variable {σ : Type} {r : Reporter σ} {p q : Progress σ} {ds : List (Spanned Directive)}

theorem Admits.tallies {l : List String} (h : Admits r p ds q) (hp : p.store.digests.Tallies l) :
    q.store.digests.Tallies (l ++ Journal.digests ds) := by
  induction h with
  | start => exact (List.append_nil l).symm ▸ hp
  | @next ds d m q _ hd ih =>
    rw [Journal.digests_concat, ← List.append_assoc]
    rcases leads_takeIn hd with ⟨t, t', hvalue, hkept, hq⟩ | ⟨hvalue, hbooks⟩
    · have htallies := Store.digestsWith_of_tallies ih t'
      rw [Store.digest_of_kept? hkept] at htallies
      rw [hvalue, hq]
      exact htallies
    · rw [Directive.transaction?_of_ne hvalue, hbooks, Store.entered_eq]
      exact (List.append_nil _).symm ▸ ih

end Filling

end Daybook
