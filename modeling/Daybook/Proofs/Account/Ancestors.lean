import Daybook.Proofs.Account.Path
import Mathlib.Data.List.Chain

/-!
# Climbing from an account

The accounts above an account are met by going from parent to parent (`parent_induction`). Main
statement: what is met on the way up are, nearest first, the other accounts that the name lies within,
one for each separator of the name, whatever text it is (`ancestors_climbs`).
-/

namespace Daybook.AccountName

open Daybook.Text

variable {name p : String}

/-! ## From parent to parent -/

theorem length_lt_of_parent? (h : parent? name = some p) : p.length < name.length := by
  obtain ⟨last, hname, -⟩ := parent?_eq_some h
  have hlength := congrArg List.length hname
  rw [List.length_append, List.length_cons, String.length_toList, String.length_toList] at hlength
  omega

theorem parent_induction {P : String → Prop} (top : ∀ name, parent? name = none → P name)
    (below : ∀ name p, parent? name = some p → P p → P name) (name : String) : P name := by
  induction hn : name.length using Nat.strongRecOn generalizing name with
  | ind n ih =>
    cases hparent : parent? name with
    | none => exact top name hparent
    | some p =>
      have hlt := length_lt_of_parent? hparent
      exact below name p hparent (ih p.length (hn ▸ hlt) p rfl)

theorem depth_of_parent? (h : parent? name = some p) : depth name = depth p + 1 := by
  obtain ⟨last, hname, hlast⟩ := parent?_eq_some h
  have hsegment : ∀ c ∈ last, isSeparator c = false := by
    intro c hc
    refine decide_eq_false ?_
    rintro rfl
    exact hlast hc
  rw [depth, hname, pieces_append_cons rfl, pieces_eq_singleton hsegment, List.length_append]
  rfl

theorem depth_of_parent?_eq_none (h : parent? name = none) : depth name = 1 := by
  rw [parent?, Option.map_eq_none_iff, cutLast?, Option.map_eq_none_iff] at h
  have hsegment : ∀ c ∈ name.toList, isSeparator c = false := fun c hc =>
    not_mem_of_cut?_eq_none h c (List.mem_reverse.mpr hc)
  rw [depth, pieces_eq_singleton hsegment]
  rfl

theorem length_ancestors (name : String) : (ancestors name).length + 1 = depth name := by
  induction name using parent_induction with
  | top name h => rw [ancestors_of_parent?_eq_none h, depth_of_parent?_eq_none h, List.length_nil]
  | below name p h ih =>
    rw [ancestors_of_parent? h, depth_of_parent? h, ← ih, List.length_cons]

theorem isChain_path (name : String) : (path name).IsChain fun n p => parent? n = some p := by
  induction name using parent_induction with
  | top name h =>
    rw [path, ancestors_of_parent?_eq_none h]
    exact .singleton name
  | below name p h ih =>
    rw [path, ancestors_of_parent? h]
    exact .cons_cons h ih

theorem parent?_getLast_path (name : String) :
    ∀ top ∈ (path name).getLast?, parent? top = none := by
  induction name using parent_induction with
  | top name h =>
    rw [path, ancestors_of_parent?_eq_none h]
    rintro top htop
    obtain rfl := Option.some.inj htop
    exact h
  | below name p h ih =>
    rw [path, ancestors_of_parent? h, List.getLast?_cons_cons]
    exact ih

theorem pairwise_length_path (name : String) :
    (path name).Pairwise fun n p => p.length < n.length := by
  have hshorter : (path name).IsChain fun n p => p.length < n.length :=
    (isChain_path name).imp fun _ _ => length_lt_of_parent?
  have hlengths : ((path name).map String.length).IsChain (· > ·) :=
    List.isChain_map_of_isChain String.length (fun _ _ h => h) hshorter
  exact List.pairwise_map.mp (List.isChain_iff_pairwise.mp hlengths)

/-! ## Beneath a root -/

theorem isWithin_join (hroot : p ≠ "") (name : String) : isWithin (join p name) p = true := by
  rw [join, if_neg hroot]
  split
  · exact isWithin_refl p
  · exact isWithin_iff.mpr (.inr ⟨name.toList, by simp⟩)

/-! ## The accounts above -/

/-- The names are those that one meets when climbing from an account to the top: the other names that
it lies within, each one once and the longest first, where each name is the parent of the one before
it and the last one has no parent. -/
structure Climbs (name : String) (above : List String) : Prop where
  within : ∀ p, p ∈ above ↔ p ≠ name ∧ isWithin name p = true
  distinct : above.Nodup
  shorter : above.Pairwise fun n p => p.length < n.length
  segments : above.length + 1 = depth name
  linked : (name :: above).IsChain fun n p => parent? n = some p
  topmost : ∀ top ∈ (name :: above).getLast?, parent? top = none

/-- The ancestors of an account are what one meets when climbing from it, and to lie within an account
is to be it or to have it among the ancestors: whatever is read beneath a root lies within it, every
account lies within itself, and what lies within an account lies within all that this one lies
within. -/
theorem ancestors_climbs (name : String) :
    Climbs name (ancestors name) ∧ (∀ root ≠ "", isWithin (join root name) root = true) ∧
      isWithin name name = true ∧
      ∀ a b, isWithin name a = true → isWithin a b = true → isWithin name b = true := by
  refine ⟨⟨fun p => ?_, ?_, ?_, length_ancestors name, isChain_path name,
    parent?_getLast_path name⟩, fun root hroot => isWithin_join hroot name, isWithin_refl name,
    fun a b => isWithin_trans⟩
  · rw [← mem_path_iff, path, List.mem_cons]
    constructor
    · intro hp
      refine ⟨?_, .inr hp⟩
      rintro rfl
      exact not_mem_ancestors p hp
    · rintro ⟨hne, hp⟩
      exact hp.resolve_left hne
  · exact (List.nodup_cons.mp (nodup_path name)).2
  · exact (List.pairwise_cons.mp (pairwise_length_path name)).2

/-- Empty segments at either end and in between count like others. -/
example : ancestors ":a::ß:" = [":a::ß", ":a:", ":a", ""] ∧ depth ":a::ß:" = 5 := by decide

end Daybook.AccountName
