import Daybook.Journal.Directive
import Mathlib.Data.List.Infix
import Mathlib.Data.List.Induction

/-!
# Nested roots

A root that is applied holds up to the end that belongs to it. Which roots hold behind some
directives can be told without a stack: those behind which no part of the directives ends more than
it applies (`openRoots`). A stack that each directive shifts agrees with this
(`shiftRoots_openRoots`): it can be kept as long as the directives are nested, and shows the open
roots.
-/

namespace Daybook

def Directive.root? : Directive → Option String
  | .applyAccount root => some root
  | _ => none

def Directive.isStop (d : Directive) : Bool := d = .stop

def applyCount (ds : List (Spanned Directive)) : Nat := ds.countP (·.value.root?.isSome)

def endCount (ds : List (Spanned Directive)) : Nat := ds.countP (·.value.isStop)

/-- No more roots are ended than applied, up to any place. -/
def Nested (ds : List (Spanned Directive)) : Prop :=
  ∀ part ∈ ds.inits, endCount part ≤ applyCount part

instance (ds : List (Spanned Directive)) : Decidable (Nested ds) :=
  inferInstanceAs (Decidable (∀ part ∈ ds.inits, endCount part ≤ applyCount part))

/-- The roots that hold behind the directives, the outermost first: those that have been applied and
behind which the directives are nested, so that none of them is the end of that root. -/
def openRoots : List (Spanned Directive) → List String
  | [] => []
  | d :: rest => match d.value.root? with
    | some root => if Nested rest then root :: openRoots rest else openRoots rest
    | none => openRoots rest

/-! ## The stack of roots -/

/-- What the roots become at a directive, which may end none if none is applied. -/
def Directive.shiftRoots (d : Directive) (roots : List String) : Option (List String) :=
  match d.root? with
  | some root => some (roots ++ [root])
  | none =>
    if d.isStop then if roots.isEmpty then none else some roots.dropLast
    else some roots

/-- How many roots the directives end that have been applied before them. -/
def deficit : List (Spanned Directive) → Nat
  | [] => 0
  | d :: rest => match d.value.root? with
    | some _ => deficit rest - 1
    | none => if d.value.isStop then deficit rest + 1 else deficit rest

theorem Directive.root_cases (d : Directive) :
    (∃ root, d.root? = some root ∧ d.isStop = false) ∨ (d.root? = none ∧ d.isStop = true) ∨
      (d.root? = none ∧ d.isStop = false) := by
  cases d <;> simp [root?, isStop]

theorem deficit_le_iff (ds : List (Spanned Directive)) (k : Nat) :
    deficit ds ≤ k ↔ ∀ part ∈ ds.inits, endCount part ≤ applyCount part + k := by
  induction ds generalizing k with
  | nil => simp [deficit, endCount, applyCount]
  | cons d ds ih =>
    have hnil : endCount [] ≤ applyCount [] + k := Nat.zero_le _
    rw [List.inits_cons, List.forall_mem_cons, List.forall_mem_map, and_iff_right hnil, deficit]
    simp only [endCount, applyCount, List.countP_cons] at ih ⊢
    rcases d.value.root_cases with ⟨root, hroot, hstop⟩ | ⟨hroot, hstop⟩ | ⟨hroot, hstop⟩
    · simp only [hroot, hstop, Option.isSome_some, if_true, Bool.false_eq_true, if_false]
      rw [Nat.sub_le_iff_le_add, ih]
      exact forall₂_congr fun part _ => by omega
    · simp only [hroot, hstop, Option.isSome_none, if_true, Bool.false_eq_true, if_false]
      cases k with
      | zero =>
        refine iff_of_false (by omega) fun h => ?_
        have hempty := h [] (by simp)
        simp at hempty
      | succ k =>
        rw [Nat.add_le_add_iff_right, ih]
        exact forall₂_congr fun part _ => by omega
    · simp only [hroot, hstop, Option.isSome_none, Bool.false_eq_true, if_false]
      rw [ih]
      exact forall₂_congr fun part _ => by omega

theorem nested_iff (ds : List (Spanned Directive)) : Nested ds ↔ deficit ds = 0 := by
  rw [← Nat.le_zero, deficit_le_iff]
  rfl

/-- The roots after directives, begun with some roots. -/
def rootsAfter (roots : List String) (ds : List (Spanned Directive)) : Option (List String) :=
  ds.foldlM (fun roots d => d.value.shiftRoots roots) roots

theorem rootsAfter_eq (roots : List String) (ds : List (Spanned Directive)) :
    rootsAfter roots ds = if deficit ds ≤ roots.length
      then some (roots.take (roots.length - deficit ds) ++ openRoots ds) else none := by
  induction ds generalizing roots with
  | nil => simp [rootsAfter, deficit, openRoots]
  | cons d ds ih =>
    have hcons : rootsAfter roots (d :: ds) = d.value.shiftRoots roots >>= (rootsAfter · ds) := rfl
    rw [hcons, deficit, openRoots, Directive.shiftRoots]
    rcases d.value.root_cases with ⟨root, hroot, -⟩ | ⟨hroot, hstop⟩ | ⟨hroot, hstop⟩
    · simp only [hroot, Option.bind_eq_bind, Option.bind_some, ih, List.length_append,
        List.length_singleton]
      by_cases hnested : Nested ds
      · rw [if_pos hnested]
        rw [nested_iff] at hnested
        have hall : (roots ++ [root]).take (roots.length + 1) = roots ++ [root] :=
          List.take_of_length_le (by simp)
        simp [hnested, hall]
      · rw [if_neg hnested]
        rw [nested_iff] at hnested
        have hle : roots.length + 1 - deficit ds ≤ roots.length := by omega
        rw [List.take_append_of_le_length hle]
        have hsub : roots.length - (deficit ds - 1) = roots.length + 1 - deficit ds := by omega
        rw [hsub]
        exact if_congr (by omega) rfl rfl
    · simp only [hroot, hstop, if_true]
      rcases List.eq_nil_or_concat roots with rfl | ⟨init, last, rfl⟩
      · simp
      · simp [ih, List.take_append]
    · simp only [hroot, hstop, Bool.false_eq_true, if_false, Option.bind_eq_bind,
        Option.bind_some, ih]

theorem shiftRoots_openRoots {ds : List (Spanned Directive)} (h : Nested ds)
    (d : Spanned Directive) : d.value.shiftRoots (openRoots ds) =
      if Nested (ds ++ [d]) then some (openRoots (ds ++ [d])) else none := by
  have hall := rootsAfter_eq [] (ds ++ [d])
  have hbefore := rootsAfter_eq [] ds
  rw [nested_iff] at h
  simp only [List.length_nil, Nat.le_zero, List.take_nil, List.nil_append, ← nested_iff] at hall
  simp only [h, List.length_nil, Nat.le_zero, if_true, List.take_nil, List.nil_append] at hbefore
  rw [← hall, rootsAfter, List.foldlM_append]
  rw [rootsAfter] at hbefore
  rw [hbefore]
  simp

theorem length_rootsAfter {roots roots' : List String} {ds : List (Spanned Directive)}
    (h : rootsAfter roots ds = some roots') :
    roots'.length + endCount ds = roots.length + applyCount ds := by
  induction ds generalizing roots with
  | nil =>
    obtain rfl := Option.some.inj h
    rfl
  | cons d ds ih =>
    have hcons : rootsAfter roots (d :: ds) = d.value.shiftRoots roots >>= (rootsAfter · ds) := rfl
    rw [hcons, Option.bind_eq_bind, Option.bind_eq_some_iff] at h
    obtain ⟨m, hm, h⟩ := h
    have hrest := ih h
    simp only [endCount, applyCount, List.countP_cons] at hrest ⊢
    rw [Directive.shiftRoots] at hm
    rcases d.value.root_cases with ⟨root, hroot, hstop⟩ | ⟨hroot, hstop⟩ | ⟨hroot, hstop⟩
    · simp only [hroot, Option.some.injEq] at hm
      subst hm
      simp only [hroot, hstop, List.length_append, List.length_singleton, Option.isSome_some,
        if_true, Bool.false_eq_true, if_false] at hrest ⊢
      omega
    · simp only [hroot, hstop, if_true] at hm
      split at hm
      · cases hm
      · rename_i hne
        obtain rfl := Option.some.inj hm
        rw [List.isEmpty_iff] at hne
        have hpos := List.length_pos_iff.mpr hne
        simp only [hroot, hstop, List.length_dropLast, Option.isSome_none, if_true,
          Bool.false_eq_true, if_false] at hrest ⊢
        omega
    · simp only [hroot, hstop, Bool.false_eq_true, if_false, Option.some.injEq] at hm
      subst hm
      simp only [hroot, hstop, Option.isSome_none, Bool.false_eq_true, if_false] at hrest ⊢
      omega

theorem length_openRoots {ds : List (Spanned Directive)} (h : Nested ds) :
    (openRoots ds).length + endCount ds = applyCount ds := by
  have hroots := rootsAfter_eq [] ds
  rw [nested_iff] at h
  simp only [h, List.length_nil, Nat.le_zero, if_true, List.take_nil, List.nil_append] at hroots
  have hlength := length_rootsAfter hroots
  rwa [List.length_nil, Nat.zero_add] at hlength

theorem Nested.of_append {ds ds' : List (Spanned Directive)} (h : Nested (ds ++ ds')) :
    Nested ds := fun part hpart =>
  h part (List.mem_inits _ _ |>.mpr (((List.mem_inits _ _).mp hpart).trans (List.prefix_append ..)))

theorem exists_break {ds : List (Spanned Directive)} (h : ¬Nested ds) :
    ∃ before d after, ds = before ++ d :: after ∧ Nested before ∧ ¬Nested (before ++ [d]) := by
  induction ds using List.reverseRecOn with
  | nil => exact absurd (by decide) h
  | append_singleton ds d ih =>
    by_cases hds : Nested ds
    · exact ⟨ds, d, [], rfl, hds, h⟩
    · obtain ⟨before, x, after, rfl, hbefore, hx⟩ := ih hds
      exact ⟨before, x, after ++ [d], by simp, hbefore, hx⟩

end Daybook
