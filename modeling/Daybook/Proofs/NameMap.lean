import Daybook.NameMap
import Mathlib.Algebra.GroupWithZero.Nat
import Mathlib.Data.List.Forall2

/-!
# Entries and look-ups

The entries of a map are what its look-ups find (`mem_entries_iff`), and so are its values and its
names. An insertion adds to a sum over the values (`sum_map_values_insert`). A map may have all its
values changed, which goes along with insertions (`map_insert`), and so does a comparison of two maps
value by value (`Rel.insert`).
-/

namespace Daybook.NameMap

variable {α β : Type}

theorem lookup_eq_none_of_lt {name : String} {l : List (String × α)}
    (h : ∀ e ∈ l, name < e.1) : lookup name l = none := by
  induction l with
  | nil => rfl
  | cons e rest ih =>
    have hlt := h e (by simp)
    rw [lookup, if_neg]
    · exact ih fun e he => h e (by simp [he])
    · rintro rfl
      exact String.lt_irrefl _ hlt

theorem mem_iff_lookup {l : List (String × α)} (hl : l.Pairwise (fun a b => a.1 < b.1))
    {name : String} {value : α} : (name, value) ∈ l ↔ lookup name l = some value := by
  induction l with
  | nil => simp [lookup]
  | cons e rest ih =>
    obtain ⟨hlt, hrest⟩ := List.pairwise_cons.mp hl
    rw [lookup, List.mem_cons, ih hrest]
    by_cases heq : e.1 = name
    · subst heq
      have hnone := lookup_eq_none_of_lt hlt
      simp only [hnone, if_true, Option.some.injEq]
      constructor
      · rintro (h | h)
        · rw [← h]
        · exact absurd h (by simp)
      · rintro rfl
        exact .inl rfl
    · rw [if_neg heq]
      refine or_iff_right ?_
      rintro rfl
      exact heq rfl

theorem mem_entries_iff {m : NameMap α} {name : String} {value : α} :
    (name, value) ∈ m.entries ↔ m.find? name = some value :=
  mem_iff_lookup m.sorted

theorem mem_values_iff {m : NameMap α} {value : α} :
    value ∈ m.values ↔ ∃ name, m.find? name = some value := by
  simp only [values, List.mem_map, Prod.exists, exists_eq_right, mem_entries_iff]

theorem contains_iff {m : NameMap α} {name : String} :
    m.contains name = true ↔ ∃ value, m.find? name = some value :=
  Option.isSome_iff_exists

@[simp] theorem find?_insert_self (m : NameMap α) (name : String) (value : α) :
    (m.insert name value).find? name = some value := by
  rw [find?_insert, if_pos rfl]

theorem find?_insert_of_ne (m : NameMap α) {name other : String} (value : α) (h : name ≠ other) :
    (m.insert name value).find? other = m.find? other := by
  rw [find?_insert, if_neg h]

theorem nodup_names (m : NameMap α) : m.names.Nodup := by
  refine List.pairwise_map.mpr (m.sorted.imp fun {a b} hlt => ?_)
  intro heq
  rw [heq] at hlt
  exact String.lt_irrefl _ hlt

theorem map_values_eq_names {m : NameMap α} {f : α → String}
    (h : ∀ name value, m.find? name = some value → f value = name) : m.values.map f = m.names := by
  rw [values, names, List.map_map]
  exact List.map_congr_left fun e he => h e.1 e.2 (mem_entries_iff.mp he)

theorem isEmpty_eq_false_iff {m : NameMap α} :
    m.isEmpty = false ↔ ∃ name value, m.find? name = some value := by
  simp only [← mem_entries_iff, isEmpty, List.isEmpty_eq_false_iff_exists_mem, Prod.exists]

theorem isEmpty_insert (m : NameMap α) (name : String) (value : α) :
    (m.insert name value).isEmpty = false :=
  isEmpty_eq_false_iff.mpr ⟨name, value, find?_insert_self m name value⟩

/-! ## Sums over the values -/

theorem sum_map_place {name : String} {l : List (String × α)}
    (hl : l.Pairwise (fun a b => a.1 < b.1)) (value : α) (f : α → Nat) :
    ((place name value l).map fun e => f e.2).sum + ((lookup name l).map f).getD 0 =
      (l.map fun e => f e.2).sum + f value := by
  induction l with
  | nil => simp [place, lookup]
  | cons e rest ih =>
    obtain ⟨hlt, hrest⟩ := List.pairwise_cons.mp hl
    by_cases hbefore : name < e.1
    · have hnone : lookup name (e :: rest) = none := by
        refine lookup_eq_none_of_lt (List.forall_mem_cons.mpr ⟨hbefore, fun x hx => ?_⟩)
        exact String.lt_trans hbefore (hlt x hx)
      rw [hnone, place, if_pos hbefore, List.map_cons, List.sum_cons, Nat.add_comm (f value)]
      rfl
    · rw [place, if_neg hbefore, lookup]
      by_cases heq : e.1 = name
      · rw [if_pos heq, if_pos heq]
        simp only [List.map_cons, List.sum_cons, Option.map_some, Option.getD_some]
        omega
      · have hsum := ih hrest
        rw [if_neg heq, if_neg heq]
        simp only [List.map_cons, List.sum_cons]
        omega

theorem sum_map_values_insert (m : NameMap α) (name : String) (value : α) (f : α → Nat) :
    ((m.insert name value).values.map f).sum + ((m.find? name).map f).getD 0 =
      (m.values.map f).sum + f value := by
  rw [values, values, List.map_map, List.map_map]
  exact sum_map_place m.sorted value f

/-! ## Changing the values -/

/-- The map with another value under each name. -/
def map (f : α → β) (m : NameMap α) : NameMap β :=
  ⟨m.entries.map fun e => (e.1, f e.2), List.pairwise_map.mpr m.sorted⟩

theorem lookup_map (f : α → β) (name : String) (l : List (String × α)) :
    lookup name (l.map fun e => (e.1, f e.2)) = (lookup name l).map f := by
  induction l with
  | nil => rfl
  | cons e l ih =>
    rw [List.map_cons, lookup, ih, lookup]
    split <;> rfl

@[simp] theorem find?_map (f : α → β) (m : NameMap α) (name : String) :
    (m.map f).find? name = (m.find? name).map f :=
  lookup_map f name m.entries

theorem map_place (f : α → β) (name : String) (value : α) (l : List (String × α)) :
    (place name value l).map (fun e => (e.1, f e.2)) =
      place name (f value) (l.map fun e => (e.1, f e.2)) := by
  induction l with
  | nil => rfl
  | cons e l ih =>
    simp only [place, List.map_cons]
    split
    · rfl
    · split
      · rfl
      · rw [List.map_cons, ih]

theorem map_insert (f : α → β) (m : NameMap α) (name : String) (value : α) :
    (m.insert name value).map f = (m.map f).insert name (f value) := by
  simp only [insert, map, map_place]

theorem map_foldl_insert (f : α → β) (m : NameMap α) (names : List String) (value : α) :
    (names.foldl (fun m name => m.insert name value) m).map f =
      names.foldl (fun m name => m.insert name (f value)) (m.map f) := by
  induction names generalizing m with
  | nil => rfl
  | cons name names ih => rw [List.foldl_cons, ih, map_insert, List.foldl_cons]

/-! ## Maps beside maps -/

/-- Two maps of the same names with related values. -/
def Rel (R : α → β → Prop) (m : NameMap α) (m' : NameMap β) : Prop :=
  List.Forall₂ (fun e e' => e'.1 = e.1 ∧ R e.2 e'.2) m.entries m'.entries

variable {R : α → β → Prop}

theorem rel_empty : Rel R empty empty := .nil

theorem rel_lookup {l : List (String × α)} {l' : List (String × β)}
    (h : List.Forall₂ (fun e e' => e'.1 = e.1 ∧ R e.2 e'.2) l l') (name : String) :
    Option.Rel R (lookup name l) (lookup name l') := by
  induction h with
  | nil => exact .none
  | cons he _ ih =>
    rw [lookup, lookup, he.1]
    split
    · exact .some he.2
    · exact ih

theorem Rel.find? {m : NameMap α} {m' : NameMap β} (h : Rel R m m') (name : String) :
    Option.Rel R (m.find? name) (m'.find? name) :=
  rel_lookup h name

theorem rel_place {l : List (String × α)} {l' : List (String × β)}
    (h : List.Forall₂ (fun e e' => e'.1 = e.1 ∧ R e.2 e'.2) l l') (name : String) {value : α}
    {value' : β} (hvalue : R value value') :
    List.Forall₂ (fun e e' => e'.1 = e.1 ∧ R e.2 e'.2) (place name value l)
      (place name value' l') := by
  induction h with
  | nil => exact .cons ⟨rfl, hvalue⟩ .nil
  | cons he hrest ih =>
    rw [place, place, he.1]
    split
    · exact .cons ⟨rfl, hvalue⟩ (.cons ⟨rfl, he.2⟩ hrest)
    split
    · exact .cons ⟨rfl, hvalue⟩ hrest
    · exact .cons ⟨rfl, he.2⟩ ih

theorem Rel.insert {m : NameMap α} {m' : NameMap β} (h : Rel R m m') (name : String) {value : α}
    {value' : β} (hvalue : R value value') :
    Rel R (m.insert name value) (m'.insert name value') :=
  rel_place h name hvalue

theorem Rel.values {m : NameMap α} {m' : NameMap β} (h : Rel R m m') :
    List.Forall₂ R m.values m'.values := by
  rw [NameMap.values, NameMap.values, List.forall₂_map_left_iff, List.forall₂_map_right_iff]
  exact h.imp fun _ _ he => he.2

end Daybook.NameMap
