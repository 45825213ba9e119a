/-!
# Finite maps from names

A map is the list of its entries in ascending order of the names, so that listing it gives the
order in which reports show it. Main statement: looking a name up after an insertion
(`find?_insert`).
-/

namespace Daybook

/-- A finite map from names, its entries in strictly ascending order of the names. -/
structure NameMap (α : Type) where
  entries : List (String × α)
  sorted : entries.Pairwise (fun a b => a.1 < b.1)
  deriving Repr, DecidableEq

namespace NameMap

variable {α : Type}

def empty : NameMap α := ⟨[], List.Pairwise.nil⟩

instance : EmptyCollection (NameMap α) := ⟨empty⟩

instance : Inhabited (NameMap α) := ⟨empty⟩

/-- The value that the first entry under the name has. -/
def lookup (name : String) : List (String × α) → Option α
  | [] => none
  | (n, v) :: rest => if n = name then some v else lookup name rest

/-- Puts the entry at its place in the order, in place of one of the same name. -/
def place (name : String) (value : α) : List (String × α) → List (String × α)
  | [] => [(name, value)]
  | (n, v) :: rest =>
    if name < n then (name, value) :: (n, v) :: rest
    else if n = name then (name, value) :: rest
    else (n, v) :: place name value rest

theorem mem_place {name : String} {value : α} {l : List (String × α)} {e : String × α}
    (h : e ∈ place name value l) : e = (name, value) ∨ e ∈ l := by
  induction l with
  | nil => simpa [place] using h
  | cons p rest ih =>
    simp only [place] at h
    split at h
    · simpa using h
    · split at h
      · rcases List.mem_cons.mp h with h | h
        · exact .inl h
        · exact .inr (List.mem_cons_of_mem _ h)
      · rcases List.mem_cons.mp h with h | h
        · exact .inr (by simp [h])
        · exact (ih h).imp id (List.mem_cons_of_mem _)

theorem lt_of_not_lt_of_ne {a b : String} (h : ¬a < b) (hne : b ≠ a) : b < a := by
  rcases Decidable.em (b < a) with hlt | hlt
  · exact hlt
  · exact absurd (String.le_antisymm h hlt) hne

theorem pairwise_place {name : String} {value : α} {l : List (String × α)}
    (h : l.Pairwise (fun a b => a.1 < b.1)) :
    (place name value l).Pairwise (fun a b => a.1 < b.1) := by
  induction l with
  | nil => simp [place]
  | cons p rest ih =>
    obtain ⟨hp, hrest⟩ := List.pairwise_cons.mp h
    simp only [place]
    split
    case isTrue hlt =>
      refine List.pairwise_cons.mpr ⟨fun e he => ?_, h⟩
      rcases List.mem_cons.mp he with rfl | he
      · exact hlt
      · exact String.lt_trans hlt (hp e he)
    case isFalse hlt =>
      split
      case isTrue heq => exact List.pairwise_cons.mpr ⟨heq ▸ hp, hrest⟩
      case isFalse hne =>
        refine List.pairwise_cons.mpr ⟨fun e he => ?_, ih hrest⟩
        rcases mem_place he with rfl | he
        · exact lt_of_not_lt_of_ne hlt hne
        · exact hp e he

theorem lookup_place (name : String) (value : α) (l : List (String × α)) (other : String) :
    lookup other (place name value l) = if name = other then some value else lookup other l := by
  induction l with
  | nil => simp [place, lookup]
  | cons p rest ih =>
    obtain ⟨n, v⟩ := p
    simp only [place]
    split
    · simp [lookup]
    · split
      case isTrue heq =>
        subst heq
        simp only [lookup]
        split <;> rfl
      case isFalse hne =>
        simp only [lookup, ih]
        split
        case isTrue hn =>
          rw [if_neg]
          intro h
          exact hne (hn.trans h.symm)
        case isFalse hn => rfl

def find? (m : NameMap α) (name : String) : Option α := lookup name m.entries

def contains (m : NameMap α) (name : String) : Bool := (m.find? name).isSome

/-- The map with the value under the name, in place of an earlier one. -/
def insert (m : NameMap α) (name : String) (value : α) : NameMap α :=
  ⟨place name value m.entries, pairwise_place m.sorted⟩

def names (m : NameMap α) : List String := m.entries.map (·.1)

def values (m : NameMap α) : List α := m.entries.map (·.2)

def size (m : NameMap α) : Nat := m.entries.length

def isEmpty (m : NameMap α) : Bool := m.entries.isEmpty

@[simp] theorem find?_empty (name : String) : (empty : NameMap α).find? name = none := rfl

theorem find?_insert (m : NameMap α) (name other : String) (value : α) :
    (m.insert name value).find? other = if name = other then some value else m.find? other :=
  lookup_place name value m.entries other

end NameMap

end Daybook
