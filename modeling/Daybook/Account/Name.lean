import Daybook.Text.Basic

/-!
# Account names

The name of an account is a path of segments with colons between them. Main statements: the parent
is the name before the last colon (`parent?_eq_some`), and the ancestors of a name are what stands
before its colons (`mem_ancestors_iff`).
-/

namespace Daybook.AccountName

open Daybook.Text

def isSeparator (c : Char) : Bool := c = ':'

def parent? (name : String) : Option String :=
  (cutLast? isSeparator name.toList).map fun (before, _) => String.ofList before

/-- What stands before the separators of a text, shortest first. -/
def stems : List Char → List (List Char)
  | [] => []
  | c :: rest =>
    let longer := (stems rest).map (c :: ·)
    if isSeparator c then [] :: longer else longer

/-- The accounts above an account, the nearest first. -/
def ancestors (name : String) : List String :=
  ((stems name.toList).map String.ofList).reverse

def depth (name : String) : Nat := (pieces isSeparator name.toList).length

/-- The name of `name` beneath `root`; an empty one adds nothing to the other. -/
def join (root name : String) : String :=
  if root = "" then name else if name = "" then root else root ++ ":" ++ name

/-- Whether the account is `root` or lies beneath it. -/
def isWithin (name root : String) : Bool :=
  name = root ||
    match dropStart? root.toList name.toList with
    | some (c :: _) => isSeparator c
    | _ => false

theorem mem_stems_iff {s cs : List Char} : s ∈ stems cs ↔ ∃ rest, cs = s ++ ':' :: rest := by
  induction cs generalizing s with
  | nil => simp [stems]
  | cons c cs ih =>
    by_cases hc : c = ':'
    · subst hc
      simp only [stems, isSeparator, decide_true, if_true, List.mem_cons, List.mem_map, ih]
      constructor
      · rintro (rfl | ⟨t, ⟨rest, rfl⟩, rfl⟩)
        · exact ⟨cs, rfl⟩
        · exact ⟨rest, rfl⟩
      · rintro ⟨rest, h⟩
        cases s with
        | nil => exact .inl rfl
        | cons d t =>
          simp only [List.cons_append, List.cons.injEq] at h
          obtain ⟨rfl, rfl⟩ := h
          exact .inr ⟨t, ⟨rest, rfl⟩, rfl⟩
    · simp only [stems, isSeparator, hc, decide_false, Bool.false_eq_true, if_false, List.mem_map,
        ih]
      constructor
      · rintro ⟨t, ⟨rest, rfl⟩, rfl⟩
        exact ⟨rest, rfl⟩
      · rintro ⟨rest, h⟩
        cases s with
        | nil =>
          simp only [List.nil_append, List.cons.injEq] at h
          exact absurd h.1 hc
        | cons d t =>
          simp only [List.cons_append, List.cons.injEq] at h
          obtain ⟨rfl, rfl⟩ := h
          exact ⟨t, ⟨rest, rfl⟩, rfl⟩

theorem mem_ancestors_iff {p name : String} :
    p ∈ ancestors name ↔ ∃ rest, name.toList = p.toList ++ ':' :: rest := by
  simp only [ancestors, List.mem_reverse, List.mem_map, mem_stems_iff]
  constructor
  · rintro ⟨s, ⟨rest, h⟩, rfl⟩
    exact ⟨rest, by simpa using h⟩
  · rintro ⟨rest, h⟩
    exact ⟨p.toList, ⟨rest, h⟩, String.ofList_toList⟩

theorem parent?_eq_some {p name : String} (h : parent? name = some p) :
    ∃ last, name.toList = p.toList ++ ':' :: last ∧ ':' ∉ last := by
  simp only [parent?, cutLast?, Option.map_map, Option.map_eq_some_iff, Function.comp] at h
  obtain ⟨⟨last, before⟩, hcut, rfl⟩ := h
  obtain ⟨c, hc, hrev⟩ := cut?_eq_some hcut
  simp only [isSeparator, decide_eq_true_eq] at hc
  subst hc
  refine ⟨last.reverse, ?_, ?_⟩
  · have := congrArg List.reverse hrev
    simpa using this
  · intro hmem
    have := not_mem_of_cut? hcut ':' (by simpa using hmem)
    simp [isSeparator] at this

end Daybook.AccountName
