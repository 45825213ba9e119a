import Daybook.Account.Name
import Daybook.Proofs.Text.Lines
import Mathlib.Tactic.ByContra

/-!
# The path of an account

A posting counts on the account that it names and on every account above. These are the accounts
that the name lies within (`mem_path_iff`), and each of them is met once (`nodup_path`), the parent
before what lies above it (`ancestors_of_parent?`). They form a
chain (`isWithin_or_isWithin`), so that among any accounts that a name lies within there is one
above all the others.
-/

namespace Daybook.AccountName

open Daybook.Text

/-- The account and all accounts above it. -/
def path (name : String) : List String := name :: ancestors name

theorem ancestors_trans {a b name : String} (h : a ∈ ancestors b) (hb : b ∈ ancestors name) :
    a ∈ ancestors name := by
  obtain ⟨rest, hrest⟩ := mem_ancestors_iff.mp h
  obtain ⟨rest', hrest'⟩ := mem_ancestors_iff.mp hb
  exact mem_ancestors_iff.mpr ⟨rest ++ ':' :: rest', by rw [hrest', hrest]; simp⟩

theorem path_subset_of_mem {n name : String} (h : n ∈ path name) :
    ∀ a ∈ path n, a ∈ path name := by
  rcases List.mem_cons.mp h with rfl | h
  · exact fun a ha => ha
  · intro a ha
    rcases List.mem_cons.mp ha with rfl | ha
    · exact List.mem_cons_of_mem _ h
    · exact List.mem_cons_of_mem _ (ancestors_trans ha h)

theorem mem_path_iff {root name : String} : root ∈ path name ↔ isWithin name root = true := by
  rw [path, List.mem_cons, isWithin, Bool.or_eq_true, decide_eq_true_eq, eq_comm]
  refine or_congr_right ?_
  rw [mem_ancestors_iff]
  constructor
  · rintro ⟨rest, hrest⟩
    rw [dropStart?_eq_some.mpr hrest]
    rfl
  · intro h
    split at h
    · rename_i c rest hdrop
      obtain rfl : c = ':' := by simpa [isSeparator] using h
      exact ⟨rest, dropStart?_eq_some.mp hdrop⟩
    · simp at h

theorem nodup_stems (cs : List Char) : (stems cs).Nodup := by
  induction cs with
  | nil => exact List.nodup_nil
  | cons c cs ih =>
    have hlonger : ((stems cs).map (c :: ·)).Nodup :=
      List.pairwise_map.mpr (ih.imp fun hne heq => hne (List.cons.inj heq).2)
    simp only [stems]
    split
    · exact List.nodup_cons.mpr ⟨by simp, hlonger⟩
    · exact hlonger

theorem not_mem_ancestors (name : String) : name ∉ ancestors name := by
  intro h
  obtain ⟨rest, hrest⟩ := mem_ancestors_iff.mp h
  have hlength := congrArg List.length hrest
  simp at hlength

theorem nodup_path (name : String) : (path name).Nodup := by
  refine List.nodup_cons.mpr ⟨not_mem_ancestors name, ?_⟩
  rw [ancestors, List.Nodup, List.pairwise_reverse]
  exact List.pairwise_map.mpr
    ((nodup_stems _).imp fun hne heq => hne (String.ofList_injective heq).symm)

theorem stems_eq_nil {cs : List Char} (h : ':' ∉ cs) : stems cs = [] := by
  induction cs with
  | nil => rfl
  | cons c cs ih =>
    rw [List.mem_cons, not_or] at h
    have hc : isSeparator c = false := decide_eq_false (Ne.symm h.1)
    rw [stems, ih h.2, hc]
    rfl

theorem stems_append {cs last : List Char} (h : ':' ∉ last) :
    stems (cs ++ ':' :: last) = stems cs ++ [cs] := by
  induction cs with
  | nil => simp [stems, stems_eq_nil h, isSeparator]
  | cons c cs ih =>
    rw [List.cons_append, stems, stems, ih]
    cases isSeparator c <;> simp

theorem ancestors_of_parent? {name p : String} (h : parent? name = some p) :
    ancestors name = p :: ancestors p := by
  obtain ⟨last, hname, hlast⟩ := parent?_eq_some h
  rw [ancestors, hname, stems_append hlast, List.map_append, List.reverse_append]
  simp [ancestors, String.ofList_toList]

theorem ancestors_of_parent?_eq_none {name : String} (h : parent? name = none) :
    ancestors name = [] := by
  rw [parent?, Option.map_eq_none_iff, cutLast?, Option.map_eq_none_iff] at h
  have hnone : ':' ∉ name.toList := fun hmem => by
    have hseparator := not_mem_of_cut?_eq_none h ':' (List.mem_reverse.mpr hmem)
    simp [isSeparator] at hseparator
  rw [ancestors, stems_eq_nil hnone]
  rfl

/-! ## Accounts above one another -/

theorem isWithin_refl (name : String) : isWithin name name = true :=
  mem_path_iff.mp List.mem_cons_self

theorem isWithin_trans {a b c : String} (h : isWithin a b = true) (h' : isWithin b c = true) :
    isWithin a c = true :=
  mem_path_iff.mp (path_subset_of_mem (mem_path_iff.mpr h) c (mem_path_iff.mpr h'))

theorem isWithin_iff {name root : String} :
    isWithin name root = true ↔
      name = root ∨ ∃ rest, name.toList = root.toList ++ ':' :: rest := by
  rw [← mem_path_iff, path, List.mem_cons, mem_ancestors_iff, eq_comm]

theorem isWithin_or_isWithin {name a b : String} (ha : isWithin name a = true)
    (hb : isWithin name b = true) : isWithin a b = true ∨ isWithin b a = true := by
  rcases isWithin_iff.mp ha with rfl | ⟨restA, hrestA⟩
  · exact .inl hb
  rcases isWithin_iff.mp hb with rfl | ⟨restB, hrestB⟩
  · exact .inr ha
  rcases List.append_eq_append_iff.mp (hrestA.symm.trans hrestB) with ⟨t, hb', ht⟩ | ⟨t, ha', ht⟩
  · cases t with
    | nil => exact .inl (isWithin_iff.mpr (.inl (String.toList_injective (by simpa using hb'.symm))))
    | cons c t =>
      obtain ⟨rfl, -⟩ := List.cons.inj ht
      exact .inr (isWithin_iff.mpr (.inr ⟨t, hb'⟩))
  · cases t with
    | nil => exact .inl (isWithin_iff.mpr (.inl (String.toList_injective (by simpa using ha'))))
    | cons c t =>
      obtain ⟨rfl, -⟩ := List.cons.inj ht
      exact .inl (isWithin_iff.mpr (.inr ⟨t, ha'⟩))

theorem length_lt_of_isWithin {a b : String} (h : isWithin a b = true) (hne : a ≠ b) :
    b.length < a.length := by
  rcases isWithin_iff.mp h with heq | ⟨rest, hrest⟩
  · exact absurd heq hne
  · have hlength := congrArg List.length hrest
    rw [List.length_append, List.length_cons] at hlength
    have ha : a.toList.length = a.length := String.length_toList
    have hb : b.toList.length = b.length := String.length_toList
    omega

theorem exists_topmost {names : List String} {a : String} (ha : a ∈ names) :
    ∃ b ∈ names, isWithin a b = true ∧ ∀ c ∈ names, isWithin b c = true → c = b := by
  induction hn : a.length using Nat.strongRecOn generalizing a with
  | ind n ih =>
    by_cases h : ∃ c ∈ names, isWithin a c = true ∧ c ≠ a
    · obtain ⟨c, hc, hwithin, hne⟩ := h
      have hlt := length_lt_of_isWithin hwithin hne.symm
      obtain ⟨b, hb, hcb, htop⟩ := ih c.length (hn ▸ hlt) hc rfl
      exact ⟨b, hb, isWithin_trans hwithin hcb, htop⟩
    · refine ⟨a, ha, isWithin_refl a, fun c hc hwithin => ?_⟩
      by_contra hne
      exact h ⟨c, hc, hwithin, hne⟩

end Daybook.AccountName
