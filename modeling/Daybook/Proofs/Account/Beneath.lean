import Daybook.Journal.Transaction
import Daybook.Proofs.Account.Path
import Daybook.Proofs.Text.Words

/-!
# Accounts beneath a root

An account that is read beneath a root has the same accounts above it as before, each beneath the
root, and above these the root and what lies above the root (`mem_ancestors_beneath`). Hence
accounts lie beneath one another as they did (`isWithin_beneath`), and a text names an account or a
placeholder as it did (`ofText_beneath`).
-/

namespace Daybook

open Text (cut? cutLast?)

namespace AccountName

def beneath (root name : String) : String := root ++ ":" ++ name

theorem join_eq_beneath {root name : String} (hroot : root ≠ "") (hname : name ≠ "") :
    join root name = beneath root name := by
  rw [join, if_neg hroot, if_neg hname, beneath]

theorem toList_beneath (root name : String) :
    (beneath root name).toList = root.toList ++ ':' :: name.toList := by
  simp [beneath]

theorem beneath_injective (root : String) : Function.Injective (beneath root) := by
  intro a b h
  have hlist := congrArg String.toList h
  rw [toList_beneath, toList_beneath, List.append_cancel_left_eq] at hlist
  exact String.toList_injective (List.cons.inj hlist).2

theorem length_beneath (root name : String) :
    (beneath root name).length = root.length + 1 + name.length := by
  rw [← String.length_toList, toList_beneath, List.length_append, List.length_cons,
    String.length_toList, String.length_toList]
  omega

theorem beneath_notMem_path (root name : String) : beneath root name ∉ path root := by
  intro h
  have hlength := length_beneath root name
  rcases isWithin_iff.mp (mem_path_iff.mp h) with heq | ⟨rest, hrest⟩
  · have hroot := congrArg String.length heq
    omega
  · have hroot := congrArg List.length hrest
    rw [List.length_append, List.length_cons, String.length_toList, String.length_toList] at hroot
    omega

theorem mem_ancestors_beneath {root name other : String} :
    other ∈ ancestors (beneath root name) ↔
      other ∈ path root ∨ ∃ n ∈ ancestors name, beneath root n = other := by
  rw [mem_path_iff, isWithin_iff]
  simp only [mem_ancestors_iff]
  constructor
  · rintro ⟨rest, hrest⟩
    rw [toList_beneath] at hrest
    rcases List.append_eq_append_iff.mp hrest with ⟨t, hother, ht⟩ | ⟨t, hroot, ht⟩
    · cases t with
      | nil => exact .inl (.inl (String.toList_injective (by simpa using hother.symm)))
      | cons c t =>
        obtain ⟨rfl, hname⟩ := List.cons.inj ht
        refine .inr ⟨String.ofList t, ⟨rest, by simpa using hname⟩, ?_⟩
        exact String.toList_injective (by rw [toList_beneath, hother, String.toList_ofList])
    · cases t with
      | nil => exact .inl (.inl (String.toList_injective (by simpa using hroot)))
      | cons c t =>
        obtain ⟨rfl, -⟩ := List.cons.inj ht
        exact .inl (.inr ⟨t, hroot⟩)
  · rintro ((rfl | ⟨rest, hrest⟩) | ⟨n, ⟨rest, hrest⟩, rfl⟩)
    · exact ⟨name.toList, toList_beneath root name⟩
    · exact ⟨rest ++ ':' :: name.toList, by rw [toList_beneath, hrest]; simp⟩
    · exact ⟨rest, by rw [toList_beneath, toList_beneath, hrest]; simp⟩

theorem beneath_mem_ancestors_iff {root name other : String} :
    beneath root other ∈ ancestors (beneath root name) ↔ other ∈ ancestors name := by
  rw [mem_ancestors_beneath, or_iff_right (beneath_notMem_path root other)]
  constructor
  · rintro ⟨n, hn, heq⟩
    exact beneath_injective root heq ▸ hn
  · exact fun h => ⟨other, h, rfl⟩

theorem isWithin_beneath (root name other : String) :
    isWithin (beneath root name) (beneath root other) = isWithin name other := by
  rw [Bool.eq_iff_iff, ← mem_path_iff, ← mem_path_iff, path, path, List.mem_cons, List.mem_cons,
    beneath_mem_ancestors_iff, (beneath_injective root).eq_iff]

theorem isWithin_beneath_root (root name : String) : isWithin (beneath root name) root = true :=
  mem_path_iff.mp (List.mem_cons_of_mem _ (mem_ancestors_beneath.mpr (.inl List.mem_cons_self)))

end AccountName

open AccountName (beneath isSeparator toList_beneath)

namespace Text

variable {p : Char → Bool} {c : Char}

theorem cutLast?_append_cons (hc : p c = true) (start rest : List Char) :
    cutLast? p (start ++ c :: rest) = match cutLast? p rest with
      | some (before, after) => some (start ++ c :: before, after)
      | none => some (start, rest) := by
  have hreverse : (start ++ c :: rest).reverse = rest.reverse ++ c :: start.reverse := by simp
  rw [cutLast?, hreverse, cut?_append_cons hc, cutLast?]
  cases cut? p rest.reverse with
  | none => simp
  | some pair => simp

end Text

/-! ## Postings -/

def AccountRef.beneath (root : String) : AccountRef → AccountRef
  | named name => named (AccountName.beneath root name)
  | unknown none => unknown (some root)
  | unknown (some scope) => unknown (some (AccountName.beneath root scope))

theorem AccountRef.ofText_beneath (root name : String) :
    ofText (AccountName.beneath root name) = (ofText name).beneath root := by
  have hsep : isSeparator ':' = true := rfl
  have hne : AccountName.beneath root name ≠ placeholder := by
    intro h
    have hmem : ':' ∈ (AccountName.beneath root name).toList := by simp [toList_beneath]
    rw [h] at hmem
    revert hmem
    decide
  have hcut := Text.cutLast?_append_cons hsep root.toList name.toList
  rw [ofText, if_neg hne, toList_beneath, hcut, ofText]
  by_cases hname : name = placeholder
  · subst hname
    have hnone : cutLast? isSeparator placeholder.toList = none := by decide
    rw [hnone, if_pos rfl]
    simp only [String.ofList_toList, if_pos, beneath]
  · rw [if_neg hname]
    cases cutLast? isSeparator name.toList with
    | none => simp [hname, beneath]
    | some pair =>
      obtain ⟨scope, last⟩ := pair
      by_cases hlast : String.ofList last = placeholder
      · have hscope : String.ofList (root.toList ++ ':' :: scope) =
            AccountName.beneath root (String.ofList scope) :=
          String.toList_injective (by simp [toList_beneath])
        simp only [hlast, if_pos, hscope, beneath]
      · simp only [hlast, if_neg, beneath, not_false_eq_true]

def Posting.beneath (root : String) (x : Posting) : Posting :=
  { x with account := x.account.beneath root }

def Transaction.beneath (root : String) (t : Transaction) : Transaction :=
  { t with postings := t.postings.map (·.beneath root) }

end Daybook
