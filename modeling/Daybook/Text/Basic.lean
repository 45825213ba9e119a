import Daybook.Text.Blank

/-!
# Cutting text

Trimming, lines, words and cuts at a separator, on lists of characters. A cut loses nothing
(`cut?_eq_some`), and no piece between separators holds one (`not_mem_of_cut?`).
-/

namespace Daybook.Text

def trimStart (cs : List Char) : List Char := cs.dropWhile isBlank

def trimEnd (cs : List Char) : List Char := (cs.reverse.dropWhile isBlank).reverse

/-- The text without blanks at either end. -/
def trim (cs : List Char) : List Char := trimEnd (trimStart cs)

/-- The text before and after the first character that satisfies `p`. -/
def cut? (p : Char → Bool) : List Char → Option (List Char × List Char)
  | [] => none
  | c :: rest =>
    if p c then some ([], rest) else (cut? p rest).map fun (before, after) => (c :: before, after)

theorem cut?_eq_some {p : Char → Bool} {cs before after : List Char}
    (h : cut? p cs = some (before, after)) : ∃ c, p c = true ∧ cs = before ++ c :: after := by
  induction cs generalizing before with
  | nil => simp [cut?] at h
  | cons c rest ih =>
    by_cases hc : p c = true
    · simp only [cut?, hc, if_true, Option.some.injEq, Prod.mk.injEq] at h
      obtain ⟨rfl, rfl⟩ := h
      exact ⟨c, hc, rfl⟩
    · simp only [cut?, hc, Bool.false_eq_true, if_false, Option.map_eq_some_iff] at h
      obtain ⟨⟨b, a⟩, hba, heq⟩ := h
      obtain ⟨rfl, rfl⟩ := Prod.mk.inj heq
      obtain ⟨d, hd, rfl⟩ := ih hba
      exact ⟨d, hd, rfl⟩

theorem not_mem_of_cut? {p : Char → Bool} {cs before after : List Char}
    (h : cut? p cs = some (before, after)) : ∀ c ∈ before, p c = false := by
  induction cs generalizing before with
  | nil => simp [cut?] at h
  | cons c rest ih =>
    by_cases hc : p c = true
    · simp only [cut?, hc, if_true, Option.some.injEq, Prod.mk.injEq] at h
      simp [← h.1]
    · simp only [cut?, hc, Bool.false_eq_true, if_false, Option.map_eq_some_iff] at h
      obtain ⟨⟨b, a⟩, hba, heq⟩ := h
      obtain ⟨rfl, rfl⟩ := Prod.mk.inj heq
      intro d hd
      rcases List.mem_cons.mp hd with rfl | hd
      · simpa using hc
      · exact ih hba d hd

/-- The text before and after the last character that satisfies `p`. -/
def cutLast? (p : Char → Bool) (cs : List Char) : Option (List Char × List Char) :=
  (cut? p cs.reverse).map fun (after, before) => (before.reverse, after.reverse)

/-- The pieces between the characters that satisfy `p`: one more than there are of these. -/
def pieces (p : Char → Bool) : List Char → List (List Char)
  | [] => [[]]
  | c :: rest =>
    match p c, pieces p rest with
    | true, ps => [] :: ps
    | false, [] => [[c]]
    | false, q :: ps => (c :: q) :: ps

/-- The maximal runs of characters that are not blank. -/
def words (cs : List Char) : List (List Char) := (pieces isBlank cs).filter (· ≠ [])

/-- The text without one carriage return at its end. -/
def dropReturn (cs : List Char) : List Char :=
  if cs.getLast? = some '\r' then cs.dropLast else cs

/-- Lines, each ended by a line feed or by a carriage return and a line feed; the last one may lack
its end, and nothing follows the last end. -/
def linesOf : List (List Char) → List (List Char)
  | [] => []
  | [last] => if last = [] then [] else [last]
  | line :: rest => dropReturn line :: linesOf rest

/-- The lines of a text, without their ends. -/
def lines (cs : List Char) : List (List Char) := linesOf (pieces (· = '\n') cs)

/-- The text before and after the first blank, the rest without blanks at its start. A word is
looked for after leading blanks. -/
def firstWord (cs : List Char) : List Char × List Char :=
  let cs := trimStart cs
  (cs.takeWhile (!isBlank ·), trimStart (cs.dropWhile (!isBlank ·)))

/-- The rest of `cs` after `start`, if `cs` begins with it. -/
def dropStart? : List Char → List Char → Option (List Char)
  | [], cs => some cs
  | _ :: _, [] => none
  | s :: start, c :: cs => if s = c then dropStart? start cs else none

theorem dropStart?_eq_some {start cs rest : List Char} :
    dropStart? start cs = some rest ↔ cs = start ++ rest := by
  induction start generalizing cs with
  | nil => simp [dropStart?, eq_comm]
  | cons s start ih =>
    cases cs with
    | nil => simp [dropStart?]
    | cons c cs =>
      by_cases h : s = c
      · simp [dropStart?, h, ih]
      · simp [dropStart?, h, Ne.symm h]

/-- The text with `c` removed at both ends. -/
def strip (c : Char) (cs : List Char) : List Char :=
  ((cs.dropWhile (· = c)).reverse.dropWhile (· = c)).reverse

/-- The text, filled up with blanks on the left to `width` characters. -/
def alignRight (width : Nat) (s : String) : String :=
  String.ofList (List.replicate (width - s.length) ' ') ++ s

/-- The text, filled up with blanks on the right to `width` characters. -/
def alignLeft (width : Nat) (s : String) : String :=
  s ++ String.ofList (List.replicate (width - s.length) ' ')

end Daybook.Text
