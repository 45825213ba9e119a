import Daybook.Text.Basic

/-!
# Lines of a text

The lines of two texts, one behind the other, are those of the first and those of the second, if the
first one is made of whole lines (`lines_append`). A line of a text may be replaced by other lines
(`lines_replaceLine`). Lines put together are told apart by the text (`eq_of_unlines_eq`).
-/

namespace Daybook.Text

/-- The text is made of whole lines: there is a line feed at its end, unless it is empty. -/
def WholeLines (cs : List Char) : Prop := cs = [] ∨ cs.getLast? = some '\n'

instance (cs : List Char) : Decidable (WholeLines cs) := inferInstanceAs (Decidable (_ ∨ _))

/-- The text with another one in place of a line and its end. Lines are counted from zero. -/
def replaceLine (new : List Char) : Nat → List Char → List Char
  | 0, cs =>
    match cut? (· = '\n') cs with
    | some (_, rest) => new ++ rest
    | none => new
  | n + 1, cs =>
    match cut? (· = '\n') cs with
    | some (line, rest) => line ++ '\n' :: replaceLine new n rest
    | none => cs

/-- The text that consists of the lines, each with its end. -/
def unlines (ls : List (List Char)) : List Char := ls.flatMap (· ++ ['\n'])

variable {p : Char → Bool} {cs a line rest new : List Char} {ls ls' : List (List Char)}

/-! ## Pieces -/

theorem pieces_ne_nil (p : Char → Bool) (cs : List Char) : pieces p cs ≠ [] := by
  cases cs with
  | nil => simp [pieces]
  | cons c cs =>
    rw [pieces]
    split <;> simp

theorem pieces_append_cons {c : Char} (hc : p c = true) (a b : List Char) :
    pieces p (a ++ c :: b) = pieces p a ++ pieces p b := by
  induction a with
  | nil => simp [pieces, hc]
  | cons x a ih =>
    obtain ⟨q, qs, hq⟩ := List.exists_cons_of_ne_nil (pieces_ne_nil p a)
    rw [List.cons_append, pieces, pieces, ih, hq]
    cases p x <;> rfl

theorem pieces_eq_singleton (h : ∀ c ∈ cs, p c = false) : pieces p cs = [cs] := by
  induction cs with
  | nil => rfl
  | cons c cs ih =>
    obtain ⟨hc, hcs⟩ := List.forall_mem_cons.mp h
    rw [pieces, hc, ih hcs]

theorem not_mem_of_cut?_eq_none (h : cut? p cs = none) : ∀ c ∈ cs, p c = false := by
  induction cs with
  | nil => simp
  | cons c cs ih =>
    cases hc : p c with
    | true => simp [cut?, hc] at h
    | false => simpa [hc] using ih (by simpa [cut?, hc] using h)

theorem linesOf_append (ps : List (List Char)) {qs : List (List Char)} (h : qs ≠ []) :
    linesOf (ps ++ qs) = ps.map dropReturn ++ linesOf qs := by
  induction ps with
  | nil => rfl
  | cons q ps ih =>
    have hne : ps ++ qs ≠ [] := by simp [h]
    obtain ⟨x, xs, hx⟩ := List.exists_cons_of_ne_nil hne
    rw [List.cons_append, hx, linesOf, ← hx, ih, List.map_cons, List.cons_append]
    simp

theorem pieces_unlines (h : ∀ line ∈ ls, '\n' ∉ line) :
    pieces (· = '\n') (unlines ls) = ls ++ [[]] := by
  induction ls with
  | nil => rfl
  | cons line ls ih =>
    obtain ⟨hline, hls⟩ := List.forall_mem_cons.mp h
    have hfree : ∀ c ∈ line, decide (c = '\n') = false := by
      intro c hc
      refine decide_eq_false ?_
      rintro rfl
      exact hline hc
    rw [unlines, List.flatMap_cons, List.append_assoc, List.singleton_append,
      pieces_append_cons (by simp), pieces_eq_singleton hfree, ← unlines, ih hls]
    rfl

theorem eq_of_unlines_eq (h : ∀ line ∈ ls, '\n' ∉ line) (h' : ∀ line ∈ ls', '\n' ∉ line)
    (heq : unlines ls = unlines ls') : ls = ls' := by
  have hpieces := pieces_unlines h
  rw [heq, pieces_unlines h'] at hpieces
  exact (List.append_cancel_right hpieces).symm

/-! ## Lines -/

theorem lines_nil : lines [] = [] := rfl

theorem lines_append (ha : WholeLines a) (b : List Char) : lines (a ++ b) = lines a ++ lines b := by
  rcases ha with rfl | ha
  · rfl
  · obtain ⟨start, rfl⟩ := List.getLast?_eq_some_iff.mp ha
    have hcut : ∀ b, lines (start ++ '\n' :: b) =
        (pieces (· = '\n') start).map dropReturn ++ lines b := by
      intro b
      rw [lines, pieces_append_cons (by simp), linesOf_append _ (pieces_ne_nil _ b), lines]
    rw [List.append_assoc, List.singleton_append, hcut b, hcut [], lines_nil, List.append_nil]

theorem lines_cons (hline : ∀ c ∈ line, decide (c = '\n') = false) (rest : List Char) :
    lines (line ++ '\n' :: rest) = dropReturn line :: lines rest := by
  rw [lines, pieces_append_cons (by simp), pieces_eq_singleton hline,
    linesOf_append _ (pieces_ne_nil _ rest)]
  rfl

theorem lines_of_cut?_eq_some (h : cut? (· = '\n') cs = some (line, rest)) :
    (∀ c ∈ line, decide (c = '\n') = false) ∧ lines cs = dropReturn line :: lines rest := by
  obtain ⟨c, hc, rfl⟩ := cut?_eq_some h
  obtain rfl : c = '\n' := by simpa using hc
  have hline := not_mem_of_cut? h
  exact ⟨hline, lines_cons hline rest⟩

theorem lines_of_cut?_eq_none (h : cut? (· = '\n') cs = none) :
    lines cs = if cs = [] then [] else [cs] := by
  rw [lines, pieces_eq_singleton (not_mem_of_cut?_eq_none h)]
  rfl

theorem lines_replaceLine (hnew : WholeLines new) {n : Nat} (hn : n < (lines cs).length) :
    lines (replaceLine new n cs) = (lines cs).take n ++ lines new ++ (lines cs).drop (n + 1) := by
  induction n generalizing cs with
  | zero =>
    rw [replaceLine]
    split
    case h_1 line rest hcut =>
      rw [lines_append hnew, (lines_of_cut?_eq_some hcut).2]
      simp
    case h_2 hcut =>
      rw [lines_of_cut?_eq_none hcut]
      split <;> simp
  | succ n ih =>
    rw [replaceLine]
    split
    case h_1 line rest hcut =>
      obtain ⟨hline, hlines⟩ := lines_of_cut?_eq_some hcut
      rw [hlines] at hn ⊢
      rw [lines_cons hline, ih (by simpa using hn)]
      simp
    case h_2 hcut =>
      rw [lines_of_cut?_eq_none hcut] at hn
      split at hn <;> simp at hn

end Daybook.Text
