import Daybook.Text.Basic

/-!
# Words of a line

Text without blanks stays as it is when it is trimmed, and the first word of a line is what stands
before its first blank (`firstWord_append`).
-/

namespace Daybook.Text

variable {p : Char → Bool} {cs word : List Char}

theorem cut?_eq_none (h : ∀ c ∈ cs, p c = false) : cut? p cs = none := by
  induction cs with
  | nil => rfl
  | cons c cs ih =>
    obtain ⟨hc, hcs⟩ := List.forall_mem_cons.mp h
    simp [cut?, hc, ih hcs]

theorem trimStart_eq (h : ∀ c ∈ cs.head?, isBlank c = false) : trimStart cs = cs := by
  cases cs with
  | nil => rfl
  | cons c cs => exact List.dropWhile_cons_of_neg (by simp [h c rfl])

theorem trimStart_space (cs : List Char) : trimStart (' ' :: cs) = trimStart cs :=
  List.dropWhile_cons_of_pos (by decide)

theorem trimEnd_append (hne : cs ≠ []) (h : ∀ c ∈ cs, isBlank c = false) (before : List Char) :
    trimEnd (before ++ cs) = before ++ cs := by
  obtain ⟨last, hlast⟩ := Option.isSome_iff_exists.mp (List.getLast?_isSome.mpr hne)
  obtain ⟨start, rfl⟩ := List.getLast?_eq_some_iff.mp hlast
  have hblank : isBlank last = false := h last (by simp)
  simp [trimEnd, hblank]

theorem trim_eq (hne : cs ≠ []) (h : ∀ c ∈ cs, isBlank c = false) : trim cs = cs := by
  rw [trim, trimStart_eq fun c hc => h c (List.mem_of_mem_head? hc)]
  exact trimEnd_append hne h []

theorem dropReturn_append (hne : cs ≠ []) (h : ∀ c ∈ cs, isBlank c = false)
    (before : List Char) : dropReturn (before ++ cs) = before ++ cs := by
  obtain ⟨last, hlast⟩ := Option.isSome_iff_exists.mp (List.getLast?_isSome.mpr hne)
  rw [dropReturn, List.getLast?_append, hlast, Option.some_or, if_neg]
  rintro ⟨rfl⟩
  exact absurd (h _ (List.mem_of_getLast? hlast)) (by decide)

theorem cut?_append_cons {c : Char} (hc : p c = true) (start rest : List Char) :
    cut? p (start ++ c :: rest) = match cut? p start with
      | some (before, after) => some (before, after ++ c :: rest)
      | none => some (start, rest) := by
  induction start with
  | nil => simp [cut?, hc]
  | cons d start ih =>
    by_cases hd : p d = true
    · simp [cut?, hd]
    · rw [List.cons_append, cut?, if_neg hd, ih, cut?, if_neg hd]
      cases cut? p start <;> rfl

theorem cut?_append {rest : List Char} (h : ∀ c ∈ rest, p c = false) (start : List Char) :
    cut? p (start ++ rest) = (cut? p start).map (Prod.map id (· ++ rest)) := by
  induction start with
  | nil => exact cut?_eq_none h
  | cons d start ih =>
    by_cases hd : p d = true
    · simp [cut?, hd]
    · rw [List.cons_append, cut?, if_neg hd, ih, cut?, if_neg hd]
      cases cut? p start <;> rfl

theorem firstWord_append_of_blank (hne : word ≠ []) (hword : ∀ c ∈ word, isBlank c = false)
    (hcs : ∀ c ∈ cs.head?, isBlank c = true) : firstWord (word ++ cs) = (word, trimStart cs) := by
  have hstart : trimStart (word ++ cs) = word ++ cs := by
    obtain ⟨c, rest, rfl⟩ := List.exists_cons_of_ne_nil hne
    refine trimStart_eq fun c' hc => ?_
    obtain rfl := Option.some.inj hc
    exact hword c List.mem_cons_self
  have hletters : ∀ c ∈ word, (!isBlank c) = true := by simpa using hword
  have hend : cs.takeWhile (!isBlank ·) = [] ∧ cs.dropWhile (!isBlank ·) = cs := by
    cases cs with
    | nil => exact ⟨rfl, rfl⟩
    | cons c cs =>
      have hc : ¬(!isBlank c) = true := by simp [hcs c rfl]
      exact ⟨List.takeWhile_cons_of_neg hc, List.dropWhile_cons_of_neg hc⟩
  simp only [firstWord, hstart]
  rw [List.takeWhile_append_of_pos hletters, List.dropWhile_append_of_pos hletters, hend.1, hend.2,
    List.append_nil]

theorem firstWord_append (hne : word ≠ []) (hword : ∀ c ∈ word, isBlank c = false)
    (hcs : ∀ c ∈ cs.head?, isBlank c = false) :
    firstWord (word ++ ' ' :: cs) = (word, cs) := by
  have hspace : ∀ c ∈ (' ' :: cs).head?, isBlank c = true := by
    rintro c hc
    obtain rfl := Option.some.inj hc
    decide
  rw [firstWord_append_of_blank hne hword hspace, trimStart_space, trimStart_eq hcs]

end Daybook.Text
