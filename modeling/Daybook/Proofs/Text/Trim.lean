import Daybook.Proofs.Text.Lines
import Daybook.Proofs.Text.Words
import Mathlib.Data.List.DropRight

/-!
# Trimmed text

Trimming a text leaves a part of it that has no blank at either end. Of two texts, one behind the
other, only the second one is trimmed at the end, unless there is nothing but blanks in it
(`trimEnd_append_of_ne_nil`).
-/

namespace Daybook.Text

variable {cs ds : List Char} {c : Char}

/-! ## The end of a text -/

theorem trimEnd_eq_rdropWhile (cs : List Char) : trimEnd cs = cs.rdropWhile isBlank := rfl

theorem trimEnd_isPrefix (cs : List Char) : trimEnd cs <+: cs := List.rdropWhile_prefix isBlank cs

theorem trimEnd_trimEnd (cs : List Char) : trimEnd (trimEnd cs) = trimEnd cs :=
  List.rdropWhile_idempotent isBlank cs

theorem trimEnd_eq_nil_iff : trimEnd cs = [] ↔ ∀ c ∈ cs, isBlank c = true :=
  List.rdropWhile_eq_nil_iff

theorem trimEnd_eq_self_iff : trimEnd cs = cs ↔ ∀ c ∈ cs.getLast?, isBlank c = false := by
  rw [trimEnd_eq_rdropWhile, List.rdropWhile_eq_self_iff]
  rcases List.eq_nil_or_concat cs with rfl | ⟨start, last, rfl⟩
  · simp
  · simp

theorem trimEnd_concat_of_blank (h : isBlank c = true) (cs : List Char) :
    trimEnd (cs ++ [c]) = trimEnd cs := List.rdropWhile_concat_pos _ _ _ h

theorem trimEnd_concat (h : isBlank c = false) (cs : List Char) : trimEnd (cs ++ [c]) = cs ++ [c] :=
  List.rdropWhile_concat_neg _ _ _ (by simp [h])

theorem trimEnd_append_of_blank (h : ∀ c ∈ ds, isBlank c = true) (cs : List Char) :
    trimEnd (cs ++ ds) = trimEnd cs := by
  induction ds using List.reverseRecOn with
  | nil => rw [List.append_nil]
  | append_singleton ds c ih =>
    obtain ⟨hds, hc⟩ := List.forall_mem_append.mp h
    rw [← List.append_assoc, trimEnd_concat_of_blank (hc c List.mem_cons_self), ih hds]

theorem trimEnd_append_of_ne_nil (h : trimEnd ds ≠ []) (cs : List Char) :
    trimEnd (cs ++ ds) = cs ++ trimEnd ds := by
  induction ds using List.reverseRecOn with
  | nil => exact absurd rfl h
  | append_singleton ds c ih =>
    cases hc : isBlank c with
    | false => rw [← List.append_assoc, trimEnd_concat hc, trimEnd_concat hc, List.append_assoc]
    | true =>
      rw [trimEnd_concat_of_blank hc] at h
      rw [← List.append_assoc, trimEnd_concat_of_blank hc, trimEnd_concat_of_blank hc, ih h]

theorem trimEnd_append_of_trimEnd_eq (h : trimEnd cs = cs) (ds : List Char) :
    trimEnd (cs ++ ds) = cs ++ trimEnd ds := by
  by_cases hnil : trimEnd ds = []
  · rw [trimEnd_append_of_blank (trimEnd_eq_nil_iff.mp hnil), hnil, h, List.append_nil]
  · exact trimEnd_append_of_ne_nil hnil cs

theorem trimEnd_ne_nil (hc : c ∈ cs) (hblank : isBlank c = false) : trimEnd cs ≠ [] := by
  intro hnil
  rw [trimEnd_eq_nil_iff.mp hnil c hc] at hblank
  cases hblank

theorem exists_trimEnd_eq_cons (h : isBlank c = false) (cs : List Char) :
    ∃ ds, trimEnd (c :: cs) = c :: ds := by
  by_cases hnil : trimEnd cs = []
  · have hend := trimEnd_append_of_blank (trimEnd_eq_nil_iff.mp hnil) [c]
    exact ⟨[], hend.trans (trimEnd_concat h [])⟩
  · exact ⟨trimEnd cs, trimEnd_append_of_ne_nil hnil [c]⟩

theorem takeWhile_prefix_takeWhile (p : Char → Bool) (h : cs <+: ds) :
    cs.takeWhile p <+: ds.takeWhile p := by
  obtain ⟨rest, rfl⟩ := h
  rw [List.takeWhile_append]
  split
  · exact (List.takeWhile_prefix p).trans (List.prefix_append ..)
  · exact List.prefix_rfl

/-! ## Both ends -/

theorem trimStart_suffix (cs : List Char) : trimStart cs <:+ cs := List.dropWhile_suffix isBlank

theorem trimStart_trimStart (cs : List Char) : trimStart (trimStart cs) = trimStart cs :=
  List.dropWhile_idempotent isBlank cs

theorem trimStart_eq_nil_iff : trimStart cs = [] ↔ ∀ c ∈ cs, isBlank c = true :=
  List.dropWhile_eq_nil_iff

theorem trimStart_cons (h : isBlank c = false) (cs : List Char) : trimStart (c :: cs) = c :: cs :=
  List.dropWhile_cons_of_neg (by simp [h])

theorem trimStart_cons_of_blank (h : isBlank c = true) (cs : List Char) :
    trimStart (c :: cs) = trimStart cs := List.dropWhile_cons_of_pos h

theorem trimStart_eq_self_iff : trimStart cs = cs ↔ ∀ c ∈ cs.head?, isBlank c = false := by
  refine ⟨fun h c hc => ?_, trimStart_eq⟩
  obtain ⟨rest, rfl⟩ := List.head?_eq_some_iff.mp hc
  cases hblank : isBlank c with
  | false => rfl
  | true =>
    rw [trimStart_cons_of_blank hblank] at h
    exact absurd (h ▸ (trimStart_suffix rest).length_le) (by simp)

theorem trimEnd_trimStart (cs : List Char) : trimEnd (trimStart cs) = trimStart (trimEnd cs) := by
  induction cs with
  | nil => rfl
  | cons c cs ih =>
    cases hc : isBlank c with
    | true =>
      by_cases hnil : trimEnd cs = []
      · have hblank : ∀ d ∈ c :: cs, isBlank d = true :=
          List.forall_mem_cons.mpr ⟨hc, trimEnd_eq_nil_iff.mp hnil⟩
        rw [trimStart_eq_nil_iff.mpr hblank, trimEnd_eq_nil_iff.mpr hblank]
        rfl
      · have hend : trimEnd (c :: cs) = c :: trimEnd cs := trimEnd_append_of_ne_nil hnil [c]
        rw [hend, trimStart_cons_of_blank hc, trimStart_cons_of_blank hc, ih]
    | false =>
      obtain ⟨ds, hds⟩ := exists_trimEnd_eq_cons hc cs
      rw [trimStart_cons hc, hds, trimStart_cons hc]

theorem trim_isInfix (cs : List Char) : trim cs <:+: cs :=
  (trimEnd_isPrefix _).isInfix.trans (trimStart_suffix cs).isInfix

theorem trimEnd_trim (cs : List Char) : trimEnd (trim cs) = trim cs := trimEnd_trimEnd _

theorem trimStart_trim (cs : List Char) : trimStart (trim cs) = trim cs := by
  rw [trim, trimEnd_trimStart, trimStart_trimStart]

theorem trim_trim (cs : List Char) : trim (trim cs) = trim cs := by
  rw [trim, trimStart_trim, trimEnd_trim]

theorem trimStart_of_trim_eq (h : trim cs = cs) : trimStart cs = cs := by
  rw [← h, trimStart_trim]

theorem trimEnd_of_trim_eq (h : trim cs = cs) : trimEnd cs = cs := by
  rw [← h, trimEnd_trim]

theorem isBlank_of_trim_eq_cons (h : trim cs = cs) {rest : List Char} (hcs : cs = c :: rest) :
    isBlank c = false :=
  trimStart_eq_self_iff.mp (trimStart_of_trim_eq h) c (hcs ▸ rfl)

theorem trim_append_of_blank (h : ∀ c ∈ ds, isBlank c = true) (cs : List Char) :
    trim (cs ++ ds) = trim cs := by
  rw [trim, trim, trimEnd_trimStart, trimEnd_trimStart, trimEnd_append_of_blank h]

theorem trim_append_of_blank_left (h : ∀ c ∈ cs, isBlank c = true) (ds : List Char) :
    trim (cs ++ ds) = trim ds := by
  rw [trim, trim, trimStart, trimStart, List.dropWhile_append_of_pos h]

theorem trim_dropReturn (cs : List Char) : trim (dropReturn cs) = trim cs := by
  rw [dropReturn]
  split
  case isFalse => rfl
  case isTrue hlast =>
    obtain ⟨start, rfl⟩ := List.getLast?_eq_some_iff.mp hlast
    have hdrop : (start ++ ['\r']).dropLast = start := List.dropLast_concat
    rw [hdrop, trim, trim, trimEnd_trimStart, trimEnd_trimStart,
      trimEnd_concat_of_blank (by decide)]

/-! ## Lines -/

theorem not_mem_of_mem_lines {line : List Char} (h : line ∈ lines cs) : '\n' ∉ line := by
  have hpieces : ∀ cs, ∀ q ∈ pieces (· = '\n') cs, '\n' ∉ q := by
    intro cs
    induction cs with
    | nil => simp [pieces]
    | cons c cs ih =>
      obtain ⟨q, qs, hq⟩ := List.exists_cons_of_ne_nil (pieces_ne_nil (· = '\n') cs)
      rw [hq] at ih
      obtain ⟨hhead, hrest⟩ := List.forall_mem_cons.mp ih
      rw [pieces, hq]
      by_cases hc : c = '\n'
      · simp only [hc, decide_true]
        exact List.forall_mem_cons.mpr ⟨List.not_mem_nil, ih⟩
      · simp only [hc, decide_false]
        refine List.forall_mem_cons.mpr ⟨?_, hrest⟩
        simp [hhead, Ne.symm hc]
  have hlines : ∀ ps : List (List Char), (∀ q ∈ ps, '\n' ∉ q) →
      ∀ line ∈ linesOf ps, '\n' ∉ line := by
    intro ps hps
    induction ps using linesOf.induct with
    | case1 => simp [linesOf]
    | case2 => simp [linesOf]
    | case3 last hlast =>
      rw [linesOf, if_neg hlast]
      exact hps
    | case4 q ps hne ih =>
      obtain ⟨hq, hrest⟩ := List.forall_mem_cons.mp hps
      rw [linesOf]
      · refine List.forall_mem_cons.mpr ⟨fun hmem => hq ?_, ih hrest⟩
        rw [dropReturn] at hmem
        split at hmem
        · exact (List.dropLast_sublist q).subset hmem
        · exact hmem
      · exact hne
  exact hlines _ (hpieces cs) line h

end Daybook.Text
