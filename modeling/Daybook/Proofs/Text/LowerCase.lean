import Daybook.Proofs.Text.Trim
import Daybook.Text.LowerCase

/-!
# The words of a text in lower case

Whether a capital sigma ends a word is seen from the letters around it, and no blank is passed over
in looking for them. So a text is put in lower case word by word: the words of two texts with a blank
between them are those of the one and those of the other (`lowerWords_append_cons`), and blanks at
its ends do not matter (`lowerWords_trim`).
-/

namespace Daybook.Text

def lowerWords (cs : List Char) : List String := (words (lowerAfter [] cs)).map String.ofList

variable {b c : Char} {cs ds before after : List Char} {w : String}

/-! ## Blanks -/

def blanks : List Char :=
  blankRanges.flatMap fun r => (List.range' r.1 (r.2 + 1 - r.1)).map Char.ofNat

theorem mem_blanks (h : isBlank c = true) : c ∈ blanks := by
  obtain ⟨r, hr, hlow, hhigh⟩ := RangeTable.covers_imp_mem h
  refine List.mem_flatMap.mpr ⟨r, hr, List.mem_map.mpr ⟨c.toNat, ?_, Char.ofNat_toNat c⟩⟩
  rw [List.mem_range'_1]
  omega

theorem lower_of_mem_blanks : ∀ b ∈ blanks, b ≠ 'Σ' ∧ lowerChar b = [b] ∧
    caseIgnorableRanges.hasChar b = false ∧ casedRanges.hasChar b = false := by
  have hall : blanks.all (fun b => decide (b ≠ 'Σ' ∧ lowerChar b = [b] ∧
      caseIgnorableRanges.hasChar b = false ∧ casedRanges.hasChar b = false)) = true := by
    decide +kernel
  exact fun b hb => of_decide_eq_true (List.all_eq_true.mp hall b hb)

theorem startsCased_append_cons (hb : isBlank b = true) (cs ds : List Char) :
    startsCased (cs ++ b :: ds) = startsCased cs := by
  obtain ⟨-, -, hignorable, hcased⟩ := lower_of_mem_blanks b (mem_blanks hb)
  have hstop : (b :: ds).dropWhile caseIgnorableRanges.hasChar = b :: ds :=
    List.dropWhile_cons_of_neg (by simp [hignorable])
  unfold startsCased
  rw [List.dropWhile_append, hstop]
  cases hrest : cs.dropWhile caseIgnorableRanges.hasChar with
  | nil => exact hcased
  | cons c rest => rfl

theorem lowerAfter_behind_blank (hb : isBlank b = true) (cs : List Char) :
    lowerAfter (before ++ b :: after) cs = lowerAfter before cs := by
  induction cs generalizing before with
  | nil => rfl
  | cons c cs ih =>
    simp only [lowerAfter]
    rw [startsCased_append_cons hb, ← List.cons_append, ih]

theorem lowerAfter_append_cons (hb : isBlank b = true) (before cs ds : List Char) :
    lowerAfter before (cs ++ b :: ds) = lowerAfter before cs ++ b :: lowerAfter [] ds := by
  induction cs generalizing before with
  | nil =>
    obtain ⟨hsigma, hlower, -, -⟩ := lower_of_mem_blanks b (mem_blanks hb)
    have hrest : lowerAfter (b :: before) ds = lowerAfter [] ds := by
      rw [← List.nil_append (b :: before), lowerAfter_behind_blank hb]
    show lowerAfter before (b :: ds) = b :: lowerAfter [] ds
    rw [lowerAfter, if_neg hsigma, hlower, hrest]
    rfl
  | cons c cs ih =>
    rw [List.cons_append]
    simp only [lowerAfter]
    rw [startsCased_append_cons hb, ih, List.append_assoc]

/-! ## Words -/

theorem words_append_cons (hb : isBlank b = true) (cs ds : List Char) :
    words (cs ++ b :: ds) = words cs ++ words ds := by
  unfold words
  rw [pieces_append_cons hb, List.filter_append]

theorem words_singleton (hne : cs ≠ []) (h : ∀ c ∈ cs, isBlank c = false) : words cs = [cs] := by
  unfold words
  rw [pieces_eq_singleton h]
  simp [hne]

theorem lowerWords_append_cons (hb : isBlank b = true) (cs ds : List Char) :
    lowerWords (cs ++ b :: ds) = lowerWords cs ++ lowerWords ds := by
  unfold lowerWords
  rw [lowerAfter_append_cons hb, words_append_cons hb, List.map_append]

theorem lowerWords_blank_append (hbefore : ∀ b ∈ before, isBlank b = true) (cs : List Char) :
    lowerWords (before ++ cs) = lowerWords cs := by
  induction before with
  | nil => rfl
  | cons b before ih =>
    obtain ⟨hb, hbefore⟩ := List.forall_mem_cons.mp hbefore
    have hsplit := lowerWords_append_cons hb [] (before ++ cs)
    rw [ih hbefore] at hsplit
    exact hsplit

theorem lowerWords_append_blank (hafter : ∀ b ∈ after, isBlank b = true) (cs : List Char) :
    lowerWords (cs ++ after) = lowerWords cs := by
  cases after with
  | nil => rw [List.append_nil]
  | cons b after =>
    obtain ⟨hb, hafter⟩ := List.forall_mem_cons.mp hafter
    have hnone : lowerWords after = [] := by
      have hdrop := lowerWords_blank_append hafter []
      rwa [List.append_nil] at hdrop
    rw [lowerWords_append_cons hb, hnone, List.append_nil]

theorem exists_trim (cs : List Char) : ∃ before after, cs = before ++ trim cs ++ after ∧
    (∀ b ∈ before, isBlank b = true) ∧ ∀ b ∈ after, isBlank b = true := by
  refine ⟨cs.takeWhile isBlank, (trimStart cs).rtakeWhile isBlank, ?_, ?_, ?_⟩
  · have hend : trim cs ++ (trimStart cs).rtakeWhile isBlank = trimStart cs := by
      unfold trim
      rw [trimEnd_eq_rdropWhile, List.rdropWhile_append_rtakeWhile]
    rw [List.append_assoc, hend]
    exact (List.takeWhile_append_dropWhile).symm
  · intro b hb
    exact List.mem_takeWhile_imp hb
  · intro b hb
    exact List.mem_rtakeWhile_imp hb

theorem lowerWords_trim (cs : List Char) : lowerWords (trim cs) = lowerWords cs := by
  obtain ⟨before, after, hcs, hbefore, hafter⟩ := exists_trim cs
  conv_rhs => rw [hcs]
  rw [lowerWords_append_blank hafter, lowerWords_blank_append hbefore]

theorem trim_ne_nil (h : lowerWords cs ≠ []) : trim cs ≠ [] := by
  intro hnil
  rw [← lowerWords_trim, hnil] at h
  exact h rfl

/-! ## Words that are in lower case already -/

/-- Small letters, digits and the separators of dates. -/
def plainChars : List Char := "abcdefghijklmnopqrstuvwxyz0123456789/-.".toList

def IsPlainWord (w : String) : Prop := w.toList ≠ [] ∧ ∀ c ∈ w.toList, c ∈ plainChars

-- Only the characters of the word are looked at, not all that there are.
instance (w : String) : Decidable (IsPlainWord w) :=
  @instDecidableAnd _ _ _ (List.decidableBAll _ _)

theorem lower_of_mem_plainChars :
    ∀ c ∈ plainChars, c ≠ 'Σ' ∧ lowerChar c = [c] ∧ isBlank c = false := by
  have hall : plainChars.all (fun c =>
      decide (c ≠ 'Σ' ∧ lowerChar c = [c] ∧ isBlank c = false)) = true := by decide +kernel
  exact fun c hc => of_decide_eq_true (List.all_eq_true.mp hall c hc)

theorem lowerAfter_plain (h : ∀ c ∈ cs, c ∈ plainChars) : lowerAfter before cs = cs := by
  induction cs generalizing before with
  | nil => rfl
  | cons c cs ih =>
    obtain ⟨hc, hcs⟩ := List.forall_mem_cons.mp h
    obtain ⟨hsigma, hlower, -⟩ := lower_of_mem_plainChars c hc
    rw [lowerAfter, if_neg hsigma, hlower, ih hcs]
    rfl

theorem words_plain (hw : IsPlainWord w) : words w.toList = [w.toList] :=
  words_singleton hw.1 fun c hc => (lower_of_mem_plainChars c (hw.2 c hc)).2.2

theorem lowerWords_plain (hw : IsPlainWord w) : lowerWords w.toList = [w] := by
  unfold lowerWords
  rw [lowerAfter_plain hw.2, words_plain hw]
  simp

theorem lowerWords_of_toLower {s : String} (hw : IsPlainWord w) (h : toLower s = w) :
    lowerWords s.toList = [w] := by
  have hlower : lowerAfter [] s.toList = w.toList := by
    rw [← h, toLower, String.toList_ofList]
  unfold lowerWords
  rw [hlower, words_plain hw]
  simp

theorem lowerWords_intercalate {ws : List String} (hws : ∀ w ∈ ws, IsPlainWord w) :
    lowerWords (" ".intercalate ws).toList = ws := by
  have hspace : " ".toList = [' '] := rfl
  rw [String.toList_intercalate, hspace]
  induction ws with
  | nil => rfl
  | cons w ws ih =>
    obtain ⟨hw, hws⟩ := List.forall_mem_cons.mp hws
    cases ws with
    | nil =>
      rw [List.map_singleton, List.intercalate_singleton]
      exact lowerWords_plain hw
    | cons v ws =>
      have hsplit := lowerWords_append_cons (b := ' ') (by decide) w.toList
        ([' '].intercalate ((v :: ws).map String.toList))
      rw [ih hws, lowerWords_plain hw] at hsplit
      rw [List.map_cons, List.map_cons, List.intercalate_cons_cons, List.append_assoc]
      exact hsplit

end Daybook.Text
