import Daybook.Proofs.Journal.TokenNames

/-!
# Spaces between tokens

A space ends every token but a name in quotes and a comment. So a text that is cut into tokens, none
of them a comment, is cut into the same tokens where a space and more text follow it
(`ofChars_append_space`). Main statement: tokens that stand on their own can be written one behind
the other with a space before each (`ofChars_spaced`) or between them (`ofChars_intercalate`).
-/

namespace Daybook

open Daybook.Result Daybook.Text

namespace Token

variable {c : Char} {cs rest : List Char} {t : Token} {ts : List Token} {p : Char → Bool}

/-- Whether the token goes on to the end of the line. -/
def isComment : Token → Bool
  | comment _ => true
  | _ => false

/-! ## One token -/

theorem split_append_space (hp : p ' ' = false) (cs ds : List Char) :
    split p (cs ++ ' ' :: ds) = ((split p cs).1, (split p cs).2 ++ ' ' :: ds) := by
  induction cs with
  | nil => simp [split, hp]
  | cons c cs ih =>
    obtain ⟨htake, hdrop⟩ := Prod.mk.inj ih
    by_cases hc : p c = true
    · simp only [split, List.cons_append, List.takeWhile_cons_of_pos hc,
        List.dropWhile_cons_of_pos hc]
      rw [htake, hdrop]
      rfl
    · simp only [split, List.cons_append, List.takeWhile_cons_of_neg hc,
        List.dropWhile_cons_of_neg hc]

theorem takeDecimals_append_space (cs ds : List Char) : takeDecimals (cs ++ ' ' :: ds) =
    ((takeDecimals cs).1, (takeDecimals cs).2 ++ ' ' :: ds) := by
  have hother : ∀ c (rest : List Char), c ≠ '.' → takeDecimals (c :: rest) = ([], c :: rest) := by
    intro c rest hc
    rw [takeDecimals]
    rintro rest' ⟨rfl, -⟩
    exact hc rfl
  cases cs with
  | nil => exact hother ' ' ds (by decide)
  | cons c cs =>
    by_cases hc : c = '.'
    · subst hc
      simp only [List.cons_append, takeDecimals, split_append_space (p := isDigit) (by decide)]
      split <;> rfl
    · rw [List.cons_append, hother c _ hc, hother c _ hc]
      rfl

theorem takeNumber_append_space (cs ds : List Char) : takeNumber (cs ++ ' ' :: ds) =
    ((takeNumber cs).1, (takeNumber cs).2 ++ ' ' :: ds) := by
  simp only [takeNumber, split_append_space (p := fun c => isDigit c || c = ',') (by decide),
    takeDecimals_append_space]

theorem takeDateOrNumber_append_space (cs ds : List Char) : takeDateOrNumber (cs ++ ' ' :: ds) =
    (takeDateOrNumber cs).map (Prod.map id (· ++ ' ' :: ds)) := by
  have hspace : isDateSeparator ' ' = false := by decide
  have hdigits := split_append_space (p := isDigit) (by decide)
  simp only [takeDateOrNumber, hdigits, takeNumber_append_space]
  cases (split isDigit cs).2 with
  | nil =>
    simp only [List.nil_append, hspace, Bool.not_false, Bool.true_or, if_true]
    rfl
  | cons s₁ rest₂ =>
    simp only [List.cons_append, hdigits]
    split
    · rfl
    cases (split isDigit rest₂).2 with
    | nil =>
      simp only [List.nil_append, hspace, Bool.not_false, Bool.true_or, if_true]
      split <;> rfl
    | cons s₂ rest₄ =>
      simp only [List.cons_append, hdigits]
      split
      · split <;> rfl
      · rfl

theorem takeQuoted_append (h : takeQuoted cs = .ok (t, rest)) (ds : List Char) :
    takeQuoted (cs ++ ds) = .ok (t, rest ++ ds) := by
  obtain ⟨name, hname, ht, rfl⟩ := takeQuoted_eq_ok_iff.mp h
  exact takeQuoted_eq_ok_iff.mpr ⟨name, hname, ht, by simp⟩

theorem take_append_space (h : take c cs = .ok (t, rest)) (ht : t.isComment = false)
    (ds : List Char) : take c (cs ++ ' ' :: ds) = .ok (t, rest ++ ' ' :: ds) := by
  unfold take at h ⊢
  split at h
  case isTrue hc =>
    rw [if_pos hc, ← List.cons_append, takeDateOrNumber_append_space, h]
    rfl
  case isFalse hdigit =>
  rw [if_neg hdigit]
  split at h
  case isTrue hc =>
    rw [if_pos hc]
    exact takeQuoted_append h _
  case isFalse hquote =>
  rw [if_neg hquote]
  split at h
  case isTrue =>
    obtain ⟨rfl, -⟩ := Prod.mk.inj (Except.ok.inj h)
    cases ht
  case isFalse hcomment =>
  rw [if_neg hcomment]
  split at h
  case isTrue hc =>
    obtain ⟨rfl, rfl⟩ := Prod.mk.inj (Except.ok.inj h)
    rw [if_pos hc, split_append_space (p := isSymbolChar) (by decide)]
  case isFalse hsymbol =>
    rw [if_neg hsymbol]
    -- What is left are signs of one or two characters, neither of them a space.
    split at h
    case h_11 => cases h
    case h_2 hsingle | h_4 hsingle | h_6 hsingle =>
      obtain ⟨rfl, rfl⟩ := Prod.mk.inj (Except.ok.inj h)
      cases cs with
      | nil => rfl
      | cons d cs => split <;> simp_all
    all_goals
      obtain ⟨rfl, rfl⟩ := Prod.mk.inj (Except.ok.inj h)
      rfl

/-! ## All tokens -/

theorem ofChars_append_space (h : ofChars cs = .ok ts) (hts : ∀ t ∈ ts, t.isComment = false)
    (ds : List Char) : ofChars (cs ++ ' ' :: ds) = (ofChars ds).map (ts ++ ·) := by
  suffices hall : (∀ t ∈ ts, t.isComment = false) →
      ofChars (cs ++ ' ' :: ds) = (ofChars ds).map (ts ++ ·) from hall hts
  refine ofChars_induction (P := fun cs ts => (∀ t ∈ ts, t.isComment = false) →
    ofChars (cs ++ ' ' :: ds) = (ofChars ds).map (ts ++ ·)) ?nil ?space ?token h
  case nil =>
    intro _
    rw [List.nil_append, ofChars_space]
    cases ofChars ds <;> rfl
  case space =>
    intro c cs ts hc ih hts
    rw [List.cons_append, ofChars_spacing hc, ih hts]
  case token =>
    intro c cs t rest ts hc htake _ ih hts
    obtain ⟨ht, hts⟩ := List.forall_mem_cons.mp hts
    rw [List.cons_append, ofChars_of_take hc (take_append_space htake ht ds), ih hts]
    cases ofChars ds <;> rfl

theorem ofChars_intercalate (h : ∀ t ∈ ts, ofChars t.chars = .ok [t])
    (hcomment : ∀ t ∈ ts.dropLast, t.isComment = false) :
    ofChars ([' '].intercalate (ts.map chars)) = .ok ts := by
  induction ts with
  | nil => exact ofChars_nil
  | cons t ts ih =>
    obtain ⟨ht, hts⟩ := List.forall_mem_cons.mp h
    cases ts with
    | nil => rwa [List.map_singleton, List.intercalate_singleton]
    | cons t' ts =>
      rw [List.dropLast_cons_cons] at hcomment
      obtain ⟨hsingle, hrest⟩ := List.forall_mem_cons.mp hcomment
      rw [List.map_cons, List.map_cons, List.intercalate_cons_cons, List.append_assoc,
        List.singleton_append, ofChars_append_space ht (List.forall_mem_singleton.mpr hsingle),
        ← List.map_cons, ih hts hrest]
      rfl

/-- The token is what its own text is cut into, and does not go on to the end of the line. -/
def Stands (t : Token) : Prop := ofChars t.chars = .ok [t] ∧ t.isComment = false

instance (t : Token) : Decidable t.Stands := inferInstanceAs (Decidable (_ ∧ _))

def spaced (ts : List Token) : List Char := ts.flatMap (' ' :: ·.chars)

theorem spaced_cons (t : Token) (ts : List Token) :
    spaced (t :: ts) = ' ' :: [' '].intercalate ((t :: ts).map chars) := by
  induction ts generalizing t with
  | nil => simp [spaced]
  | cons t' ts ih =>
    rw [spaced, List.flatMap_cons, ← spaced, ih t']
    simp [List.intercalate_cons_cons]

theorem ofChars_spaced (h : ∀ t ∈ ts, t.Stands) : ofChars (spaced ts) = .ok ts := by
  cases ts with
  | nil => exact ofChars_nil
  | cons t ts =>
    rw [spaced_cons, ofChars_space]
    exact ofChars_intercalate (fun t ht => (h t ht).1)
      fun t' ht => (h t' (List.dropLast_subset _ ht)).2

end Token

end Daybook
