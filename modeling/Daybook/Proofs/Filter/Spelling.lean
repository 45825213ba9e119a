import Daybook.Filter

/-!
# How filters are spelled

What a text is made of, said of the text as a whole: terms between quotes, parentheses, keywords
that are whole words, and spacing between all of these (`Spells`). Main statement: reading the text
character by character finds exactly the lexemes that it spells (`lexemes?_between_iff`).
-/

namespace Daybook.Filter

open Daybook.Text

/-- What stands between quotes writes the term: a backslash is left out and keeps the character
behind it, whatever that is. -/
inductive Escapes : List Char → List Char → Prop
  | nil : Escapes [] []
  | plain {c : Char} {written s : List Char} (hquote : c ≠ '"') (hslash : c ≠ '\\')
      (h : Escapes written s) : Escapes (c :: written) (c :: s)
  | escaped (c : Char) {written s : List Char} (h : Escapes written s) :
      Escapes ('\\' :: c :: written) (c :: s)

/-- The text spells the lexemes. No letter, digit or underscore follows a keyword. -/
inductive Spells : List Char → List Lexeme → Prop
  | nil : Spells [] []
  | spacing {c : Char} {rest : List Char} {ts : List Lexeme} (hc : isSpacing c = true)
      (h : Spells rest ts) : Spells (c :: rest) ts
  | opening {rest : List Char} {ts : List Lexeme} (h : Spells rest ts) :
      Spells ('(' :: rest) (.opening :: ts)
  | closing {rest : List Char} {ts : List Lexeme} (h : Spells rest ts) :
      Spells (')' :: rest) (.closing :: ts)
  | term {written s rest : List Char} {ts : List Lexeme} (hwritten : Escapes written s)
      (h : Spells rest ts) : Spells ('"' :: (written ++ '"' :: rest)) (.term s :: ts)
  | keyword {word rest : List Char} {t : Lexeme} {ts : List Lexeme}
      (hword : Lexeme.ofKeyword? (String.ofList word) = some t)
      (hend : ∀ c ∈ rest.head?, Place.isWordChar c = false) (h : Spells rest ts) :
      Spells (word ++ rest) (t :: ts)

variable {c : Char} {cs letters chars written rest s : List Char} {t : Lexeme} {ts : List Lexeme}

theorem ofKeyword?_eq_some_iff : Lexeme.ofKeyword? (String.ofList letters) = some t ↔
    letters = ['a', 'n', 'd'] ∧ t = .and ∨ letters = ['o', 'r'] ∧ t = .or ∨
      letters = ['n', 'o', 't'] ∧ t = .not := by
  have hofList (other : List Char) :
      letters = other ↔ String.ofList letters = String.ofList other := String.ofList_inj.symm
  rw [hofList, hofList, hofList]
  change _ ↔ String.ofList letters = "and" ∧ t = .and ∨ String.ofList letters = "or" ∧ t = .or ∨
    String.ofList letters = "not" ∧ t = .not
  generalize String.ofList letters = word
  unfold Lexeme.ofKeyword?
  split <;> simp_all [eq_comm]

namespace Place

/-- The text spells the lexemes if its first character stands at the place: it goes on with the term
or the word that has been begun. -/
def Spells : Place → List Char → List Lexeme → Prop
  | between, cs, ts => Filter.Spells cs ts
  | quoted chars, cs, ts => ∃ written s rest ts', cs = written ++ '"' :: rest ∧
      Escapes written s ∧ Filter.Spells rest ts' ∧ ts = .term (chars.reverse ++ s) :: ts'
  | escaped chars, cs, ts => ∃ c written s rest ts', cs = c :: (written ++ '"' :: rest) ∧
      Escapes written s ∧ Filter.Spells rest ts' ∧ ts = .term (chars.reverse ++ c :: s) :: ts'
  | word chars, cs, ts => ∃ more rest t ts', cs = more ++ rest ∧
      (∀ c ∈ more, isWordChar c = true) ∧ (∀ c ∈ rest.head?, isWordChar c = false) ∧
      Lexeme.ofKeyword? (String.ofList (chars.reverse ++ more)) = some t ∧
      Filter.Spells rest ts' ∧ ts = t :: ts'

/-- What the text spells is what ends with its first character and what the rest of it spells. -/
def Continues (found : Option (List Lexeme × Place)) (rest : List Char) (ts : List Lexeme) : Prop :=
  ∃ ended next ts', found = some (ended, next) ∧ next.Spells rest ts' ∧ ts = ended ++ ts'

theorem continues_some {ended : List Lexeme} {next : Place} :
    Continues (some (ended, next)) rest ts ↔ ∃ ts', next.Spells rest ts' ∧ ts = ended ++ ts' := by
  constructor
  · rintro ⟨_, _, ts', hfound, hrest, hts⟩
    obtain ⟨rfl, rfl⟩ := Prod.mk.inj (Option.some.inj hfound)
    exact ⟨ts', hrest, hts⟩
  · rintro ⟨ts', hrest, hts⟩
    exact ⟨ended, next, ts', rfl, hrest, hts⟩

theorem continues_silent {next : Place} :
    Continues (some ([], next)) rest ts ↔ next.Spells rest ts := by
  rw [continues_some]
  exact ⟨fun ⟨_, hrest, hts⟩ => hts ▸ hrest, fun hrest => ⟨ts, hrest, rfl⟩⟩

theorem not_continues_none : ¬Continues none rest ts := by
  rintro ⟨_, _, _, hfound, -⟩
  cases hfound

/-! ## One character -/

theorem continues_of_spells (h : Filter.Spells (c :: cs) ts) : Continues (stepBetween c) cs ts := by
  generalize htext : c :: cs = text at h
  cases h with
  | nil => cases htext
  | spacing hc h =>
    obtain ⟨rfl, rfl⟩ := List.cons.inj htext
    rw [stepBetween, if_pos hc]
    exact continues_silent.mpr h
  | opening h =>
    obtain ⟨rfl, rfl⟩ := List.cons.inj htext
    exact continues_some.mpr ⟨_, h, rfl⟩
  | closing h =>
    obtain ⟨rfl, rfl⟩ := List.cons.inj htext
    exact continues_some.mpr ⟨_, h, rfl⟩
  | term hwritten h =>
    obtain ⟨rfl, rfl⟩ := List.cons.inj htext
    exact continues_silent.mpr ⟨_, _, _, _, rfl, hwritten, h, rfl⟩
  | @keyword letters rest t ts hword hend h =>
    have hbegun (first : Char) (more : List Char) (hletters : letters = first :: more)
        (hmore : more.all isWordChar = true)
        (hfirst : stepBetween first = some ([], word [first])) :
        Continues (stepBetween c) cs (t :: ts) := by
      subst hletters
      obtain ⟨rfl, rfl⟩ := List.cons.inj htext
      rw [hfirst]
      exact continues_silent.mpr
        ⟨more, rest, t, ts, rfl, List.all_eq_true.mp hmore, hend, hword, h, rfl⟩
    rcases ofKeyword?_eq_some_iff.mp hword with ⟨hletters, -⟩ | ⟨hletters, -⟩ | ⟨hletters, -⟩
    all_goals exact hbegun _ _ hletters (by decide) (by decide)

theorem spells_of_continues (h : Continues (stepBetween c) cs ts) : Filter.Spells (c :: cs) ts := by
  rw [stepBetween] at h
  split at h
  case isTrue hc => exact .spacing hc (continues_silent.mp h)
  split at h
  case isTrue hc =>
    obtain ⟨written, s, rest, ts', rfl, hwritten, hrest, rfl⟩ := continues_silent.mp h
    exact hc ▸ .term hwritten hrest
  split at h
  case isTrue hc =>
    obtain ⟨ts', hrest, rfl⟩ := continues_some.mp h
    exact hc ▸ .opening hrest
  split at h
  case isTrue hc =>
    obtain ⟨ts', hrest, rfl⟩ := continues_some.mp h
    exact hc ▸ .closing hrest
  split at h
  case isTrue =>
    obtain ⟨more, rest, t, ts', rfl, -, hend, hword, hrest, rfl⟩ := continues_silent.mp h
    exact .keyword hword hend hrest
  case isFalse => exact absurd h not_continues_none

theorem spells_between_iff : between.Spells (c :: cs) ts ↔ Continues (between.step c) cs ts :=
  ⟨continues_of_spells, spells_of_continues⟩

theorem spells_quoted_iff :
    (quoted chars).Spells (c :: cs) ts ↔ Continues ((quoted chars).step c) cs ts := by
  constructor
  · rintro ⟨written, s, rest, ts', hcs, hwritten, hrest, rfl⟩
    cases hwritten with
    | nil =>
      obtain ⟨rfl, rfl⟩ := List.cons.inj hcs
      exact continues_some.mpr ⟨ts', hrest, by simp⟩
    | plain hquote hslash hwritten =>
      obtain ⟨rfl, rfl⟩ := List.cons.inj hcs
      rw [step.eq_4 _ _ hquote hslash]
      exact continues_silent.mpr ⟨_, _, rest, ts', rfl, hwritten, hrest, by simp⟩
    | escaped c hwritten =>
      obtain ⟨rfl, rfl⟩ := List.cons.inj hcs
      exact continues_silent.mpr ⟨c, _, _, rest, ts', rfl, hwritten, hrest, rfl⟩
  · intro h
    by_cases hquote : c = '"'
    · subst hquote
      obtain ⟨ts', hrest, rfl⟩ := continues_some.mp h
      exact ⟨[], [], cs, ts', rfl, .nil, hrest, by simp⟩
    by_cases hslash : c = '\\'
    · subst hslash
      obtain ⟨c, written, s, rest, ts', rfl, hwritten, hrest, rfl⟩ := continues_silent.mp h
      exact ⟨_, _, rest, ts', rfl, .escaped c hwritten, hrest, rfl⟩
    rw [step.eq_4 _ _ hquote hslash] at h
    obtain ⟨written, s, rest, ts', rfl, hwritten, hrest, rfl⟩ := continues_silent.mp h
    exact ⟨_, _, rest, ts', rfl, .plain hquote hslash hwritten, hrest, by simp⟩

theorem spells_escaped_iff :
    (escaped chars).Spells (c :: cs) ts ↔ Continues ((escaped chars).step c) cs ts := by
  rw [step, continues_silent]
  constructor
  · rintro ⟨_, written, s, rest, ts', hcs, hwritten, hrest, rfl⟩
    obtain ⟨rfl, rfl⟩ := List.cons.inj hcs
    exact ⟨written, s, rest, ts', rfl, hwritten, hrest, by simp⟩
  · rintro ⟨written, s, rest, ts', rfl, hwritten, hrest, rfl⟩
    exact ⟨c, written, s, rest, ts', rfl, hwritten, hrest, by simp⟩

theorem spells_word_iff :
    (word chars).Spells (c :: cs) ts ↔ Continues ((word chars).step c) cs ts := by
  by_cases hc : isWordChar c = true
  · rw [step, if_pos hc, continues_silent]
    constructor
    · rintro ⟨more, rest, t, ts', hcs, hmore, hend, hword, hrest, rfl⟩
      cases more with
      | nil =>
        obtain rfl : c :: cs = rest := hcs
        exact absurd hc (by simp [hend c rfl])
      | cons _ more =>
        obtain ⟨rfl, rfl⟩ := List.cons.inj hcs
        refine ⟨more, rest, t, ts', rfl, (List.forall_mem_cons.mp hmore).2, hend, ?_, hrest, rfl⟩
        simpa using hword
    · rintro ⟨more, rest, t, ts', rfl, hmore, hend, hword, hrest, rfl⟩
      refine ⟨c :: more, rest, t, ts', rfl, List.forall_mem_cons.mpr ⟨hc, hmore⟩, hend, ?_, hrest,
        rfl⟩
      simpa using hword
  · rw [step, if_neg hc]
    constructor
    · rintro ⟨more, rest, t, ts', hcs, hmore, hend, hword, hrest, rfl⟩
      cases more with
      | nil =>
        obtain rfl : c :: cs = rest := hcs
        obtain ⟨ended, next, ts'', hfound, hnext, rfl⟩ := continues_of_spells hrest
        rw [List.append_nil] at hword
        exact ⟨t :: ended, next, ts'', by simp [hword, hfound], hnext, rfl⟩
      | cons _ more =>
        obtain ⟨rfl, rfl⟩ := List.cons.inj hcs
        exact absurd ((List.forall_mem_cons.mp hmore).1) hc
    · rintro ⟨ended, next, ts', hfound, hnext, rfl⟩
      simp only [Option.bind_eq_bind, Option.bind_eq_some_iff, Option.pure_def,
        Option.some.injEq, Prod.mk.injEq] at hfound
      obtain ⟨t, hword, ⟨more, place⟩, hplace, rfl, rfl⟩ := hfound
      refine ⟨[], c :: cs, t, more ++ ts', rfl, by simp, by simpa using hc, by simpa using hword,
        ?_, rfl⟩
      exact spells_of_continues ⟨more, place, ts', hplace, hnext, rfl⟩

theorem spells_cons_iff (place : Place) :
    place.Spells (c :: cs) ts ↔ Continues (place.step c) cs ts := by
  cases place with
  | between => exact spells_between_iff
  | quoted => exact spells_quoted_iff
  | escaped => exact spells_escaped_iff
  | word => exact spells_word_iff

theorem eq_nil_of_spells (h : Filter.Spells [] ts) : ts = [] := by
  generalize htext : [] = text at h
  cases h with
  | nil => rfl
  | spacing | opening | closing | term => cases htext
  | keyword hword =>
    obtain ⟨rfl, -⟩ := List.append_eq_nil_iff.mp htext.symm
    cases hword

theorem spells_nil_iff (place : Place) : place.Spells [] ts ↔ place.finish = some ts := by
  cases place with
  | between =>
    rw [finish, Option.some.injEq]
    refine ⟨fun h => (eq_nil_of_spells h).symm, ?_⟩
    rintro rfl
    exact .nil
  | quoted | escaped => simp [Spells, finish]
  | word chars =>
    rw [finish, Option.map_eq_some_iff]
    constructor
    · rintro ⟨more, rest, t, ts', hcs, -, -, hword, hrest, rfl⟩
      obtain ⟨rfl, rfl⟩ := List.append_eq_nil_iff.mp hcs.symm
      rw [List.append_nil] at hword
      exact ⟨t, hword, by rw [eq_nil_of_spells hrest]⟩
    · rintro ⟨t, hword, rfl⟩
      exact ⟨[], [], t, [], rfl, by simp, by simp, by simpa using hword, .nil, rfl⟩

end Place

theorem lexemes?_iff (place : Place) : place.lexemes? cs = some ts ↔ place.Spells cs ts := by
  induction cs generalizing place ts with
  | nil => exact (Place.spells_nil_iff place).symm
  | cons c cs ih =>
    rw [Place.spells_cons_iff, Place.lexemes?]
    simp only [Option.bind_eq_bind, Option.bind_eq_some_iff, Option.pure_def, Option.some.injEq]
    constructor
    · rintro ⟨⟨ended, next⟩, hfound, ts', hnext, rfl⟩
      exact ⟨ended, next, ts', hfound, (ih next).mp hnext, rfl⟩
    · rintro ⟨ended, next, ts', hfound, hnext, rfl⟩
      exact ⟨(ended, next), hfound, ts', (ih next).mpr hnext, rfl⟩

theorem lexemes?_between_iff : Place.between.lexemes? cs = some ts ↔ Spells cs ts :=
  lexemes?_iff .between

theorem Spells.unique {us : List Lexeme} (h : Spells cs ts) (h' : Spells cs us) : ts = us :=
  Option.some.inj ((lexemes?_between_iff.mpr h).symm.trans (lexemes?_between_iff.mpr h'))

end Daybook.Filter
