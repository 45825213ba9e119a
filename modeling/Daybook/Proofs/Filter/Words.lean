import Mathlib.Data.List.DropRight
import Mathlib.Data.List.Forall2
import Daybook.Proofs.Filter.Reading
import Daybook.Proofs.Result

/-!
# Filters from the words of a command line

Whatever a word holds, what it stands for in a written filter is read as a single term
(`writes_quote`). Main statement: the terms of a filter are the patterns that its words are, character
for character; a word that is no pattern is refused before anything is read, and nothing that is read
later is refused for its patterns (`ofWords_keepsPatterns`).
-/

namespace Daybook.Filter

open Daybook.Text Daybook.Result

/-! ## Terms and patterns -/

/-- The texts of the terms, from left to right. -/
def terms {π : Type} : Filter π → List String
  | term s _ => [s]
  | and l r => l.terms ++ r.terms
  | or l r => l.terms ++ r.terms
  | not inner => inner.terms

def termsIn (ts : List Lexeme) : List String :=
  ts.filterMap fun
    | .term s => some (String.ofList s)
    | _ => none

/-- A word without blanks at its ends, without the parentheses that it begins with, and without
those that it ends with. -/
def innerText (word : String) : List Char :=
  ((trim word.toList).dropWhile (· = '(')).rdropWhile (· = ')')

/-- The pattern that a word is: what is inside, unless there is nothing or a keyword. -/
def patternOf? (word : String) : Option String :=
  let s := String.ofList (innerText word)
  if s ∈ ["", "and", "or", "not"] then none else some s

variable {π : Type} [PatternEngine π] {f left : Filter π} {ts us : List Lexeme}
  {s part : List Char} {word : String}

theorem termsIn_append : termsIn (ts ++ us) = termsIn ts ++ termsIn us := List.filterMap_append

theorem termsIn_map_term (terms : List (List Char)) :
    termsIn (terms.map .term) = terms.map String.ofList := by
  rw [termsIn, List.filterMap_map, ← List.filterMap_eq_map]
  rfl

theorem terms_joinTerms? {more : List (List Char)} (h : joinTerms? left more = some f) :
    f.terms = left.terms ++ more.map String.ofList := by
  induction more generalizing left with
  | nil =>
    obtain rfl := Option.some.inj h
    rw [List.map_nil, List.append_nil]
  | cons s more ih =>
    rw [joinTerms?_cons, Option.bind_eq_some_iff] at h
    obtain ⟨g, hg, h⟩ := h
    obtain ⟨p, -, rfl⟩ := ofTerm?_eq_some_iff.mp hg
    rw [ih h]
    simp [terms]

theorem Phrase.terms_eq {k : PhraseKind} {p : Phrase k} (h : p.filter? = some f) :
    f.terms = termsIn p.lexemes := by
  induction p generalizing f with
  | terms first more =>
    obtain ⟨g, hg, h⟩ := Option.bind_eq_some_iff.mp h
    obtain ⟨p, -, rfl⟩ := ofTerm?_eq_some_iff.mp hg
    rw [terms_joinTerms? h, lexemes, ← List.map_cons, termsIn_map_term]
    rfl
  | group inner ih =>
    rw [ih h, lexemes, ← List.singleton_append, termsIn_append, termsIn_append]
    simp [termsIn]
  | not inner ih =>
    obtain ⟨g, hg, rfl⟩ := Option.map_eq_some_iff.mp h
    rw [Filter.terms, ih hg]
    rfl
  | value v ih => exact ih h
  | conjunction c ih => exact ih h
  | and left right ihl ihr =>
    obtain ⟨f₁, f₂, h₁, h₂, rfl⟩ := filter?_and_eq_some_iff.mp h
    rw [Filter.terms, ihl h₁, ihr h₂, lexemes, termsIn_append]
    rfl
  | or left right ihl ihr =>
    obtain ⟨f₁, f₂, h₁, h₂, rfl⟩ := filter?_or_eq_some_iff.mp h
    rw [Filter.terms, ihl h₁, ihr h₂, lexemes, termsIn_append]
    rfl

/-! ## Parts of a written filter -/

/-- The part spells the lexeme, wherever a blank or nothing follows it. -/
def Writes (part : List Char) (t : Lexeme) : Prop :=
  ∀ {rest ts}, (∀ c ∈ rest.head?, c = ' ') → Spells rest ts → Spells (part ++ rest) (t :: ts)

theorem writes_opening : Writes ['('] .opening := fun _ h => .opening h

theorem writes_closing : Writes [')'] .closing := fun _ h => .closing h

theorem writes_keyword {t : Lexeme} (h : Lexeme.ofKeyword? (String.ofList s) = some t) :
    Writes s t := by
  intro rest ts hrest hspells
  refine .keyword h (fun c hc => ?_) hspells
  obtain rfl := hrest c hc
  decide

theorem escapes_flatMap (s : List Char) :
    Escapes (s.flatMap fun c => if c = '"' || c = '\\' then ['\\', c] else [c]) s := by
  induction s with
  | nil => exact .nil
  | cons c s ih =>
    rw [List.flatMap_cons]
    split
    case isTrue => exact .escaped c ih
    case isFalse h =>
      simp only [Bool.or_eq_true, decide_eq_true_eq, not_or] at h
      exact .plain h.1 h.2 ih

theorem writes_quote (s : List Char) : Writes (quote s) (.term s) := by
  intro rest ts _ hspells
  have hquote : quote s ++ rest = '"' :: ((s.flatMap fun c =>
      if c = '"' || c = '\\' then ['\\', c] else [c]) ++ '"' :: rest) := by
    simp only [quote, List.cons_append, List.append_assoc, List.nil_append]
  rw [hquote]
  exact .term (escapes_flatMap s) hspells

theorem spells_intercalate {parts : List (List Char)} (h : List.Forall₂ Writes parts ts) :
    Spells ([' '].intercalate parts) ts := by
  induction h with
  | nil => exact .nil
  | @cons part t parts ts hpart hparts ih =>
    cases parts with
    | nil =>
      cases hparts
      rw [List.intercalate_singleton, ← List.append_nil part]
      exact hpart nofun .nil
    | cons next parts =>
      rw [List.intercalate_cons_cons, List.append_assoc]
      refine hpart (fun c hc => (Option.some.inj hc).symm) ?_
      exact .spacing (by decide) ih

/-! ## Words -/

/-- The parts spell lexemes whose terms are those texts, and all of them patterns. -/
def WriteTerms (π : Type) [PatternEngine π] (parts : List (List Char)) (terms : List String) :
    Prop :=
  ∃ ts, List.Forall₂ Writes parts ts ∧ termsIn ts = terms ∧ Readable π ts

theorem WriteTerms.append {parts parts' : List (List Char)} {terms terms' : List String}
    (h : WriteTerms π parts terms) (h' : WriteTerms π parts' terms') :
    WriteTerms π (parts ++ parts') (terms ++ terms') := by
  obtain ⟨ts, hts, rfl, hreadable⟩ := h
  obtain ⟨us, hus, rfl, hreadable'⟩ := h'
  exact ⟨ts ++ us, List.rel_append hts hus, termsIn_append,
    readable_append.mpr ⟨hreadable, hreadable'⟩⟩

theorem writeTerms_nil : WriteTerms π [] [] := ⟨[], .nil, rfl, nofun⟩

theorem writeTerms_singleton {t : Lexeme} (h : Writes part t) (ht : ∀ s, .term s ≠ t) :
    WriteTerms π [part] [] := by
  refine ⟨[t], .cons h .nil, ?_, fun s hs => absurd (List.mem_singleton.mp hs) (ht s)⟩
  cases t with
  | term s => exact absurd rfl (ht s)
  | _ => rfl

theorem writeTerms_replicate {t : Lexeme} (h : Writes part t) (ht : ∀ s, .term s ≠ t) (n : Nat) :
    WriteTerms π (List.replicate n part) [] := by
  induction n with
  | zero => exact writeTerms_nil
  | succ n ih => exact (writeTerms_singleton h ht).append ih

theorem writeTerms_quote (h : IsPattern π (String.ofList s)) :
    WriteTerms π [quote s] [String.ofList s] := by
  refine ⟨[.term s], .cons (writes_quote s) .nil, rfl, fun s' hs => ?_⟩
  obtain rfl := Lexeme.term.inj (List.mem_singleton.mp hs)
  exact h

theorem isSome_ofKeyword?_iff : (Lexeme.ofKeyword? word).isSome ↔ word ∈ ["and", "or", "not"] := by
  unfold Lexeme.ofKeyword?
  split <;> simp_all

theorem splitWord_eq (word : String) :
    ∃ opens closes, splitWord word = (opens, innerText word, closes) := ⟨_, _, rfl⟩

theorem ensures_expandWord (π : Type) [PatternEngine π] (word : String) :
    Ensures (fun parts => WriteTerms π parts (patternOf? word).toList)
      (fun e => ∃ s, patternOf? word = some s ∧ ¬IsPattern π s ∧ e = .invalidPattern s)
      (expandWord π word) := by
  obtain ⟨opens, closes, hsplit⟩ := splitWord_eq word
  have hparts {middle : List (List Char)} {terms : List String} (h : WriteTerms π middle terms) :
      WriteTerms π (List.replicate opens ['('] ++ middle ++ List.replicate closes [')']) terms := by
    have h := ((writeTerms_replicate writes_opening nofun opens).append h).append
      (writeTerms_replicate writes_closing nofun closes)
    rwa [List.append_nil] at h
  rw [expandWord, hsplit]
  generalize hinner : innerText word = inner at *
  have hpattern : patternOf? word =
      if String.ofList inner ∈ ["", "and", "or", "not"] then none
      else some (String.ofList inner) := by
    rw [patternOf?, hinner]
  dsimp only
  split
  case isTrue hnil =>
    rw [hpattern, if_pos (by simp [hnil])]
    exact hparts writeTerms_nil
  case isFalse hne =>
  split
  case isTrue hkeyword =>
    obtain ⟨t, ht⟩ := Option.isSome_iff_exists.mp hkeyword
    rw [hpattern, if_pos (List.mem_cons_of_mem _ (isSome_ofKeyword?_iff.mp hkeyword))]
    refine hparts (writeTerms_singleton (writes_keyword ht) ?_)
    rintro s rfl
    simp [ofKeyword?_eq_some_iff] at ht
  case isFalse hword =>
  have hsome : patternOf? word = some (String.ofList inner) := by
    rw [hpattern, if_neg]
    rw [List.mem_cons, ← isSome_ofKeyword?_iff]
    rintro (hempty | hkeyword)
    · exact hne (String.ofList_injective hempty)
    · exact hword hkeyword
  rw [hsome]
  split
  case isTrue hvalid => exact hparts (writeTerms_quote hvalid)
  case isFalse hinvalid => exact ⟨_, rfl, hinvalid, rfl⟩

instance : DecidablePred (IsPattern π) := fun _ => inferInstanceAs (Decidable (_ = true))

def firstInvalid? (π : Type) [PatternEngine π] (patterns : List String) : Option String :=
  patterns.find? fun s => ¬IsPattern π s

theorem firstInvalid?_termsIn (h : Readable π ts) : firstInvalid? π (termsIn ts) = none := by
  refine List.find?_eq_none.mpr fun s hs => ?_
  obtain ⟨t, ht, hterm⟩ := List.mem_filterMap.mp hs
  split at hterm
  case h_1 s' =>
    obtain rfl := Option.some.inj hterm
    simp [h s' ht]
  case h_2 => cases hterm

theorem WriteTerms.firstInvalid? {parts : List (List Char)} {terms : List String}
    (h : WriteTerms π parts terms) : firstInvalid? π terms = none := by
  obtain ⟨ts, -, rfl, hreadable⟩ := h
  exact firstInvalid?_termsIn hreadable

/-- The words stand for parts whose terms are the patterns that they are; or the first pattern that
cannot be read is refused. -/
theorem ensures_expandWords (π : Type) [PatternEngine π] (words : List String) :
    Ensures (fun parts => WriteTerms π parts.flatten (words.filterMap patternOf?))
      (fun e => ∃ s, firstInvalid? π (words.filterMap patternOf?) = some s ∧ e = .invalidPattern s)
      (words.mapM (expandWord π)) := by
  induction words with
  | nil => exact writeTerms_nil
  | cons word words ih =>
    rw [List.mapM_cons]
    have hpatterns : (word :: words).filterMap patternOf? =
        (patternOf? word).toList ++ words.filterMap patternOf? := by
      rw [List.filterMap_cons]
      cases patternOf? word <;> rfl
    rw [hpatterns]
    have hword := ensures_expandWord π word
    cases hparts : expandWord π word with
    | error e =>
      rw [hparts] at hword
      obtain ⟨s, hs, hinvalid, rfl⟩ := hword
      refine ⟨s, ?_, rfl⟩
      simp [hs, firstInvalid?, hinvalid]
    | ok parts =>
      rw [hparts] at hword
      have hword : WriteTerms π parts (patternOf? word).toList := hword
      cases hmore : words.mapM (expandWord π) with
      | error e =>
        rw [hmore] at ih
        obtain ⟨s, hs, rfl⟩ := ih
        refine ⟨s, ?_, rfl⟩
        rw [firstInvalid?, List.find?_append, ← firstInvalid?, hword.firstInvalid?]
        exact hs
      | ok more =>
        rw [hmore] at ih
        exact hword.append ih

/-- The words stand for a text that spells terms and nothing that could be taken for others. -/
theorem ensures_textOfWords (π : Type) [PatternEngine π] (words : List String) :
    Ensures (fun source => ∃ ts, Spells source.toList ts ∧ Readable π ts ∧
        termsIn ts = words.filterMap patternOf?)
      (fun e => ∃ s, firstInvalid? π (words.filterMap patternOf?) = some s ∧ e = .invalidPattern s)
      (textOfWords π words) := by
  refine (ensures_expandWords π words).bind fun parts hparts => ?_
  obtain ⟨ts, hts, hterms, hreadable⟩ := hparts
  refine ⟨ts, ?_, hreadable, hterms⟩
  rw [String.toList_intercalate, List.map_map]
  have hid : (String.toList ∘ String.ofList) = id := funext fun _ => String.toList_ofList
  rw [hid, List.map_id]
  exact spells_intercalate hts

theorem ofText_ne_invalidPattern (source s : String) :
    (ofText source : Except FilterError (Filter π)) ≠ .error (.invalidPattern s) := by
  rw [ofText]
  split
  · simp
  · split <;> simp

variable {words : List String} {source : String}

theorem terms_of_ofWords (h : ofWords words = .ok (some f)) :
    f.terms = words.filterMap patternOf? := by
  obtain ⟨source, hsource, h⟩ := bind_eq_ok_iff.mp h
  obtain ⟨ts, hts, -, hterms⟩ := (ensures_iff.mp (ensures_textOfWords π words)).1 source hsource
  split at h
  case isTrue => cases h
  obtain ⟨g, hg, h⟩ := bind_eq_ok_iff.mp h
  obtain rfl := Option.some.inj (Except.ok.inj h)
  obtain ⟨e, hspells, -, hfilter⟩ := ofText_eq_ok_iff.mp hg
  rw [Phrase.terms_eq hfilter, hspells.unique hts, hterms]

theorem ofWords_eq_invalidPattern_iff (words : List String) (s : String) :
    (ofWords words : Except FilterError (Option (Filter π))) = .error (.invalidPattern s) ↔
      firstInvalid? π (words.filterMap patternOf?) = some s := by
  have htext := ensures_iff.mp (ensures_textOfWords π words)
  constructor
  · intro h
    rcases bind_eq_error_iff.mp h with h | ⟨source, -, h⟩
    · obtain ⟨s', hs', heq⟩ := htext.2 _ h
      rwa [FilterError.invalidPattern.inj heq]
    split at h
    case isTrue => cases h
    rcases bind_eq_error_iff.mp h with h | ⟨_, -, h⟩
    · exact absurd h (ofText_ne_invalidPattern source s)
    · cases h
  · intro h
    cases hsource : textOfWords π words with
    | error e =>
      obtain ⟨s', hs', rfl⟩ := htext.2 e hsource
      obtain rfl := Option.some.inj (hs'.symm.trans h)
      exact bind_eq_error_iff.mpr (.inl hsource)
    | ok source =>
      obtain ⟨ts, -, hreadable, hterms⟩ := htext.1 source hsource
      rw [← hterms, firstInvalid?_termsIn hreadable] at h
      cases h

theorem exists_spells_of_textOfWords (h : textOfWords π words = .ok source) :
    ∃ ts, Spells source.toList ts ∧ Readable π ts ∧
      ((∃ f : Filter π, ofText source = .ok f) ↔ ∃ e : Phrase .choice, e.lexemes = ts) := by
  obtain ⟨ts, hts, hreadable, -⟩ := (ensures_iff.mp (ensures_textOfWords π words)).1 source h
  refine ⟨ts, hts, hreadable, exists_ofText_iff.trans ⟨?_, ?_⟩⟩
  · rintro ⟨e, hspells, -⟩
    exact ⟨e, hspells.unique hts⟩
  · rintro ⟨e, rfl⟩
    exact ⟨e, hts, hreadable⟩

/-- The terms of the filter are the patterns that the words are, in their order. A pattern that
cannot be read is refused, the first one by name. Otherwise the words stand for a text that is read
unless its lexemes have no proper form, whatever its terms are. This is so whatever the patterns
are. -/
theorem ofWords_keepsPatterns (π : Type) [PatternEngine π] (words : List String) :
    (∀ f : Filter π, ofWords words = .ok (some f) → f.terms = words.filterMap patternOf?) ∧
    (∀ s, (ofWords words : Except FilterError (Option (Filter π))) = .error (.invalidPattern s) ↔
      firstInvalid? π (words.filterMap patternOf?) = some s) ∧
    ∀ source, textOfWords π words = .ok source → ∃ ts, Spells source.toList ts ∧ Readable π ts ∧
      ((∃ f : Filter π, ofText source = .ok f) ↔ ∃ e : Phrase .choice, e.lexemes = ts) :=
  ⟨fun _ => terms_of_ofWords, ofWords_eq_invalidPattern_iff words,
    fun _ => exists_spells_of_textOfWords⟩

/-- Quotes, a backslash, blanks and keywords inside the words stay inside the terms. -/
theorem ofWords_keepsPatterns_quoted :
    let words := ["(say \"or\" not", "or", "not", "a\\.b and c)"]
    ∃ f : Filter Pattern,
      ofWords words = .ok (some f) ∧ f.terms = ["say \"or\" not", "a\\.b and c"] := by
  intro words
  have hsome : (ofWords words : Except _ (Option (Filter Pattern))).toOption.join.isSome := by
    decide +kernel
  obtain ⟨f, hf⟩ := Option.isSome_iff_exists.mp hsome
  have hok : ofWords words = .ok (some f) := by
    generalize (ofWords words : Except _ (Option (Filter Pattern))) = r at hf ⊢
    cases r with
    | error e => cases hf
    | ok o =>
      obtain rfl : o = some f := hf
      rfl
  refine ⟨f, hok, ((ofWords_keepsPatterns Pattern words).1 f hok).trans ?_⟩
  decide +kernel

end Daybook.Filter
