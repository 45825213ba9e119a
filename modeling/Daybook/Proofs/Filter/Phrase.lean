import Daybook.Filter

/-!
# Phrases of filters

The grammar of filters, as the trees that it derives: values are adjacent terms, groups and
negations; conjunctions are values joined by `and`; choices are conjunctions joined by `or`. Two
phrases may have the same lexemes, because a negation may end early. Main statement: one of them has
negations only that extend to the end of their groups (`exists_extending`).
-/

namespace Daybook.Filter

/-- The kinds of phrases. -/
inductive PhraseKind where
  | value
  | conjunction
  | choice

/-- The filter with terms beside it, any of which may be found instead. -/
def joinTerms? {π : Type} [PatternEngine π] (left : Filter π) (more : List (List Char)) :
    Option (Filter π) :=
  more.foldlM (fun left s => (ofTerm? s).map (Filter.or left)) left

/-- How lexemes are put together. Operators of one kind associate to the left. -/
inductive Phrase : PhraseKind → Type where
  | terms (first : List Char) (more : List (List Char)) : Phrase .value
  | group (inner : Phrase .choice) : Phrase .value
  | not (inner : Phrase .choice) : Phrase .value
  | value (v : Phrase .value) : Phrase .conjunction
  | and (left : Phrase .conjunction) (right : Phrase .value) : Phrase .conjunction
  | conjunction (c : Phrase .conjunction) : Phrase .choice
  | or (left : Phrase .choice) (right : Phrase .conjunction) : Phrase .choice

namespace Phrase

variable {k : PhraseKind}

def lexemes : {k : PhraseKind} → Phrase k → List Lexeme
  | _, terms first more => .term first :: more.map .term
  | _, group inner => .opening :: (inner.lexemes ++ [.closing])
  | _, not inner => .not :: inner.lexemes
  | _, value v => v.lexemes
  | _, and left right => left.lexemes ++ .and :: right.lexemes
  | _, conjunction c => c.lexemes
  | _, or left right => left.lexemes ++ .or :: right.lexemes

/-- The filter that the phrase writes, if the patterns of its terms can be read. -/
def filter? {π : Type} [PatternEngine π] : {k : PhraseKind} → Phrase k → Option (Filter π)
  | _, terms first more => do joinTerms? (← ofTerm? first) more
  | _, group inner => inner.filter?
  | _, not inner => inner.filter?.map .not
  | _, value v => v.filter?
  | _, and left right => do return .and (← left.filter?) (← right.filter?)
  | _, conjunction c => c.filter?
  | _, or left right => do return .or (← left.filter?) (← right.filter?)

/-- What the phrase says, if `found` are the terms that are found. -/
def Holds (found : List Char → Prop) : {k : PhraseKind} → Phrase k → Prop
  | _, terms first more => found first ∨ ∃ s ∈ more, found s
  | _, group inner => inner.Holds found
  | _, not inner => ¬inner.Holds found
  | _, value v => v.Holds found
  | _, and left right => left.Holds found ∧ right.Holds found
  | _, conjunction c => c.Holds found
  | _, or left right => left.Holds found ∨ right.Holds found

/-- Whether the phrase ends with that of a negation. -/
def endsNegated : {k : PhraseKind} → Phrase k → Bool
  | _, terms .. => false
  | _, group _ => false
  | _, not _ => true
  | _, value v => v.endsNegated
  | _, and _ right => right.endsNegated
  | _, conjunction c => c.endsNegated
  | _, or _ right => right.endsNegated

/-- Negations extend to the end of their group, or of all if they stand in none: no operator joins
anything to a phrase that ends with that of a negation. -/
def Extending : {k : PhraseKind} → Phrase k → Prop
  | _, terms .. => True
  | _, group inner => inner.Extending
  | _, not inner => inner.Extending
  | _, value v => v.Extending
  | _, and left right => left.Extending ∧ left.endsNegated = false ∧ right.Extending
  | _, conjunction c => c.Extending
  | _, or left right => left.Extending ∧ left.endsNegated = false ∧ right.Extending

theorem length_lexemes_pos (p : Phrase k) : 0 < p.lexemes.length := by
  induction p with
  | terms | group | not => exact Nat.succ_pos _
  | value v ih => exact ih
  | conjunction c ih => exact ih
  | and left right | or left right =>
    rw [lexemes, List.length_append, List.length_cons]
    omega

/-! ## Negations that extend -/

/-- Lexemes can be added to a phrase that ends with that of a negation, if they can be added to
choices: they become part of what is negated. -/
theorem exists_added {added : List Lexeme}
    (hadd : ∀ e : Phrase .choice, e.Extending → e.endsNegated = false →
      ∃ e' : Phrase .choice, e'.lexemes = e.lexemes ++ added ∧ e'.Extending)
    (p : Phrase k) (hp : p.Extending) (hends : p.endsNegated = true) :
    ∃ p' : Phrase k, p'.lexemes = p.lexemes ++ added ∧ p'.Extending := by
  induction p with
  | terms | group => cases hends
  | not inner ih =>
    have hinner : ∃ e : Phrase .choice, e.lexemes = inner.lexemes ++ added ∧ e.Extending := by
      cases hclosed : inner.endsNegated with
      | false => exact hadd inner hp hclosed
      | true => exact ih hp hclosed
    obtain ⟨e, he, hextending⟩ := hinner
    exact ⟨not e, by rw [lexemes, he, lexemes, List.cons_append], hextending⟩
  | value v ih =>
    obtain ⟨v', hv', hextending⟩ := ih hp hends
    exact ⟨value v', hv', hextending⟩
  | and left right _ ih =>
    obtain ⟨right', hright', hextending⟩ := ih hp.2.2 hends
    exact ⟨and left right', by simp [lexemes, hright'], hp.1, hp.2.1, hextending⟩
  | conjunction c ih =>
    obtain ⟨c', hc', hextending⟩ := ih hp hends
    exact ⟨conjunction c', hc', hextending⟩
  | or left right _ ih =>
    obtain ⟨right', hright', hextending⟩ := ih hp.2.2 hends
    exact ⟨or left right', by simp [lexemes, hright'], hp.1, hp.2.1, hextending⟩

theorem exists_joined_value {right : Phrase .value} (hright : right.Extending) (e : Phrase .choice)
    (he : e.Extending) (hends : e.endsNegated = false) :
    ∃ e' : Phrase .choice, e'.lexemes = e.lexemes ++ .and :: right.lexemes ∧ e'.Extending := by
  cases e with
  | conjunction c => exact ⟨conjunction (and c right), rfl, he, hends, hright⟩
  | or left c =>
    exact ⟨or left (and c right), by simp [lexemes], he.1, he.2.1, he.2.2, hends, hright⟩

theorem exists_extending (p : Phrase k) :
    ∃ p' : Phrase k, p'.lexemes = p.lexemes ∧ p'.Extending := by
  induction p with
  | terms first more => exact ⟨terms first more, rfl, trivial⟩
  | group inner ih =>
    obtain ⟨e, he, hextending⟩ := ih
    exact ⟨group e, by rw [lexemes, he, lexemes], hextending⟩
  | not inner ih =>
    obtain ⟨e, he, hextending⟩ := ih
    exact ⟨not e, by rw [lexemes, he, lexemes], hextending⟩
  | value v ih =>
    obtain ⟨v', hv', hextending⟩ := ih
    exact ⟨value v', hv', hextending⟩
  | conjunction c ih =>
    obtain ⟨c', hc', hextending⟩ := ih
    exact ⟨conjunction c', hc', hextending⟩
  | and left right ihl ihr =>
    obtain ⟨l, hl, hextending⟩ := ihl
    obtain ⟨r, hr, hright⟩ := ihr
    rw [lexemes, ← hl, ← hr]
    cases hends : l.endsNegated with
    | false => exact ⟨and l r, rfl, hextending, hends, hright⟩
    | true => exact exists_added (exists_joined_value hright) l hextending hends
  | or left right ihl ihr =>
    obtain ⟨l, hl, hextending⟩ := ihl
    obtain ⟨r, hr, hright⟩ := ihr
    rw [lexemes, ← hl, ← hr]
    cases hends : l.endsNegated with
    | false => exact ⟨or l r, rfl, hextending, hends, hright⟩
    | true =>
      exact exists_added (fun e he hclosed => ⟨or e r, rfl, he, hclosed, hright⟩) l hextending hends

end Phrase

/-! ## What phrases say -/

section

variable (π : Type) [PatternEngine π]

def IsPattern (text : String) : Prop := (PatternEngine.ofText? text : Option π).isSome

def Readable (ts : List Lexeme) : Prop := ∀ s, .term s ∈ ts → IsPattern π (String.ofList s)

def Found (name : String) (s : List Char) : Prop :=
  ∃ p : π, PatternEngine.ofText? (String.ofList s) = some p ∧ PatternEngine.foundIn p name = true

end

variable {π : Type} [PatternEngine π] {k : PhraseKind} {f left : Filter π} {s : List Char}
  {ts : List Lexeme} {name : String}

theorem readable_append {us : List Lexeme} :
    Readable π (ts ++ us) ↔ Readable π ts ∧ Readable π us := by
  simp only [Readable, List.mem_append, or_imp, forall_and]

theorem readable_cons {t : Lexeme} (ht : ∀ s, .term s ≠ t) :
    Readable π (t :: ts) ↔ Readable π ts := by
  simp [Readable, ht]

theorem readable_terms {terms : List (List Char)} :
    Readable π (terms.map .term) ↔ ∀ s ∈ terms, IsPattern π (String.ofList s) := by
  simp [Readable]

theorem ofTerm?_eq_some_iff : ofTerm? s = some f ↔
    ∃ p, PatternEngine.ofText? (String.ofList s) = some p ∧ term (String.ofList s) p = f :=
  Option.map_eq_some_iff

theorem selects_ofTerm? (h : ofTerm? s = some f) : f.selects name = true ↔ Found π name s := by
  obtain ⟨p, hp, rfl⟩ := ofTerm?_eq_some_iff.mp h
  simp [selects, Found, hp]

theorem joinTerms?_cons (left : Filter π) (s : List Char) (more : List (List Char)) :
    joinTerms? left (s :: more) = (ofTerm? s).bind fun f => joinTerms? (.or left f) more := by
  rw [joinTerms?, List.foldlM_cons]
  cases (ofTerm? s : Option (Filter π)) <;> rfl

theorem isSome_joinTerms?_iff (left : Filter π) (more : List (List Char)) :
    (joinTerms? left more).isSome ↔ ∀ s ∈ more, IsPattern π (String.ofList s) := by
  induction more generalizing left with
  | nil => exact ⟨fun _ s hs => absurd hs List.not_mem_nil, fun _ => rfl⟩
  | cons s more ih =>
    rw [joinTerms?_cons, List.forall_mem_cons, ofTerm?, IsPattern]
    cases (PatternEngine.ofText? (String.ofList s) : Option π) with
    | none => simp
    | some p => simp [ih]

theorem selects_joinTerms? {more : List (List Char)} (h : joinTerms? left more = some f) :
    f.selects name = true ↔ left.selects name = true ∨ ∃ s ∈ more, Found π name s := by
  induction more generalizing left with
  | nil =>
    obtain rfl := Option.some.inj h
    simp
  | cons s more ih =>
    rw [joinTerms?_cons, Option.bind_eq_some_iff] at h
    obtain ⟨g, hg, h⟩ := h
    rw [ih h, selects, Bool.or_eq_true, selects_ofTerm? hg]
    simp [or_assoc]

namespace Phrase

theorem filter?_and_eq_some_iff {l : Phrase .conjunction} {r : Phrase .value} :
    (and l r).filter? = some f ↔
      ∃ f₁ f₂, l.filter? = some f₁ ∧ r.filter? = some f₂ ∧ .and f₁ f₂ = f := by
  simp [filter?, Option.bind_eq_some_iff]

theorem filter?_or_eq_some_iff {l : Phrase .choice} {r : Phrase .conjunction} :
    (or l r).filter? = some f ↔
      ∃ f₁ f₂, l.filter? = some f₁ ∧ r.filter? = some f₂ ∧ .or f₁ f₂ = f := by
  simp [filter?, Option.bind_eq_some_iff]

theorem isSome_filter?_iff (p : Phrase k) :
    (p.filter? : Option (Filter π)).isSome ↔ Readable π p.lexemes := by
  induction p with
  | terms first more =>
    rw [filter?, lexemes, ← List.map_cons, readable_terms, List.forall_mem_cons, ofTerm?, IsPattern]
    cases (PatternEngine.ofText? (String.ofList first) : Option π) with
    | none => simp
    | some p => simpa using isSome_joinTerms?_iff _ more
  | group inner ih =>
    rw [filter?, ih, lexemes, readable_cons (by simp), readable_append]
    simp [Readable]
  | not inner ih => rw [filter?, Option.isSome_map, ih, lexemes, readable_cons (by simp)]
  | value v ih => exact ih
  | conjunction c ih => exact ih
  | and left right ihl ihr =>
    rw [lexemes, readable_append, readable_cons (by simp), ← ihl, ← ihr, filter?]
    cases (left.filter? : Option (Filter π)) <;> cases (right.filter? : Option (Filter π)) <;> simp
  | or left right ihl ihr =>
    rw [lexemes, readable_append, readable_cons (by simp), ← ihl, ← ihr, filter?]
    cases (left.filter? : Option (Filter π)) <;> cases (right.filter? : Option (Filter π)) <;> simp

theorem selects_iff {p : Phrase k} (h : p.filter? = some f) :
    f.selects name = true ↔ p.Holds (Found π name) := by
  induction p generalizing f with
  | terms first more =>
    obtain ⟨g, hg, h⟩ := Option.bind_eq_some_iff.mp h
    rw [selects_joinTerms? h, selects_ofTerm? hg, Holds]
  | group inner ih => exact ih h
  | not inner ih =>
    obtain ⟨g, hg, rfl⟩ := Option.map_eq_some_iff.mp h
    rw [selects, Bool.not_eq_true', Bool.eq_false_iff, Ne, ih hg, Holds]
  | value v ih => exact ih h
  | conjunction c ih => exact ih h
  | and left right ihl ihr =>
    obtain ⟨f₁, f₂, h₁, h₂, rfl⟩ := filter?_and_eq_some_iff.mp h
    rw [selects, Bool.and_eq_true, ihl h₁, ihr h₂, Holds]
  | or left right ihl ihr =>
    obtain ⟨f₁, f₂, h₁, h₂, rfl⟩ := filter?_or_eq_some_iff.mp h
    rw [selects, Bool.or_eq_true, ihl h₁, ihr h₂, Holds]

end Phrase

end Daybook.Filter
