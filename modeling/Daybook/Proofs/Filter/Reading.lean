import Daybook.Proofs.Filter.Phrase
import Daybook.Proofs.Filter.Spelling

/-!
# Reading filters

What is read off lexemes is a phrase, in which negations extend to the end of their groups
(`readsPhrases`), and every phrase of that kind is read (`isRead_of_extending`). Main statement: a text is
read if and only if it spells a phrase whose terms are patterns; the filter is that of the phrase in
which negations extend (`ofText_reads`).
-/

namespace Daybook.Filter

variable {π : Type} [PatternEngine π] {j k : PhraseKind} {f left : Filter π}
  {ts mid rest : List Lexeme} {n : Nat}

/-! ## Terms -/

theorem readTerms?_append {more : List (List Char)} (h : ∀ s, rest.head? ≠ some (.term s))
    (left : Filter π) :
    readTerms? left (more.map .term ++ rest) = (joinTerms? left more).map (·, rest) := by
  induction more generalizing left with
  | nil =>
    have hrest : ∀ s rest', rest = .term s :: rest' → False := fun s rest' hrest =>
      h s (hrest ▸ rfl)
    rw [List.map_nil, List.nil_append, readTerms?.eq_2 left rest hrest]
    rfl
  | cons s more ih =>
    rw [List.map_cons, List.cons_append, readTerms?, joinTerms?_cons]
    cases (ofTerm? s : Option (Filter π)) with
    | none => rfl
    | some g => exact ih _

theorem exists_of_readTerms? (h : readTerms? left ts = some (f, rest)) :
    ∃ more, ts = more.map .term ++ rest ∧ joinTerms? left more = some f := by
  fun_induction readTerms? left ts with
  | case1 left s ts ih =>
    obtain ⟨g, hg, h⟩ := Option.bind_eq_some_iff.mp h
    obtain ⟨more, rfl, hmore⟩ := ih g h
    exact ⟨s :: more, rfl, by rw [joinTerms?_cons, hg]; exact hmore⟩
  | case2 left ts =>
    obtain ⟨rfl, rfl⟩ := Prod.mk.inj (Option.some.inj h)
    exact ⟨[], rfl, rfl⟩

/-! ## One step of each reader -/

theorem readValue?_term (n : Nat) (s : List Char) (ts : List Lexeme) :
    readValue? (n + 1) (.term s :: ts) =
      (ofTerm? s : Option (Filter π)).bind fun f => readTerms? f ts := rfl

theorem readValue?_opening_eq_some_iff : readValue? (n + 1) (.opening :: ts) = some (f, rest) ↔
    readOr? n ts = some (f, .closing :: rest) := by
  rw [readValue?, Option.bind_eq_bind, Option.bind_eq_some_iff]
  constructor
  · rintro ⟨⟨inner, mid⟩, hinner, h⟩
    split at h
    case h_1 heq =>
      obtain ⟨rfl, rfl⟩ := Prod.mk.inj heq
      obtain ⟨rfl, rfl⟩ := Prod.mk.inj (Option.some.inj h)
      exact hinner
    case h_2 => cases h
  · intro h
    exact ⟨_, h, rfl⟩

theorem readValue?_not_eq_some_iff : readValue? (n + 1) (.not :: ts) = some (f, rest) ↔
    ∃ inner, readOr? n ts = some (inner, rest) ∧ .not inner = f := by
  rw [readValue?, Option.bind_eq_bind, Option.bind_eq_some_iff]
  constructor
  · rintro ⟨⟨inner, mid⟩, hinner, h⟩
    obtain ⟨rfl, rfl⟩ := Prod.mk.inj (Option.some.inj h)
    exact ⟨inner, hinner, rfl⟩
  · rintro ⟨inner, hinner, rfl⟩
    exact ⟨_, hinner, rfl⟩

theorem readAnd?_succ (n : Nat) (ts : List Lexeme) :
    (readAnd? (n + 1) ts : Option (Filter π × List Lexeme)) =
      (readValue? n ts).bind fun r => readAnds? n r.1 r.2 := rfl

theorem readAnds?_and (n : Nat) (left : Filter π) (ts : List Lexeme) :
    readAnds? (n + 1) left (.and :: ts) =
      (readValue? n ts).bind fun r => readAnds? n (.and left r.1) r.2 := rfl

theorem readAnds?_stop (h : ts.head? ≠ some .and) :
    readAnds? (n + 1) left ts = some (left, ts) := by
  rw [readAnds?]
  rintro rest rfl
  exact h rfl

theorem readOr?_succ (n : Nat) (ts : List Lexeme) :
    (readOr? (n + 1) ts : Option (Filter π × List Lexeme)) =
      (readAnd? n ts).bind fun r => readOrs? n r.1 r.2 := rfl

theorem readOrs?_or (n : Nat) (left : Filter π) (ts : List Lexeme) :
    readOrs? (n + 1) left (.or :: ts) =
      (readAnd? n ts).bind fun r => readOrs? n (.or left r.1) r.2 := rfl

theorem readOrs?_stop (h : ts.head? ≠ some .or) :
    readOrs? (n + 1) left ts = some (left, ts) := by
  rw [readOrs?]
  rintro rest rfl
  exact h rfl

/-! ## What is read is a phrase -/

/-- No operator follows that joins phrases of the kind, and none at all follows a negation. -/
def Stops (k : PhraseKind) (negated : Bool) (rest : List Lexeme) : Prop :=
  (k ≠ .value ∨ negated = true → rest.head? ≠ some .and) ∧
    (k = .choice ∨ negated = true → rest.head? ≠ some .or)

/-- The lexemes begin with a phrase of kind `k` that writes the filter, and go on with `rest`, where
phrases of kind `j` stop. -/
def ReadsUpTo (j k : PhraseKind) (ts : List Lexeme) (f : Filter π) (rest : List Lexeme) : Prop :=
  ∃ p : Phrase k, p.Extending ∧ p.filter? = some f ∧ ts = p.lexemes ++ rest ∧
    Stops j p.endsNegated rest

theorem ReadsUpTo.value (h : ReadsUpTo j .value ts f rest) :
    ReadsUpTo j .conjunction ts f rest := by
  obtain ⟨p, hp⟩ := h
  exact ⟨.value p, hp⟩

theorem ReadsUpTo.conjunction (h : ReadsUpTo j .conjunction ts f rest) :
    ReadsUpTo j .choice ts f rest := by
  obtain ⟨p, hp⟩ := h
  exact ⟨.conjunction p, hp⟩

theorem ReadsUpTo.and {g : Filter π} (hleft : ReadsUpTo .value .conjunction ts f (.and :: mid))
    (hright : ReadsUpTo j .value mid g rest) : ReadsUpTo j .conjunction ts (.and f g) rest := by
  obtain ⟨p, hp, hpf, rfl, hstops⟩ := hleft
  obtain ⟨q, hq, hqf, rfl, hend⟩ := hright
  have hclosed : p.endsNegated = false :=
    Bool.eq_false_iff.mpr fun hnegated => hstops.1 (.inr hnegated) rfl
  refine ⟨.and p q, ⟨hp, hclosed, hq⟩, Phrase.filter?_and_eq_some_iff.mpr ⟨f, g, hpf, hqf, rfl⟩, ?_,
    hend⟩
  simp [Phrase.lexemes]

theorem ReadsUpTo.or {g : Filter π} (hleft : ReadsUpTo .conjunction .choice ts f (.or :: mid))
    (hright : ReadsUpTo j .conjunction mid g rest) : ReadsUpTo j .choice ts (.or f g) rest := by
  obtain ⟨p, hp, hpf, rfl, hstops⟩ := hleft
  obtain ⟨q, hq, hqf, rfl, hend⟩ := hright
  have hclosed : p.endsNegated = false :=
    Bool.eq_false_iff.mpr fun hnegated => hstops.2 (.inr hnegated) rfl
  refine ⟨.or p q, ⟨hp, hclosed, hq⟩, Phrase.filter?_or_eq_some_iff.mpr ⟨f, g, hpf, hqf, rfl⟩, ?_,
    hend⟩
  simp [Phrase.lexemes]

/-- What the readers return is written by phrases, if `n` bounds the depth. -/
structure ReadsPhrases (π : Type) [PatternEngine π] (n : Nat) : Prop where
  readValue : ∀ {ts rest} {f : Filter π}, readValue? n ts = some (f, rest) →
    ReadsUpTo .value .value ts f rest
  readAnd : ∀ {ts rest} {f : Filter π}, readAnd? n ts = some (f, rest) →
    ReadsUpTo .conjunction .conjunction ts f rest
  readAnds : ∀ {ts mid rest} {left f : Filter π}, ReadsUpTo .value .conjunction ts left mid →
    readAnds? n left mid = some (f, rest) → ReadsUpTo .conjunction .conjunction ts f rest
  readOr : ∀ {ts rest} {f : Filter π}, readOr? n ts = some (f, rest) →
    ReadsUpTo .choice .choice ts f rest
  readOrs : ∀ {ts mid rest} {left f : Filter π}, ReadsUpTo .conjunction .choice ts left mid →
    readOrs? n left mid = some (f, rest) → ReadsUpTo .choice .choice ts f rest

namespace ReadsPhrases

theorem readValue_succ (ih : ReadsPhrases π n) (h : readValue? (n + 1) ts = some (f, rest)) :
    ReadsUpTo .value .value ts f rest := by
  cases ts with
  | nil => cases h
  | cons t ts =>
  cases t with
  | term s =>
    rw [readValue?_term, Option.bind_eq_some_iff] at h
    obtain ⟨first, hfirst, h⟩ := h
    obtain ⟨more, rfl, hmore⟩ := exists_of_readTerms? h
    refine ⟨.terms s more, trivial, ?_, rfl, by simp [Stops, Phrase.endsNegated]⟩
    rw [Phrase.filter?, hfirst]
    exact hmore
  | opening =>
    obtain ⟨p, hp, hf, rfl, -⟩ := ih.readOr (readValue?_opening_eq_some_iff.mp h)
    exact ⟨.group p, hp, hf, by simp [Phrase.lexemes], by simp [Stops, Phrase.endsNegated]⟩
  | not =>
    obtain ⟨inner, hinner, rfl⟩ := readValue?_not_eq_some_iff.mp h
    obtain ⟨p, hp, hf, rfl, hstops⟩ := ih.readOr hinner
    refine ⟨.not p, hp, by rw [Phrase.filter?, hf]; rfl, rfl, ?_⟩
    exact ⟨fun _ => hstops.1 (.inl (by simp)), fun _ => hstops.2 (.inl rfl)⟩
  | closing | and | or => cases h

theorem readAnds_succ (ih : ReadsPhrases π n) (hleft : ReadsUpTo .value .conjunction ts left mid)
    (h : readAnds? (n + 1) left mid = some (f, rest)) :
    ReadsUpTo .conjunction .conjunction ts f rest := by
  by_cases hmid : mid.head? = some .and
  · obtain ⟨mid, rfl⟩ := List.head?_eq_some_iff.mp hmid
    rw [readAnds?_and, Option.bind_eq_some_iff] at h
    obtain ⟨⟨right, mid'⟩, hright, h⟩ := h
    exact ih.readAnds (hleft.and (ih.readValue hright)) h
  · rw [readAnds?_stop hmid] at h
    obtain ⟨rfl, rfl⟩ := Prod.mk.inj (Option.some.inj h)
    obtain ⟨p, hp, hf, hts, hstops⟩ := hleft
    exact ⟨p, hp, hf, hts, fun _ => hmid, fun hor => hstops.2 (hor.imp_left nofun)⟩

theorem readOrs_succ (ih : ReadsPhrases π n) (hleft : ReadsUpTo .conjunction .choice ts left mid)
    (h : readOrs? (n + 1) left mid = some (f, rest)) : ReadsUpTo .choice .choice ts f rest := by
  by_cases hmid : mid.head? = some .or
  · obtain ⟨mid, rfl⟩ := List.head?_eq_some_iff.mp hmid
    rw [readOrs?_or, Option.bind_eq_some_iff] at h
    obtain ⟨⟨right, mid'⟩, hright, h⟩ := h
    exact ih.readOrs (hleft.or (ih.readAnd hright)) h
  · rw [readOrs?_stop hmid] at h
    obtain ⟨rfl, rfl⟩ := Prod.mk.inj (Option.some.inj h)
    obtain ⟨p, hp, hf, hts, hstops⟩ := hleft
    exact ⟨p, hp, hf, hts, fun _ => hstops.1 (.inl nofun), fun _ => hmid⟩

end ReadsPhrases

theorem readsPhrases (n : Nat) : ReadsPhrases π n := by
  induction n with
  | zero => exact ⟨nofun, nofun, nofun, nofun, nofun⟩
  | succ n ih =>
    refine ⟨ih.readValue_succ, fun h => ?_, ih.readAnds_succ, fun h => ?_, ih.readOrs_succ⟩
    · rw [readAnd?_succ] at h
      obtain ⟨⟨left, mid⟩, hleft, h⟩ := Option.bind_eq_some_iff.mp h
      exact ih.readAnds (ih.readValue hleft).value h
    · rw [readOr?_succ] at h
      obtain ⟨⟨left, mid⟩, hleft, h⟩ := Option.bind_eq_some_iff.mp h
      exact ih.readOrs (ih.readAnd hleft).conjunction h

/-! ## Phrases are read -/

namespace PhraseKind

def read? : PhraseKind → (fuel : Nat) → List Lexeme → Option (Filter π × List Lexeme)
  | value => readValue?
  | conjunction => readAnd?
  | choice => readOr?

/-- What the reader does behind an operand. -/
def goOn? : PhraseKind → (fuel : Nat) → Filter π → List Lexeme → Option (Filter π × List Lexeme)
  | value => fun _ f rest => some (f, rest)
  | conjunction => readAnds?
  | choice => readOrs?

/-- The readers between the one of this kind and the one of values. -/
def level : PhraseKind → Nat
  | value => 0
  | conjunction => 1
  | choice => 2

end PhraseKind

/-- The lexemes that go on behind a phrase do not extend its last operand. -/
structure MayFollow (k : PhraseKind) (negated : Bool) (rest : List Lexeme) : Prop where
  term : ∀ s, rest.head? ≠ some (.term s)
  and : k = .choice ∨ negated = true → rest.head? ≠ some .and
  or : negated = true → rest.head? ≠ some .or

theorem mayFollow_closing (k : PhraseKind) (negated : Bool) (rest : List Lexeme) :
    MayFollow k negated (.closing :: rest) := ⟨nofun, fun _ => nofun, fun _ => nofun⟩

theorem mayFollow_or (k : PhraseKind) (rest : List Lexeme) : MayFollow k false (.or :: rest) :=
  ⟨nofun, fun _ => nofun, nofun⟩

theorem mayFollow_and (rest : List Lexeme) : MayFollow .conjunction false (.and :: rest) :=
  ⟨nofun, nofun, nofun⟩

/-- The phrase is read as the filter, and the reader goes on behind it. Each lexeme costs three
levels of the depth at most. -/
def IsRead (p : Phrase k) (f : Filter π) : Prop :=
  ∀ rest n, MayFollow k p.endsNegated rest → 3 * p.lexemes.length + k.level ≤ n →
    ∃ m, n ≤ m + p.lexemes.length ∧ k.read? n (p.lexemes ++ rest) = k.goOn? m f rest

namespace IsRead

variable {g : Filter π}

theorem readValue {p : Phrase .value} (h : IsRead p f)
    (hrest : MayFollow .conjunction p.endsNegated rest) (hn : 3 * p.lexemes.length ≤ n) :
    readValue? n (p.lexemes ++ rest) = some (f, rest) := by
  obtain ⟨_, _, hread⟩ :=
    h rest n ⟨hrest.term, fun hand => hrest.and (hand.imp_left nofun), hrest.or⟩ hn
  exact hread

theorem readAnd {p : Phrase .conjunction} (h : IsRead p f)
    (hrest : MayFollow .choice p.endsNegated rest) (hn : 3 * p.lexemes.length + 1 ≤ n) :
    readAnd? n (p.lexemes ++ rest) = some (f, rest) := by
  obtain ⟨m, hm, hread⟩ := h rest n ⟨hrest.term, fun _ => hrest.and (.inl rfl), hrest.or⟩ hn
  obtain ⟨m, rfl⟩ : ∃ m', m = m' + 1 := Nat.exists_eq_add_of_le' (by omega)
  exact hread.trans (readAnds?_stop (hrest.and (.inl rfl)))

theorem readOr {p : Phrase .choice} (h : IsRead p f) (hrest : MayFollow .choice p.endsNegated rest)
    (hor : rest.head? ≠ some .or) (hn : 3 * p.lexemes.length + 2 ≤ n) :
    readOr? n (p.lexemes ++ rest) = some (f, rest) := by
  obtain ⟨m, hm, hread⟩ := h rest n hrest hn
  obtain ⟨m, rfl⟩ : ∃ m', m = m' + 1 := Nat.exists_eq_add_of_le' (by omega)
  exact hread.trans (readOrs?_stop hor)

theorem terms {first : List Char} {more : List (List Char)} (h : ofTerm? first = some g)
    (hmore : joinTerms? g more = some f) : IsRead (.terms first more) f := by
  intro rest n hrest hn
  rw [Phrase.lexemes, List.length_cons] at hn
  obtain ⟨n, rfl⟩ : ∃ n', n = n' + 1 := Nat.exists_eq_add_of_le' (by omega)
  refine ⟨n + 1, Nat.le_add_right _ _, ?_⟩
  change readValue? (n + 1) (.term first :: (more.map .term ++ rest)) = some (f, rest)
  rw [readValue?_term, h, Option.bind_some, readTerms?_append hrest.term, hmore]
  rfl

theorem group {inner : Phrase .choice} (h : IsRead inner f) : IsRead (.group inner) f := by
  intro rest n hrest hn
  rw [Phrase.lexemes, List.length_cons, List.length_append] at hn
  obtain ⟨n, rfl⟩ : ∃ n', n = n' + 1 := Nat.exists_eq_add_of_le' (by omega)
  refine ⟨n + 1, Nat.le_add_right _ _, ?_⟩
  change readValue? (n + 1) (.opening :: ((inner.lexemes ++ [.closing]) ++ rest)) = some (f, rest)
  rw [readValue?_opening_eq_some_iff, List.append_assoc]
  exact h.readOr (mayFollow_closing ..) (by simp) (by omega)

theorem not {inner : Phrase .choice} (h : IsRead inner f) : IsRead (.not inner) (.not f) := by
  intro rest n hrest hn
  rw [Phrase.lexemes, List.length_cons] at hn
  obtain ⟨n, rfl⟩ : ∃ n', n = n' + 1 := Nat.exists_eq_add_of_le' (by omega)
  refine ⟨n + 1, Nat.le_add_right _ _, readValue?_not_eq_some_iff.mpr ⟨f, ?_, rfl⟩⟩
  exact h.readOr ⟨hrest.term, fun _ => hrest.and (.inr rfl), fun _ => hrest.or rfl⟩ (hrest.or rfl)
    (by omega)

theorem value {v : Phrase .value} (h : IsRead v f) : IsRead (.value v) f := by
  intro rest n hrest hn
  obtain ⟨n, rfl⟩ : ∃ n', n = n' + 1 := Nat.exists_eq_add_of_le' (Nat.le_of_add_left_le hn)
  have hread := h.readValue hrest (Nat.le_of_succ_le_succ hn)
  have hpos := v.length_lexemes_pos
  refine ⟨n, by rw [Phrase.lexemes]; omega, ?_⟩
  change readAnd? (n + 1) (v.lexemes ++ rest) = readAnds? n f rest
  rw [readAnd?_succ, hread]
  rfl

theorem conjunction {c : Phrase .conjunction} (h : IsRead c f) : IsRead (.conjunction c) f := by
  intro rest n hrest hn
  obtain ⟨n, rfl⟩ : ∃ n', n = n' + 1 := Nat.exists_eq_add_of_le' (Nat.le_of_add_left_le hn)
  have hread := h.readAnd hrest (Nat.le_of_succ_le_succ hn)
  have hpos := c.length_lexemes_pos
  refine ⟨n, by rw [Phrase.lexemes]; omega, ?_⟩
  change readOr? (n + 1) (c.lexemes ++ rest) = readOrs? n f rest
  rw [readOr?_succ, hread]
  rfl

theorem and {left : Phrase .conjunction} {right : Phrase .value}
    (hclosed : left.endsNegated = false) (hleft : IsRead left f) (hright : IsRead right g) :
    IsRead (.and left right) (.and f g) := by
  intro rest n hrest hn
  rw [Phrase.lexemes, List.length_append, List.length_cons, PhraseKind.level] at hn
  obtain ⟨m, hm, hread⟩ := hleft (.and :: (right.lexemes ++ rest)) n (hclosed ▸ mayFollow_and _)
    (by rw [PhraseKind.level]; omega)
  obtain ⟨m, rfl⟩ : ∃ m', m = m' + 1 := Nat.exists_eq_add_of_le' (by omega)
  have hvalue : readValue? m (right.lexemes ++ rest) = some (g, rest) :=
    hright.readValue hrest (by omega)
  refine ⟨m, by rw [Phrase.lexemes, List.length_append, List.length_cons]; omega, ?_⟩
  rw [Phrase.lexemes, List.append_assoc, List.cons_append, hread]
  change readAnds? (m + 1) f (.and :: (right.lexemes ++ rest)) = readAnds? m (.and f g) rest
  rw [readAnds?_and, hvalue]
  rfl

theorem or {left : Phrase .choice} {right : Phrase .conjunction}
    (hclosed : left.endsNegated = false) (hleft : IsRead left f) (hright : IsRead right g) :
    IsRead (.or left right) (.or f g) := by
  intro rest n hrest hn
  rw [Phrase.lexemes, List.length_append, List.length_cons, PhraseKind.level] at hn
  obtain ⟨m, hm, hread⟩ := hleft (.or :: (right.lexemes ++ rest)) n (hclosed ▸ mayFollow_or ..)
    (by rw [PhraseKind.level]; omega)
  obtain ⟨m, rfl⟩ : ∃ m', m = m' + 1 := Nat.exists_eq_add_of_le' (by omega)
  have hconjunction : readAnd? m (right.lexemes ++ rest) = some (g, rest) :=
    hright.readAnd hrest (by omega)
  refine ⟨m, by rw [Phrase.lexemes, List.length_append, List.length_cons]; omega, ?_⟩
  rw [Phrase.lexemes, List.append_assoc, List.cons_append, hread]
  change readOrs? (m + 1) f (.or :: (right.lexemes ++ rest)) = readOrs? m (.or f g) rest
  rw [readOrs?_or, hconjunction]
  rfl

end IsRead

theorem isRead_of_extending {p : Phrase k} (hp : p.Extending) (hf : p.filter? = some f) :
    IsRead p f := by
  induction p generalizing f with
  | terms first more =>
    obtain ⟨g, hg, hmore⟩ := Option.bind_eq_some_iff.mp hf
    exact IsRead.terms hg hmore
  | group inner ih => exact IsRead.group (ih hp hf)
  | not inner ih =>
    obtain ⟨g, hg, rfl⟩ := Option.map_eq_some_iff.mp hf
    exact IsRead.not (ih hp hg)
  | value v ih => exact IsRead.value (ih hp hf)
  | conjunction c ih => exact IsRead.conjunction (ih hp hf)
  | and left right ihl ihr =>
    obtain ⟨f₁, f₂, h₁, h₂, rfl⟩ := Phrase.filter?_and_eq_some_iff.mp hf
    exact IsRead.and hp.2.1 (ihl hp.1 h₁) (ihr hp.2.2 h₂)
  | or left right ihl ihr =>
    obtain ⟨f₁, f₂, h₁, h₂, rfl⟩ := Phrase.filter?_or_eq_some_iff.mp hf
    exact IsRead.or hp.2.1 (ihl hp.1 h₁) (ihr hp.2.2 h₂)

/-! ## Texts -/

variable {source : String}

theorem readOr?_eq_some_iff : readOr? (4 * ts.length + 4) ts = some (f, []) ↔
    ∃ e : Phrase .choice, e.lexemes = ts ∧ e.Extending ∧ e.filter? = some f := by
  constructor
  · intro h
    obtain ⟨e, he, hf, hts, -⟩ := (readsPhrases _).readOr h
    exact ⟨e, by rw [hts, List.append_nil], he, hf⟩
  · rintro ⟨e, rfl, he, hf⟩
    have hread : readOr? (4 * e.lexemes.length + 4) (e.lexemes ++ []) = some (f, []) :=
      (isRead_of_extending he hf).readOr ⟨nofun, fun _ => nofun, fun _ => nofun⟩ nofun (by omega)
    rwa [List.append_nil] at hread

theorem ofText_eq_ok_iff : ofText source = .ok f ↔
    ∃ e : Phrase .choice, Spells source.toList e.lexemes ∧ e.Extending ∧ e.filter? = some f := by
  rw [ofText]
  cases hlexemes : Place.between.lexemes? source.toList with
  | none =>
    refine ⟨nofun, ?_⟩
    rintro ⟨e, hspells, -⟩
    rw [lexemes?_between_iff.mpr hspells] at hlexemes
    cases hlexemes
  | some ts =>
    have hts (us : List Lexeme) : Spells source.toList us ↔ us = ts := by
      rw [← lexemes?_between_iff, hlexemes, Option.some.injEq, eq_comm]
    simp only [hts]
    rw [← readOr?_eq_some_iff]
    split
    case h_1 heq => simp [heq]
    case h_2 hnone => exact ⟨nofun, fun h => absurd h (hnone f)⟩

theorem exists_ofText_iff : (∃ f : Filter π, ofText source = .ok f) ↔
    ∃ e : Phrase .choice, Spells source.toList e.lexemes ∧ Readable π e.lexemes := by
  constructor
  · rintro ⟨f, hf⟩
    obtain ⟨e, hspells, -, hfilter⟩ := ofText_eq_ok_iff.mp hf
    exact ⟨e, hspells, e.isSome_filter?_iff.mp (Option.isSome_of_eq_some hfilter)⟩
  · rintro ⟨e, hspells, hreadable⟩
    obtain ⟨e', he', hextending⟩ := e.exists_extending
    rw [← he'] at hspells hreadable
    have hsome : (e'.filter? : Option (Filter π)).isSome := e'.isSome_filter?_iff.mpr hreadable
    obtain ⟨f, hf⟩ := Option.isSome_iff_exists.mp hsome
    exact ⟨f, ofText_eq_ok_iff.mpr ⟨e', hspells, hextending, hf⟩⟩

/-- A filter is read off a text if and only if the text spells a phrase whose terms are patterns. It
is the filter of the phrase in which negations extend to the end of their groups, and it selects the
names of which that phrase holds. This is so whatever the patterns are. -/
theorem ofText_reads (π : Type) [PatternEngine π] (source : String) :
    ((∃ f : Filter π, ofText source = .ok f) ↔
      ∃ e : Phrase .choice, Spells source.toList e.lexemes ∧ Readable π e.lexemes) ∧
    ∀ f : Filter π, ofText source = .ok f ↔
      ∃ e : Phrase .choice, Spells source.toList e.lexemes ∧ e.Extending ∧ e.filter? = some f ∧
        ∀ name, f.selects name = true ↔ e.Holds (Found π name) := by
  refine ⟨exists_ofText_iff, fun f => ?_⟩
  rw [ofText_eq_ok_iff]
  constructor
  · rintro ⟨e, hspells, hextending, hf⟩
    exact ⟨e, hspells, hextending, hf, fun name => Phrase.selects_iff hf⟩
  · rintro ⟨e, hspells, hextending, hf, -⟩
    exact ⟨e, hspells, hextending, hf⟩

/-- A negation takes in all that follows, adjacent terms come first. -/
example : (ofText "\"a\" and not \"b\" \"c\" or \"d\"" : Except _ (Filter Pattern)).toOption.map
    text = some "(/a/ and not ((/b/ or /c/) or /d/))" := by decide +kernel

end Daybook.Filter
