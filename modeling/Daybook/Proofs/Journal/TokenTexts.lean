import Daybook.Proofs.Journal.Spacing

/-!
# Texts of tokens

Cutting a text into tokens loses nothing but spaces and tabs. A token is what its own text is cut into
(`ofChars_chars`), and what stands between the tokens of a text are spaces and tabs (`Spread`), all of
those that are neither in quotes nor in a comment (`condensed`). Main statement: the texts of the tokens
make up the source without these, and written with a space between them they are cut into the same
tokens again (`ofChars_keepsTexts`).
-/

namespace Daybook

open Daybook.Text

namespace Token

variable {c : Char} {cs rest : List Char} {t : Token} {ts : List Token} {p : Char → Bool}

/-! ## Numbers and dates cut from their own texts -/

theorem split_start_append (cs : List Char) (hrest : ∀ c ∈ rest.head?, p c = false) :
    split p ((split p cs).1 ++ rest) = ((split p cs).1, rest) :=
  split_append_of (fun _ hc => List.mem_takeWhile_imp hc) hrest

theorem split_of_forall (h : ∀ c ∈ cs, p c = true) : split p cs = (cs, []) := by
  have hsplit : split p (cs ++ []) = (cs, []) := split_append_of h (by simp)
  rwa [List.append_nil] at hsplit

/-- Nothing, or a point and digits. -/
def IsDecimals (cs : List Char) : Prop :=
  cs = [] ∨ ∃ digits, digits ≠ [] ∧ (∀ c ∈ digits, isDigit c = true) ∧ cs = '.' :: digits

/-- Digits and commas, and decimals behind them. -/
def IsNumberText (cs : List Char) : Prop :=
  ∃ whole decimals, (∀ c ∈ whole, isDigit c = true ∨ c = ',') ∧ IsDecimals decimals ∧
    cs = whole ++ decimals

theorem isNumberText_takeNumber (cs : List Char) : IsNumberText (takeNumber cs).1.chars :=
  ⟨_, _, fun c hc => by simpa using List.mem_takeWhile_imp hc, takeDecimals_cases _, rfl⟩

theorem IsDecimals.head (h : IsDecimals cs) (hp : p '.' = false) : ∀ c ∈ cs.head?, p c = false := by
  rcases h with rfl | ⟨digits, -, -, rfl⟩
  · exact fun c hc => absurd hc nofun
  · rintro c hc
    obtain rfl := Option.some.inj hc
    exact hp

theorem IsDecimals.takeDecimals (h : IsDecimals cs) : takeDecimals cs = (cs, []) := by
  rcases h with rfl | ⟨digits, hne, hdigits, rfl⟩
  · rfl
  · simp only [Token.takeDecimals, split_of_forall hdigits, if_neg hne]

theorem IsNumberText.takeNumber (h : IsNumberText cs) : takeNumber cs = (number cs, []) := by
  obtain ⟨whole, decimals, hwhole, hdecimals, rfl⟩ := h
  have hsplit : split (fun c => isDigit c || decide (c = ',')) (whole ++ decimals) =
      (whole, decimals) :=
    split_append_of (fun c hc => by simpa using hwhole c hc) (hdecimals.head (by decide))
  simp only [Token.takeNumber, hsplit, hdecimals.takeDecimals]

theorem IsNumberText.takeDateOrNumber (h : IsNumberText cs) :
    takeDateOrNumber cs = .ok (number cs, []) := by
  have hnumber := h.takeNumber
  obtain ⟨whole, decimals, hwhole, hdecimals, rfl⟩ := h
  have hparts := split_append isDigit whole
  cases hafter : (split isDigit whole).2 with
  | cons d after =>
    rw [hafter] at hparts
    have hdigit : isDigit d = false := by
      have hhead := List.head?_dropWhile_not isDigit whole
      rwa [show whole.dropWhile isDigit = d :: after from hafter] at hhead
    have hcomma : d = ',' := by
      have hd := hwhole d (hparts ▸ List.mem_append_right _ List.mem_cons_self)
      simpa [hdigit] using hd
    have hseparator : isDateSeparator d = false := by
      rw [hcomma]
      decide
    have hsplit : split isDigit (whole ++ decimals) =
        ((split isDigit whole).1, d :: (after ++ decimals)) := by
      rw [← hparts, List.append_assoc, hparts]
      refine split_start_append whole fun c hc => ?_
      obtain rfl := Option.some.inj hc
      exact hdigit
    simp only [Token.takeDateOrNumber, hsplit, hseparator, Bool.not_false, Bool.true_or, if_true,
      hnumber]
  | nil =>
    rw [hafter, List.append_nil] at hparts
    have hdigits : ∀ c ∈ whole, isDigit c = true := by
      rw [← hparts]
      exact fun c hc => List.mem_takeWhile_imp hc
    have hsplit := split_append_of hdigits (hdecimals.head (p := isDigit) (by decide))
    rcases hdecimals with rfl | ⟨digits, -, hdigits', rfl⟩
    · simp only [Token.takeDateOrNumber, hsplit, hnumber]
    · simp only [Token.takeDateOrNumber, hsplit, split_of_forall hdigits', hnumber]
      split <;> rfl

theorem IsDateText.takeDateOrNumber (h : IsDateText cs) :
    takeDateOrNumber cs = .ok (date cs, []) := by
  obtain ⟨first, s₁, second, s₂, third, rfl, hfirst, ⟨hs₁, hs₂⟩, ⟨hne, hsecond⟩, hne', hthird⟩ := h
  have hends : ∀ {s : Char} {cs : List Char}, isDateSeparator s = true →
      ∀ c ∈ (s :: cs).head?, isDigit c = false := by
    rintro s cs hs c hc
    obtain rfl := Option.some.inj hc
    simp only [isDateSeparator, Bool.or_eq_true, decide_eq_true_eq] at hs
    rcases hs with (rfl | rfl) | rfl <;> decide
  simp only [Token.takeDateOrNumber, split_append_of hfirst (hends hs₁),
    split_append_of hsecond (hends hs₂), split_of_forall hthird, hs₁, hs₂, hne, hne',
    Bool.not_true, decide_false, Bool.or_self, Bool.false_eq_true, if_false]

theorem takeDateOrNumber_chars (h : takeDateOrNumber cs = .ok (t, rest)) :
    takeDateOrNumber t.chars = .ok (t, []) := by
  rcases takeDateOrNumber_cases h with hnumber | ⟨s, rfl, hs⟩
  · obtain rfl : (takeNumber cs).1 = t := congrArg Prod.fst hnumber
    exact (isNumberText_takeNumber cs).takeDateOrNumber
  · exact hs.takeDateOrNumber

/-! ## Tokens cut from their own texts -/

theorem ofChars_of_take_all (hc : isSpacing c = false) (h : take c cs = .ok (t, [])) :
    ofChars (c :: cs) = .ok [t] := by
  rw [ofChars_of_take hc h, ofChars_nil]
  rfl

theorem exists_chars_eq_cons (h : take c cs = .ok (t, rest)) : ∃ ds, t.chars = c :: ds := by
  have hchars := take_eq_ok h
  obtain ⟨d, ds, hds⟩ := List.exists_cons_of_ne_nil (chars_ne_nil_of_take h)
  rw [hds, List.cons_append] at hchars
  obtain ⟨rfl, -⟩ := List.cons.inj hchars
  exact ⟨ds, hds⟩

theorem ofChars_chars (h : take c cs = .ok (t, rest)) : ofChars t.chars = .ok [t] := by
  rcases take_cases h with ⟨hc, hnumber⟩ | ⟨-, hquoted⟩ | ⟨rfl, rfl⟩ | ⟨hc, rfl⟩ | hsign
  · obtain ⟨ds, hds⟩ := exists_chars_eq_cons h
    have htake := takeDateOrNumber_chars hnumber
    rw [hds, ← take_of_isDigit hc] at htake
    rw [hds]
    exact ofChars_of_take_all (isSpacing_eq_false_of_isDigit hc) htake
  · obtain ⟨name, hname, rfl, -⟩ := takeQuoted_eq_ok_iff.mp hquoted
    have htake : take '"' (name ++ ['"']) = .ok (quoted ('"' :: (name ++ ['"'])), []) :=
      takeQuoted_eq_ok_iff.mpr ⟨name, hname, rfl, rfl⟩
    exact ofChars_of_take_all (by decide) htake
  · have hline : ∀ x ∈ (split (· ≠ '\n') cs).1, decide (x ≠ '\n') = true :=
      fun x hx => List.mem_takeWhile_imp (p := (· ≠ '\n')) hx
    have htake := take_semicolon (split (· ≠ '\n') cs).1
    rw [split_of_forall hline] at htake
    exact ofChars_of_take_all (by decide) htake
  · have hall : ∀ x ∈ c :: (split isSymbolChar cs).1, isSymbolChar x = true :=
      List.forall_mem_cons.mpr ⟨hc, fun x hx => List.mem_takeWhile_imp hx⟩
    have hnone : ∀ x ∈ ([] : List Char).head?, isSymbolChar x = false := by simp
    have hcut := ofChars_symbol (List.cons_ne_nil _ _) hall hnone
    rw [List.append_nil, ofChars_nil] at hcut
    exact hcut
  · have hsigns : ∀ t ∈ signs, ofChars t.chars = .ok [t] := by decide +kernel
    exact hsigns t hsign

/-! ## Spaces between tokens -/

/-- The tokens stand in the text in their order; before, between and behind them are spaces and
tabs. -/
inductive Spread : List Char → List Token → Prop
  | nil : Spread [] []
  | space {c : Char} {cs : List Char} {ts : List Token} :
      isSpacing c = true → Spread cs ts → Spread (c :: cs) ts
  | token {cs : List Char} {ts : List Token} (t : Token) :
      Spread cs ts → Spread (t.chars ++ cs) (t :: ts)

theorem spread_of_ofChars (h : ofChars cs = .ok ts) : Spread cs ts := by
  refine ofChars_induction (P := Spread) .nil .space ?_ h
  intro c cs t rest ts _ htake _ hspread
  exact take_eq_ok htake ▸ hspread.token t

/-- What a place in a line is part of. -/
inductive Part where
  | plain | quoted | comment
  deriving DecidableEq

/-- The part behind a character: a quote begins a name and ends it, and outside of names a semicolon
begins a comment. -/
def Part.behind (part : Part) (c : Char) : Part :=
  match part with
  | plain => if c = '"' then quoted else if c = ';' then comment else plain
  | quoted => if c = '"' then plain else quoted
  | comment => comment

/-- The text without the spaces and tabs that are neither in quotes nor in a comment. -/
def condensed (part : Part) : List Char → List Char
  | [] => []
  | c :: cs =>
    if part = .plain && isSpacing c then condensed part cs else c :: condensed (part.behind c) cs

theorem condensed_comment (cs : List Char) : condensed .comment cs = cs := by
  induction cs with
  | nil => rfl
  | cons c cs ih => simp [condensed, Part.behind, ih]

theorem condensed_quoted {name : List Char} (h : ∀ c ∈ name, c ≠ '"') (cs : List Char) :
    condensed .quoted (name ++ '"' :: cs) = name ++ '"' :: condensed .plain cs := by
  induction name with
  | nil => simp [condensed, Part.behind]
  | cons c name ih =>
    obtain ⟨hc, hname⟩ := List.forall_mem_cons.mp h
    simp [condensed, Part.behind, hc, ih hname]

/-- Whether the character is kept and the line goes on as before. -/
def isPlain (c : Char) : Bool := !(isSpacing c || c = '"' || c = ';')

theorem condensed_plain {word : List Char} (h : ∀ c ∈ word, isPlain c = true) (cs : List Char) :
    condensed .plain (word ++ cs) = word ++ condensed .plain cs := by
  induction word with
  | nil => rfl
  | cons c word ih =>
    obtain ⟨hc, hword⟩ := List.forall_mem_cons.mp h
    simp only [isPlain, Bool.not_eq_true', Bool.or_eq_false_iff, decide_eq_false_iff_not] at hc
    simp [condensed, Part.behind, hc, ih hword]

theorem isPlain_of_isNumeric (h : isNumeric c = true) : isPlain c = true := by
  rcases (Bool.or_eq_true _ _).mp h with hdigit | hmark
  · have hquote : c ≠ '"' := by
      rintro rfl
      cases hdigit
    have hsemicolon : c ≠ ';' := by
      rintro rfl
      cases hdigit
    simp [isPlain, isSpacing_eq_false_of_isDigit hdigit, hquote, hsemicolon]
  · have hmarks : [',', '.', '/', '-'].all isPlain = true := by decide
    exact List.all_eq_true.mp hmarks c (by simpa using hmark)

theorem isPlain_of_isSymbolChar (h : isSymbolChar c = true) : isPlain c = true := by
  have hquote : c ≠ '"' := by
    rintro rfl
    cases h
  have hsemicolon : c ≠ ';' := by
    rintro rfl
    cases h
  have hspacing : isSpacing c = false := by
    simp only [isSymbolChar, Bool.not_eq_true', Bool.or_eq_false_iff] at h
    exact h.1.2
  simp [isPlain, hspacing, hquote, hsemicolon]

theorem condensed_of_take (h : take c cs = .ok (t, rest)) (hrest : ofChars rest = .ok ts) :
    condensed .plain (c :: cs) = t.chars ++ condensed .plain rest := by
  rw [← take_eq_ok h]
  rcases take_cases h with ⟨-, hnumber⟩ | ⟨-, hquoted⟩ | ⟨rfl, rfl⟩ | ⟨hc, rfl⟩ | hsign
  · exact condensed_plain
      (fun x hx => isPlain_of_isNumeric ((numeric_of_takeDateOrNumber hnumber).2 x hx)) rest
  · obtain ⟨name, hname, rfl, -⟩ := takeQuoted_eq_ok_iff.mp hquoted
    have hquote : isSpacing '"' = false := by decide
    have hcut := condensed_quoted (fun c hc => (hname c hc).1) rest
    simp [chars, condensed, Part.behind, hquote, hcut]
  · have hsemicolon : isSpacing ';' = false := by decide
    rw [eq_nil_of_take_comment h hrest, List.append_nil]
    simp [chars, condensed, Part.behind, hsemicolon, condensed_comment]
  · refine condensed_plain (fun x hx => isPlain_of_isSymbolChar ?_) rest
    rcases List.mem_cons.mp hx with rfl | hx
    · exact hc
    · exact List.mem_takeWhile_imp hx
  · have hsigns : ∀ t ∈ signs, t.chars.all isPlain = true := by decide
    exact condensed_plain (List.all_eq_true.mp (hsigns t hsign)) rest

theorem flatMap_chars (h : ofChars cs = .ok ts) : ts.flatMap chars = condensed .plain cs := by
  refine ofChars_induction (P := fun cs ts => ts.flatMap chars = condensed .plain cs) rfl ?space
    ?token h
  case space =>
    intro c cs ts hc ih
    simp [condensed, hc, ih]
  case token =>
    intro c cs t rest ts _ htake hrest ih
    rw [List.flatMap_cons, ih, condensed_of_take htake hrest]

theorem eq_nil_of_isComment (h : take c cs = .ok (t, rest)) (ht : t.isComment = true)
    (hrest : ofChars rest = .ok ts) : ts = [] := by
  rcases take_cases h with ⟨-, hnumber⟩ | ⟨-, hquoted⟩ | ⟨rfl, -⟩ | ⟨-, rfl⟩ | hsign
  · rcases takeDateOrNumber_cases hnumber with hnumber | ⟨s, rfl, -⟩
    · obtain rfl : (takeNumber (c :: cs)).1 = t := congrArg Prod.fst hnumber
      cases ht
    · cases ht
  · obtain ⟨name, -, rfl, -⟩ := takeQuoted_eq_ok_iff.mp hquoted
    cases ht
  · rw [eq_nil_of_take_comment h hrest, ofChars_nil] at hrest
    exact (Except.ok.inj hrest).symm
  · cases ht
  · have hsigns : ∀ t ∈ signs, t.isComment = false := by decide
    rw [hsigns t hsign] at ht
    cases ht

theorem isComment_dropLast (h : ofChars cs = .ok ts) : ∀ t ∈ ts.dropLast, t.isComment = false := by
  refine ofChars_induction (P := fun _ ts => ∀ t ∈ ts.dropLast, t.isComment = false) nofun
    (fun _ ih => ih) ?_ h
  intro c cs t rest ts _ htake hrest ih
  cases ts with
  | nil => simp
  | cons t' ts =>
    rw [List.dropLast_cons_cons]
    refine List.forall_mem_cons.mpr ⟨?_, ih⟩
    cases hcomment : t.isComment with
    | false => rfl
    | true => exact absurd (eq_nil_of_isComment htake hcomment hrest) (List.cons_ne_nil _ _)

/-- A text that is cut into tokens is made of their texts, with nothing but spaces and tabs before,
between and behind them. Without the spaces and tabs that are neither in quotes nor in a comment, the
text is their texts one behind the other. Written with a space between them, their texts are cut into
the same tokens. -/
theorem ofChars_keepsTexts {source : String} (h : ofChars source.toList = .ok ts) :
    Spread source.toList ts ∧
      (String.join (ts.map text)).toList = condensed .plain source.toList ∧
      ofChars (" ".intercalate (ts.map text)).toList = .ok ts := by
  have htexts : (ts.map text).map String.toList = ts.map chars := by
    simp [text]
  refine ⟨spread_of_ofChars h, ?_, ?_⟩
  · rw [String.toList_join, ← flatMap_chars h]
    simp [List.flatMap_map, text]
  · rw [String.toList_intercalate, htexts]
    exact ofChars_intercalate (forall_mem_of_ofChars ofChars_chars h) (isComment_dropLast h)

/-- A number with a dash behind it that does not become a date, a name with a space, and a note. -/
theorem ofChars_keepsTexts_lot :
    let source := " 1,000.5-2\t\"a b\"\x7b$3\x7d@@1 EUR ; x  y "
    let ts := [number "1,000.5".toList, minus, number ['2'], quoted "\"a b\"".toList, openLot,
      symbol ['$'], number ['3'], closeLot, totalCost, number ['1'], symbol "EUR".toList,
      comment "; x  y ".toList]
    ofChars source.toList = .ok ts ∧ Spread source.toList ts ∧
      String.join (ts.map text) = "1,000.5-2\"a b\"\x7b$3\x7d@@1EUR; x  y " ∧
      (String.join (ts.map text)).toList = condensed .plain source.toList ∧
      ofChars (" ".intercalate (ts.map text)).toList = .ok ts := by
  intro source ts
  have hcut : ofChars source.toList = .ok ts := by decide +kernel
  obtain ⟨hspread, hjoin, hagain⟩ := ofChars_keepsTexts hcut
  exact ⟨hcut, hspread, by decide +kernel, hjoin, hagain⟩

end Token

end Daybook
