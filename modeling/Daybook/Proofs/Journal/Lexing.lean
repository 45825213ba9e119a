import Daybook.Commodity
import Daybook.Journal.Token
import Daybook.Proofs.Calendar.Written
import Daybook.Proofs.Decimal.Written
import Daybook.Proofs.Result

/-!
# Tokens of what is written

An amount, a date and a sign that are written as journals write them are cut into the tokens that
they were made of, and what follows them is cut on its own (`ofChars_text`, `ofChars_date`).
-/

namespace Daybook

open Daybook.Text

namespace Token

variable {c : Char} {cs rest : List Char} {t : Token} {p : Char → Bool}

/-! ## The next token -/

theorem ofChars_nil : ofChars [] = .ok [] := by rw [ofChars]

theorem ofChars_spacing (hc : isSpacing c = true) (cs : List Char) :
    ofChars (c :: cs) = ofChars cs := by
  rw [ofChars, if_pos hc]

theorem ofChars_space (cs : List Char) : ofChars (' ' :: cs) = ofChars cs :=
  ofChars_spacing (by decide) cs

theorem ofChars_of_take (hc : isSpacing c = false) (h : take c cs = .ok (t, rest)) :
    ofChars (c :: cs) = (ofChars rest).map (t :: ·) := by
  rw [ofChars, if_neg (by simp [hc])]
  split
  case h_1 t' rest' h' =>
    rw [h] at h'
    cases h'
    rfl
  case h_2 bad h' =>
    rw [h] at h'
    cases h'

theorem ofChars_of_take_eq_error (hc : isSpacing c = false) {bad : List Char}
    (h : take c cs = .error bad) : ofChars (c :: cs) = .error bad := by
  rw [ofChars, if_neg (by simp [hc])]
  split
  case h_1 t' rest' h' =>
    rw [h] at h'
    cases h'
  case h_2 bad' h' =>
    rw [h] at h'
    cases h'
    rfl

/-- What holds of the empty text, and goes on holding with a space or a token before it, holds of every
text that is cut into tokens. -/
theorem ofChars_induction {P : List Char → List Token → Prop} {ts : List Token} (nil : P [] [])
    (space : ∀ {c cs ts}, isSpacing c = true → P cs ts → P (c :: cs) ts)
    (token : ∀ {c cs t rest ts}, isSpacing c = false → take c cs = .ok (t, rest) →
      ofChars rest = .ok ts → P rest ts → P (c :: cs) (t :: ts))
    (h : ofChars cs = .ok ts) : P cs ts := by
  induction cs using ofChars.induct generalizing ts with
  | case1 =>
    rw [ofChars] at h
    cases h
    exact nil
  | case2 c cs hc ih =>
    rw [ofChars_spacing hc] at h
    exact space hc (ih h)
  | case3 c cs hc t rest htake _ ih =>
    have hspacing : isSpacing c = false := by simpa using hc
    rw [ofChars_of_take hspacing htake] at h
    obtain ⟨ts', hrest, rfl⟩ := Result.map_eq_ok_iff.mp h
    exact token hspacing htake hrest (ih hrest)
  | case4 c cs hc bad htake =>
    rw [ofChars_of_take_eq_error (by simpa using hc) htake] at h
    cases h

theorem split_append_of (h : ∀ c ∈ cs, p c = true) (hrest : ∀ c ∈ rest.head?, p c = false) :
    split p (cs ++ rest) = (cs, rest) := by
  have hnone : rest.takeWhile p = [] ∧ rest.dropWhile p = rest := by
    cases rest with
    | nil => exact ⟨rfl, rfl⟩
    | cons c rest =>
      have hc : ¬p c = true := by simp [hrest c rfl]
      exact ⟨List.takeWhile_cons_of_neg hc, List.dropWhile_cons_of_neg hc⟩
  rw [split, List.takeWhile_append_of_pos h, List.dropWhile_append_of_pos h, hnone.1, hnone.2,
    List.append_nil]

/-! ## Numbers -/

/-- What may follow an amount: nothing, a space or a closing brace. -/
def Seam (rest : List Char) : Prop := ∀ c ∈ rest.head?, c = ' ' ∨ c = '}'

theorem Seam.nil : Seam [] := nofun

theorem Seam.space (cs : List Char) : Seam (' ' :: cs) := by
  intro c hc
  obtain rfl := Option.some.inj hc
  exact .inl rfl

theorem Seam.brace (cs : List Char) : Seam ('}' :: cs) := by
  intro c hc
  obtain rfl := Option.some.inj hc
  exact .inr rfl

theorem Seam.head (h : Seam rest) (hspace : p ' ' = false) (hbrace : p '}' = false) :
    ∀ c ∈ rest.head?, p c = false := by
  intro c hc
  rcases h c hc with rfl | rfl
  · exact hspace
  · exact hbrace

theorem takeDecimals_of_seam (h : Seam rest) : takeDecimals rest = ([], rest) := by
  unfold takeDecimals
  split
  case h_1 rest' =>
    have hpoint := h '.' rfl
    simp at hpoint
  case h_2 => rfl

theorem takeNumber_digits (a : Decimal) (h : Seam rest) :
    takeNumber (a.digits ++ rest) = (number a.digits, rest) := by
  have hwhole : ∀ c ∈ a.wholePart, (isDigit c || decide (c = ',')) = true := by
    intro c hc
    simp [Decimal.isDigit_of_mem_wholePart hc]
  rw [Decimal.digits_eq]
  split
  case isTrue =>
    have hsplit := split_append_of hwhole
      (h.head (p := fun c => isDigit c || decide (c = ',')) (by decide) (by decide))
    simp only [takeNumber, hsplit, takeDecimals_of_seam h, List.append_nil]
  case isFalse hscale =>
    have hsplit : split (fun c => isDigit c || decide (c = ','))
        (a.wholePart ++ '.' :: (a.decimalPart ++ rest)) =
          (a.wholePart, '.' :: (a.decimalPart ++ rest)) := by
      refine split_append_of hwhole fun c hc => ?_
      obtain rfl := Option.some.inj hc
      decide
    have hdecimals : takeDecimals ('.' :: (a.decimalPart ++ rest)) =
        ('.' :: a.decimalPart, rest) := by
      have hne : a.decimalPart ≠ [] := by
        rw [← List.length_pos_iff, a.length_decimalPart]
        exact Nat.pos_of_ne_zero hscale
      simp only [takeDecimals, split_append_of (fun c => Decimal.isDigit_of_mem_decimalPart)
        (h.head (by decide) (by decide)), if_neg hne]
    rw [List.append_assoc, List.cons_append]
    simp only [takeNumber, hsplit, hdecimals]

theorem takeDateOrNumber_digits (a : Decimal) (h : Seam rest) :
    takeDateOrNumber (a.digits ++ rest) = .ok (number a.digits, rest) := by
  have hnumber := takeNumber_digits a h
  have hwhole : ∀ c ∈ a.wholePart, isDigit c = true := fun c => Decimal.isDigit_of_mem_wholePart
  have hseparator := h.head (p := isDateSeparator) (by decide) (by decide)
  rw [Decimal.digits_eq] at hnumber ⊢
  split
  case isTrue hscale =>
    rw [if_pos hscale] at hnumber
    have hsplit := split_append_of hwhole (h.head (by decide) (by decide))
    rw [takeDateOrNumber, hsplit]
    cases rest with
    | nil => exact congrArg Except.ok hnumber
    | cons c rest =>
      simp only [hseparator c rfl, Bool.not_false, Bool.true_or, if_true, hnumber]
  case isFalse hscale =>
    rw [if_neg hscale] at hnumber
    have hsplit : split isDigit (a.wholePart ++ '.' :: (a.decimalPart ++ rest)) =
        (a.wholePart, '.' :: (a.decimalPart ++ rest)) := by
      refine split_append_of hwhole fun c hc => ?_
      obtain rfl := Option.some.inj hc
      decide
    have hsplit' : split isDigit (a.decimalPart ++ rest) = (a.decimalPart, rest) :=
      split_append_of (fun c => Decimal.isDigit_of_mem_decimalPart)
        (h.head (by decide) (by decide))
    rw [List.append_assoc, List.cons_append] at hnumber ⊢
    simp only [takeDateOrNumber, hsplit, hsplit', hnumber]
    cases rest with
    | nil => simp
    | cons c rest => simp [hseparator c rfl]

/-! ## Dates and names -/

theorem take_of_isDigit (hc : isDigit c = true) (cs : List Char) :
    take c cs = takeDateOrNumber (c :: cs) := if_pos hc

theorem take_semicolon (cs : List Char) : take ';' cs =
    .ok (comment (';' :: (split (· ≠ '\n') cs).1), (split (· ≠ '\n') cs).2) := rfl

theorem isSpacing_eq_false_of_isDigit (hc : isDigit c = true) : isSpacing c = false := by
  have hblank := isBlank_eq_false_of_isDigit hc
  cases hspacing : isSpacing c with
  | false => rfl
  | true => rw [isBlank_of_isSpacing hspacing] at hblank; cases hblank

theorem ofChars_digits (a : Decimal) (h : Seam rest) :
    ofChars (a.digits ++ rest) = (ofChars rest).map (number a.digits :: ·) := by
  obtain ⟨c, cs, hdigits, hc⟩ := a.exists_digits_eq_cons
  have htake := takeDateOrNumber_digits a h
  rw [hdigits, List.cons_append, ← take_of_isDigit hc] at htake
  rw [hdigits, List.cons_append, ofChars_of_take (isSpacing_eq_false_of_isDigit hc) htake]

theorem ofChars_date {d : Date} (hd : d.HasPlainYear) (rest : List Char) :
    ofChars ('[' :: (d.text.toList ++ ']' :: rest)) =
      (ofChars rest).map ([openDate, date d.text.toList, closeDate] ++ ·) := by
  have hdigits : ∀ width n, ∀ c ∈ (zeroPadded width n).toList, isDigit c = true :=
    fun width n c => isDigit_of_mem_zeroPadded
  have hslash : ∀ cs : List Char, ∀ c ∈ ('/' :: cs).head?, isDigit c = false := by
    intro cs c hc
    obtain rfl := Option.some.inj hc
    decide
  have hbracket : ∀ c ∈ (']' :: rest).head?, isDigit c = false := by
    intro c hc
    obtain rfl := Option.some.inj hc
    decide
  have htake : takeDateOrNumber (d.text.toList ++ ']' :: rest) =
      .ok (date d.text.toList, ']' :: rest) := by
    rw [Date.toList_text hd]
    simp only [takeDateOrNumber, List.append_assoc, List.cons_append]
    simp only [split_append_of (hdigits _ _) (hslash _), split_append_of (hdigits _ _) hbracket,
      zeroPadded_ne_nil, isDateSeparator, decide_true, Bool.true_or, Bool.not_true, Bool.false_or,
      decide_false, Bool.false_eq_true, if_false, Nat.ofNat_pos]
  obtain ⟨c, cs, hcs, hc⟩ := Date.exists_text_eq_cons hd
  have hopen : take '[' (d.text.toList ++ ']' :: rest) =
      .ok (openDate, d.text.toList ++ ']' :: rest) := rfl
  have hclose : take ']' rest = .ok (closeDate, rest) := rfl
  rw [ofChars_of_take (by decide) hopen]
  rw [hcs, List.cons_append, ← take_of_isDigit hc] at htake
  rw [hcs, List.cons_append, ofChars_of_take (isSpacing_eq_false_of_isDigit hc) htake,
    ofChars_of_take (by decide) hclose]
  cases ofChars rest <;> rfl

theorem ofChars_symbol {name : List Char} (hne : name ≠ [])
    (hname : ∀ c ∈ name, isSymbolChar c = true)
    (hrest : ∀ c ∈ rest.head?, isSymbolChar c = false) :
    ofChars (name ++ rest) = (ofChars rest).map (symbol name :: ·) := by
  obtain ⟨c, cs, rfl⟩ := List.exists_cons_of_ne_nil hne
  obtain ⟨hc, hcs⟩ := List.forall_mem_cons.mp hname
  have hsymbol := hc
  simp only [isSymbolChar, Bool.not_eq_true', Bool.or_eq_false_iff] at hsymbol
  obtain ⟨⟨hdigit, hspacing⟩, hmarks⟩ := hsymbol
  have hquote : c ≠ '"' := by
    rintro rfl
    simp at hmarks
  have hsemicolon : c ≠ ';' := by
    rintro rfl
    simp at hmarks
  have htake : take c (cs ++ rest) = .ok (symbol (c :: cs), rest) := by
    unfold take
    rw [if_neg (by simp [hdigit]), if_neg hquote, if_neg hsemicolon, if_pos hc,
      split_append_of hcs hrest]
  exact ofChars_of_take hspacing htake

end Token

/-! ## Amounts -/

namespace Commodity

open Token

variable {c : Commodity} {rest : List Char}

/-- The name can be written without quotes. -/
def IsBare (c : Commodity) : Prop :=
  (∀ x ∈ c.name.toList, isSymbolChar x = true) ∧ (c.currency = true → c.name ≠ "")

instance (c : Commodity) : Decidable c.IsBare :=
  decidable_of_iff (c.name.toList.all isSymbolChar = true ∧ (c.currency = true → c.name ≠ ""))
    (and_congr_left' List.all_eq_true)

/-- The amount is shown with the decimals that it has. -/
def IsExact (c : Commodity) : Prop := c.precision = c.amount.scale

def unsignedTokens (c : Commodity) : List Token :=
  if c.currency then [.symbol c.name.toList, .number c.amount.digits]
  else if c.name = "" then [.number c.amount.digits]
  else [.number c.amount.digits, .symbol c.name.toList]

def tokens (c : Commodity) : List Token :=
  if c.amount.negative then .minus :: c.unsignedTokens else c.unsignedTokens

/-- The amount as it is written, without its sign. -/
def unsignedText (c : Commodity) : List Char :=
  if c.currency then c.name.toList ++ c.amount.digits
  else if c.name = "" then c.amount.digits
  else c.amount.digits ++ ' ' :: c.name.toList

theorem toList_text (h : c.IsExact) :
    c.text.toList = if c.amount.negative then '-' :: c.unsignedText else c.unsignedText := by
  obtain ⟨x, xs, hdigits, hx⟩ := c.amount.exists_digits_eq_cons
  have hminus : x ≠ '-' := by
    rintro rfl
    cases hx
  have hnumber : c.amount.textWithPlaces c.precision = c.amount.text := by
    rw [h, Decimal.textWithPlaces_scale]
  simp only [text, hnumber, unsignedText, Decimal.text]
  cases c.amount.negative <;> cases c.currency
  · by_cases hname : c.name = "" <;> simp [hname]
  · simp [hdigits, hminus]
  · by_cases hname : c.name = "" <;> simp [hname]
  · simp

theorem not_mem_text (h : c.IsExact) {x : Char} (hname : x ∉ c.name.toList)
    (hdigit : isDigit x = false) (hx : x ∉ ['.', '-', ' ']) : x ∉ c.text.toList := by
  simp only [List.mem_cons, List.not_mem_nil, or_false, not_or] at hx
  obtain ⟨hpoint, hminus, hspace⟩ := hx
  have hdigits : x ∉ c.amount.digits := fun hmem => by
    rcases Decimal.mem_digits hmem with hmem | hmem
    · rw [hdigit] at hmem
      cases hmem
    · exact hpoint hmem
  have hunsigned : x ∉ c.unsignedText := by
    rw [unsignedText]
    split
    · simp [hname, hdigits]
    · split <;> simp [hname, hdigits, hspace]
  rw [toList_text h]
  split <;> simp [hunsigned, hminus]

theorem ofChars_unsignedText (h : c.IsBare) (hrest : Seam rest) :
    ofChars (c.unsignedText ++ rest) = (ofChars rest).map (c.unsignedTokens ++ ·) := by
  obtain ⟨hname, hcurrency⟩ := h
  rw [unsignedText, unsignedTokens]
  split
  case isTrue hfirst =>
    obtain ⟨x, xs, hdigits, hx⟩ := c.amount.exists_digits_eq_cons
    have hne : c.name.toList ≠ [] := by simpa using hcurrency hfirst
    have hdigit : ∀ x ∈ (c.amount.digits ++ rest).head?, isSymbolChar x = false := by
      rw [hdigits]
      intro x' hx'
      obtain rfl := Option.some.inj hx'
      simp [isSymbolChar, hx]
    rw [List.append_assoc, ofChars_symbol hne hname hdigit, ofChars_digits _ hrest]
    cases ofChars rest <;> rfl
  case isFalse =>
    split
    case isTrue => exact ofChars_digits _ hrest
    case isFalse hempty =>
      have hne : c.name.toList ≠ [] := by simpa using hempty
      rw [List.append_assoc, List.cons_append, ofChars_digits _ (Seam.space _), ofChars_space,
        ofChars_symbol hne hname (hrest.head (by decide) (by decide))]
      cases ofChars rest <;> rfl

theorem ofChars_text (h : c.IsBare) (hexact : c.IsExact) (hrest : Seam rest) :
    ofChars (c.text.toList ++ rest) = (ofChars rest).map (c.tokens ++ ·) := by
  rw [toList_text hexact, tokens]
  split
  case isTrue =>
    have htake : take '-' (c.unsignedText ++ rest) = .ok (minus, c.unsignedText ++ rest) := rfl
    rw [List.cons_append, ofChars_of_take (by decide) htake, ofChars_unsignedText h hrest]
    cases ofChars rest <;> rfl
  case isFalse => exact ofChars_unsignedText h hrest

end Commodity

end Daybook
