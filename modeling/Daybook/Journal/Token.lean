import Daybook.Text.Basic
import Daybook.Text.Numeral

/-!
# Tokens of an amount

What follows the account on a posting line is cut into tokens: numbers, dates, names of commodities
and signs, with spaces and tabs between them. Main statements: a token and what is left of the text
make up the text (`take_eq_ok`), so that cutting ends.
-/

namespace Daybook

open Daybook.Text

/-- A token, with its text where it is not fixed. -/
inductive Token where
  | date (text : List Char)
  | number (text : List Char)
  | quoted (text : List Char)
  | symbol (text : List Char)
  | comment (text : List Char)
  | openTotal
  | closeTotal
  | openLot
  | closeLot
  | openDate
  | closeDate
  | totalCost
  | unitCost
  | equals
  | minus
  deriving DecidableEq, Repr

namespace Token

def chars : Token → List Char
  | date s | number s | quoted s | symbol s | comment s => s
  | openTotal => ['{', '{']
  | closeTotal => ['}', '}']
  | openLot => ['{']
  | closeLot => ['}']
  | openDate => ['[']
  | closeDate => [']']
  | totalCost => ['@', '@']
  | unitCost => ['@']
  | equals => ['=']
  | minus => ['-']

def text (t : Token) : String := String.ofList t.chars

def isDateSeparator (c : Char) : Bool := c = '/' || c = '.' || c = '-'

/-- Whether the character may stand in an unquoted name: it is no digit, no space, tab or line feed
and has no other meaning in an amount. -/
def isSymbolChar (c : Char) : Bool :=
  !(isDigit c || isSpacing c ||
    ['\n', '-', '@', '{', '}', '[', ']', '=', ';', '"', '(', ')', ',', '.'].contains c)

/-- The longest start of the text whose characters satisfy `p`, and the rest. -/
def split (p : Char → Bool) (cs : List Char) : List Char × List Char :=
  (cs.takeWhile p, cs.dropWhile p)

theorem split_append (p : Char → Bool) (cs : List Char) :
    (split p cs).1 ++ (split p cs).2 = cs := List.takeWhile_append_dropWhile

/-- A point and digits behind it at the start of the text, and the rest. -/
def takeDecimals (cs : List Char) : List Char × List Char :=
  match cs with
  | '.' :: rest =>
    let (digits, rest') := split isDigit rest
    if digits = [] then ([], cs) else ('.' :: digits, rest')
  | _ => ([], cs)

theorem takeDecimals_append (cs : List Char) :
    (takeDecimals cs).1 ++ (takeDecimals cs).2 = cs := by
  simp only [takeDecimals]
  split
  · split
    · rfl
    · simp [split_append]
  · rfl

/-- A number: digits and commas, then decimals. -/
def takeNumber (cs : List Char) : Token × List Char :=
  let (whole, rest) := split (fun c => isDigit c || c = ',') cs
  let (decimals, rest) := takeDecimals rest
  (number (whole ++ decimals), rest)

theorem takeNumber_append (cs : List Char) :
    (takeNumber cs).1.chars ++ (takeNumber cs).2 = cs := by
  simp only [takeNumber, chars, List.append_assoc, takeDecimals_append, split_append]

/-- A date or a number. Two numbers with a slash or a dash between them that do not go on to a date
are refused as a whole. -/
def takeDateOrNumber (cs : List Char) : Except (List Char) (Token × List Char) :=
  let (first, rest₁) := split isDigit cs
  match rest₁ with
  | [] => .ok (takeNumber cs)
  | s₁ :: rest₂ =>
    let (second, rest₃) := split isDigit rest₂
    if !isDateSeparator s₁ || second = [] then .ok (takeNumber cs)
    else
      let refuse := if s₁ = '.' then .ok (takeNumber cs) else .error (first ++ s₁ :: second)
      match rest₃ with
      | [] => refuse
      | s₂ :: rest₄ =>
        let (third, rest₅) := split isDigit rest₄
        if !isDateSeparator s₂ || third = [] then refuse
        else .ok (date (first ++ s₁ :: (second ++ s₂ :: third)), rest₅)

theorem takeDateOrNumber_eq_ok {cs rest : List Char} {t : Token}
    (h : takeDateOrNumber cs = .ok (t, rest)) : t.chars ++ rest = cs := by
  have hn : ∀ {t : Token} {rest : List Char}, takeNumber cs = (t, rest) → t.chars ++ rest = cs := by
    intro t rest h
    have := takeNumber_append cs
    rw [h] at this
    exact this
  simp only [takeDateOrNumber] at h
  split at h
  · exact hn (Except.ok.inj h)
  · rename_i s₁ rest₂ heq
    have h1 := split_append isDigit cs
    have h2 := split_append isDigit rest₂
    split at h
    · exact hn (Except.ok.inj h)
    · split at h
      · split at h
        · exact hn (Except.ok.inj h)
        · cases h
      · rename_i s₂ rest₄ heq'
        have h3 := split_append isDigit rest₄
        split at h
        · split at h
          · exact hn (Except.ok.inj h)
          · cases h
        · obtain ⟨rfl, rfl⟩ := Prod.mk.inj (Except.ok.inj h)
          simp only [chars, List.append_assoc, List.cons_append]
          rw [h3, ← heq', h2, ← heq, h1]

/-- A quoted name, up to the closing quote on the same line. -/
def takeQuoted (rest : List Char) : Except (List Char) (Token × List Char) :=
  let (name, rest) := split (fun c => c ≠ '"' && c ≠ '\n') rest
  match rest with
  | '"' :: rest => .ok (quoted ('"' :: name ++ ['"']), rest)
  | _ => .error ('"' :: name)

theorem takeQuoted_eq_ok {cs rest : List Char} {t : Token}
    (h : takeQuoted cs = .ok (t, rest)) : t.chars ++ rest = '"' :: cs := by
  simp only [takeQuoted] at h
  have h1 := split_append (fun c => c ≠ '"' && c ≠ '\n') cs
  split at h
  · rename_i heq
    obtain ⟨rfl, rfl⟩ := Prod.mk.inj (Except.ok.inj h)
    simp only [chars, List.append_assoc, List.cons_append, List.nil_append]
    rw [← heq, h1]
  · cases h

/-- The longest token at the start of a text that begins with `c`, and the rest. A text that begins
with no token is refused. -/
def take (c : Char) (rest : List Char) : Except (List Char) (Token × List Char) :=
  if isDigit c then takeDateOrNumber (c :: rest)
  else if c = '"' then takeQuoted rest
  else if c = ';' then
    .ok (comment (c :: (split (· ≠ '\n') rest).1), (split (· ≠ '\n') rest).2)
  else if isSymbolChar c then
    .ok (symbol (c :: (split isSymbolChar rest).1), (split isSymbolChar rest).2)
  else
    match c, rest with
    | '{', '{' :: rest => .ok (openTotal, rest)
    | '{', rest => .ok (openLot, rest)
    | '}', '}' :: rest => .ok (closeTotal, rest)
    | '}', rest => .ok (closeLot, rest)
    | '@', '@' :: rest => .ok (totalCost, rest)
    | '@', rest => .ok (unitCost, rest)
    | '[', rest => .ok (openDate, rest)
    | ']', rest => .ok (closeDate, rest)
    | '=', rest => .ok (equals, rest)
    | '-', rest => .ok (minus, rest)
    | c, _ => .error [c]

theorem take_eq_ok {c : Char} {cs rest : List Char} {t : Token}
    (h : take c cs = .ok (t, rest)) : t.chars ++ rest = c :: cs := by
  simp only [take] at h
  split at h
  · exact takeDateOrNumber_eq_ok h
  · split at h
    · rename_i hc
      subst hc
      exact takeQuoted_eq_ok h
    · split at h
      · obtain ⟨rfl, rfl⟩ := Prod.mk.inj (Except.ok.inj h)
        simp [chars, split_append]
      · split at h
        · obtain ⟨rfl, rfl⟩ := Prod.mk.inj (Except.ok.inj h)
          simp [chars, split_append]
        · split at h <;> first
            | (obtain ⟨rfl, rfl⟩ := Prod.mk.inj (Except.ok.inj h); rfl)
            | cases h

theorem takeNumber_ne_nil {c : Char} (hc : isDigit c = true) (rest : List Char) :
    (takeNumber (c :: rest)).1.chars ≠ [] := by
  simp [takeNumber, chars, split, hc]

theorem takeDateOrNumber_ne_nil {c : Char} {cs rest : List Char} {t : Token}
    (hc : isDigit c = true) (h : takeDateOrNumber (c :: cs) = .ok (t, rest)) : t.chars ≠ [] := by
  have hn : ∀ {t : Token} {rest : List Char}, takeNumber (c :: cs) = (t, rest) → t.chars ≠ [] := by
    intro t rest h
    have := takeNumber_ne_nil hc cs
    rw [h] at this
    exact this
  simp only [takeDateOrNumber] at h
  split at h
  · exact hn (Except.ok.inj h)
  · split at h
    · exact hn (Except.ok.inj h)
    · split at h
      · split at h
        · exact hn (Except.ok.inj h)
        · cases h
      · split at h
        · split at h
          · exact hn (Except.ok.inj h)
          · cases h
        · obtain ⟨rfl, rfl⟩ := Prod.mk.inj (Except.ok.inj h)
          simp [chars]

theorem chars_ne_nil_of_take {c : Char} {cs rest : List Char} {t : Token}
    (h : take c cs = .ok (t, rest)) : t.chars ≠ [] := by
  simp only [take] at h
  split at h
  · rename_i hc
    exact takeDateOrNumber_ne_nil hc h
  · split at h
    · simp only [takeQuoted] at h
      split at h
      · obtain ⟨rfl, rfl⟩ := Prod.mk.inj (Except.ok.inj h)
        simp [chars]
      · cases h
    · split at h
      · obtain ⟨rfl, rfl⟩ := Prod.mk.inj (Except.ok.inj h)
        simp [chars]
      · split at h
        · obtain ⟨rfl, rfl⟩ := Prod.mk.inj (Except.ok.inj h)
          simp [chars]
        · split at h <;> first
            | (obtain ⟨rfl, rfl⟩ := Prod.mk.inj (Except.ok.inj h); simp [chars])
            | cases h

theorem length_le_of_take {c : Char} {cs rest : List Char} {t : Token}
    (h : take c cs = .ok (t, rest)) : rest.length ≤ cs.length := by
  have hlen := congrArg List.length (take_eq_ok h)
  have hpos := List.length_pos_iff.mpr (chars_ne_nil_of_take h)
  simp only [List.length_append, List.length_cons] at hlen
  omega

/-- The tokens of a text, or the part of it that is none. -/
def ofChars : List Char → Except (List Char) (List Token)
  | [] => .ok []
  | c :: cs =>
    if isSpacing c then ofChars cs
    else
      match h : take c cs with
      | .ok (t, rest) =>
        have := length_le_of_take h
        (ofChars rest).map (t :: ·)
      | .error bad => .error bad
  termination_by cs => cs.length
  decreasing_by all_goals (simp only [List.length_cons]; omega)

end Token

end Daybook
