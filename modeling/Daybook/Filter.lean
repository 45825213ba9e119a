import Daybook.Pattern.Notation
import Daybook.Text.Basic
import Daybook.Text.Quoted

/-!
# Account filters

A filter selects accounts by patterns that are found in their names, combined by `and`, `or` and
`not`. It is written with its patterns in quotes, or given as the words of a command line, which
need none. What patterns there are and how they are written is left open (`PatternEngine`): filters
only ask whether a text is a pattern, and whether the pattern is found in a name.
-/

namespace Daybook

open Daybook.Text

/-- Patterns: what a text writes, if it writes one, and in which texts they are found. -/
class PatternEngine (π : Type) where
  ofText? : String → Option π
  foundIn : π → String → Bool

instance : PatternEngine Pattern := ⟨Pattern.ofText?, Pattern.foundIn⟩

/-- A filter; a term keeps the text of its pattern. -/
inductive Filter (π : Type) where
  | term (text : String) (pattern : π)
  | and (left right : Filter π)
  | or (left right : Filter π)
  | not (inner : Filter π)
  deriving DecidableEq, Repr

/-- Why there is no filter. -/
inductive FilterError where
  | invalidPattern (text : String)
  | badForm
  deriving DecidableEq, Repr

def FilterError.message : FilterError → String
  | invalidPattern text => "invalid pattern " ++ Text.Quoted.encode text
  | badForm => "the filter has no proper form"

namespace Filter

/-- Whether the filter selects the account of that name. -/
def selects {π : Type} [PatternEngine π] : Filter π → String → Bool
  | term _ p, name => PatternEngine.foundIn p name
  | and l r, name => l.selects name && r.selects name
  | or l r, name => l.selects name || r.selects name
  | not inner, name => !inner.selects name

/-- The filter with its structure made plain. -/
def text {π : Type} : Filter π → String
  | term s _ => "/" ++ s ++ "/"
  | and l r => "(" ++ l.text ++ " and " ++ r.text ++ ")"
  | or l r => "(" ++ l.text ++ " or " ++ r.text ++ ")"
  | not inner => "not " ++ inner.text

/-! ### Lexemes -/

/-- What a written filter consists of. -/
inductive Lexeme where
  | term (text : List Char)
  | opening
  | closing
  | and
  | or
  | not
  deriving DecidableEq, Repr

/-- The lexeme that a word writes. -/
def Lexeme.ofKeyword? : String → Option Lexeme
  | "and" => some and
  | "or" => some or
  | "not" => some not
  | _ => none

/-- Where in a written filter a character stands. The characters of a term or word are kept, the
last one first. -/
inductive Place where
  | between
  | quoted (chars : List Char)
  | escaped (chars : List Char)
  | word (chars : List Char)
  deriving DecidableEq, Repr

namespace Place

/-- Whether the character belongs to a word that another letter has begun. -/
def isWordChar (c : Char) : Bool := c.isAlphanum || c = '_'

/-- The lexemes that end with the character outside of terms and words, and where the next one
stands. -/
def stepBetween (c : Char) : Option (List Lexeme × Place) :=
  if isSpacing c then some ([], between)
  else if c = '"' then some ([], quoted [])
  else if c = '(' then some ([.opening], between)
  else if c = ')' then some ([.closing], between)
  else if c.isAlpha then some ([], word [c])
  else none

/-- The lexemes that end with or before the character, and where the next one stands. -/
def step : Place → Char → Option (List Lexeme × Place)
  | between, c => stepBetween c
  | quoted chars, '"' => some ([.term chars.reverse], between)
  | quoted chars, '\\' => some ([], escaped chars)
  | quoted chars, c => some ([], quoted (c :: chars))
  | escaped chars, c => some ([], quoted (c :: chars))
  | word chars, c =>
    if isWordChar c then some ([], word (c :: chars))
    else do
      let keyword ← Lexeme.ofKeyword? (String.ofList chars.reverse)
      let (more, place) ← stepBetween c
      return (keyword :: more, place)

def finish : Place → Option (List Lexeme)
  | between => some []
  | word chars => (Lexeme.ofKeyword? (String.ofList chars.reverse)).map ([·])
  | quoted _ | escaped _ => none

/-- The lexemes of a text whose first character stands at the place. -/
def lexemes? (place : Place) : List Char → Option (List Lexeme)
  | [] => place.finish
  | c :: rest => do
    let (found, next) ← place.step c
    return found ++ (← next.lexemes? rest)

end Place

/-! ### Grammar -/

section

variable {π : Type} [PatternEngine π]

def ofTerm? (s : List Char) : Option (Filter π) :=
  (PatternEngine.ofText? (String.ofList s)).map (term (String.ofList s))

/-- Adds the terms that follow: any of them may be found. -/
def readTerms? (left : Filter π) : List Lexeme → Option (Filter π × List Lexeme)
  | .term s :: rest => do readTerms? (or left (← ofTerm? s)) rest
  | rest => some (left, rest)

mutual

/-- Values joined by `and`, joined by `or`; `fuel` bounds the depth. -/
def readOr? : (fuel : Nat) → List Lexeme → Option (Filter π × List Lexeme)
  | 0, _ => none
  | fuel + 1, ts => do
    let (left, rest) ← readAnd? fuel ts
    readOrs? fuel left rest

/-- Goes on behind what the first operand of `or` is known to be. -/
def readOrs? : (fuel : Nat) → Filter π → List Lexeme → Option (Filter π × List Lexeme)
  | 0, _, _ => none
  | fuel + 1, left, .or :: rest => do
    let (right, rest) ← readAnd? fuel rest
    readOrs? fuel (or left right) rest
  | _ + 1, left, rest => some (left, rest)

def readAnd? : (fuel : Nat) → List Lexeme → Option (Filter π × List Lexeme)
  | 0, _ => none
  | fuel + 1, ts => do
    let (left, rest) ← readValue? fuel ts
    readAnds? fuel left rest

/-- Goes on behind what the first operand of `and` is known to be. -/
def readAnds? : (fuel : Nat) → Filter π → List Lexeme → Option (Filter π × List Lexeme)
  | 0, _, _ => none
  | fuel + 1, left, .and :: rest => do
    let (right, rest) ← readValue? fuel rest
    readAnds? fuel (and left right) rest
  | _ + 1, left, rest => some (left, rest)

/-- Adjacent terms, a group, or the negation of all that follows up to the end of the group. -/
def readValue? : (fuel : Nat) → List Lexeme → Option (Filter π × List Lexeme)
  | 0, _ => none
  | _ + 1, .term s :: rest => do readTerms? (← ofTerm? s) rest
  | fuel + 1, .opening :: rest => do
    match ← readOr? fuel rest with
    | (inner, .closing :: rest) => return (inner, rest)
    | _ => none
  | fuel + 1, .not :: rest => do
    let (inner, rest) ← readOr? fuel rest
    return (not inner, rest)
  | _ + 1, _ => none

end

/-- The filter that a text writes. Three levels of the grammar at most lie between two lexemes. -/
def ofText (source : String) : Except FilterError (Filter π) :=
  match Place.between.lexemes? source.toList with
  | none => .error .badForm
  | some ts =>
    match readOr? (4 * ts.length + 4) ts with
    | some (f, []) => .ok f
    | _ => .error .badForm

end

/-! ### Words of a command line -/

/-- The pattern between quotes, a backslash before each quote and each backslash. -/
def quote (cs : List Char) : List Char :=
  '"' :: cs.flatMap (fun c => if c = '"' || c = '\\' then ['\\', c] else [c]) ++ ['"']

/-- A word of a command line without blanks at its ends: the parentheses that it begins with, what
stands inside, and the parentheses that it ends with. -/
def splitWord (word : String) : Nat × List Char × Nat :=
  let cs := trim word.toList
  let body := cs.dropWhile (· = '(')
  let inner := (body.reverse.dropWhile (· = ')')).reverse
  (cs.length - body.length, inner, body.length - inner.length)

section

variable (π : Type) [PatternEngine π]

/-- The parts of a written filter that a word of a command line stands for. -/
def expandWord (word : String) : Except FilterError (List (List Char)) := do
  let (opens, inner, closes) := splitWord word
  let middle ←
    if inner = [] then pure []
    else if (Lexeme.ofKeyword? (String.ofList inner)).isSome then pure [inner]
    else if (PatternEngine.ofText? (String.ofList inner) : Option π).isSome then pure [quote inner]
    else throw (.invalidPattern (String.ofList inner))
  return List.replicate opens ['('] ++ middle ++ List.replicate closes [')']

/-- The written filter that the words of a command line stand for. -/
def textOfWords (words : List String) : Except FilterError String := do
  let parts ← words.mapM (expandWord π)
  return " ".intercalate (parts.flatten.map String.ofList)

end

/-- The filter that the words of a command line stand for; no words, no filter. -/
def ofWords {π : Type} [PatternEngine π] (words : List String) :
    Except FilterError (Option (Filter π)) := do
  let source ← textOfWords π words
  if source = "" then return none
  return some (← ofText source)

end Filter

end Daybook
