import Daybook.Pattern.Basic
import Daybook.Text.Basic
import Daybook.Text.Numeral

/-!
# Written patterns

The usual notation of regular expressions: characters, sets in brackets, escapes, anchors, groups,
alternatives, repetitions and flags. A text that is no pattern is refused.
-/

namespace Daybook.Pattern

open Daybook.Text

/-- The flags that change how a pattern is read. -/
structure Flags where
  caseless : Bool
  multiline : Bool
  dotAll : Bool
  extended : Bool
  returns : Bool
  ascii : Bool
  deriving DecidableEq, Repr

def Flags.none : Flags := ⟨false, false, false, false, false, false⟩

/-- In an extended pattern, leaves out white space and comments at the start of the text. -/
def skipSpace (flags : Flags) (cs : List Char) : List Char :=
  if flags.extended then go false cs else cs
where
  /-- Goes on in or outside a comment. -/
  go (comment : Bool) : List Char → List Char
    | [] => []
    | c :: rest =>
      if comment then go (c ≠ '\n') rest
      else if isBlank c then go false rest
      else if c = '#' then go true rest
      else c :: rest

/-- What stands behind a backslash. -/
inductive Escape where
  | char (c : Char)
  | set (s : CharSet)
  | anchor (a : Anchor)
  deriving DecidableEq, Repr

/-- The characters that have a meaning in patterns. -/
def specialChars : List Char :=
  ['\\', '.', '+', '*', '?', '(', ')', '|', '[', ']', '{', '}', '^', '$', '#', '&', '-', '~']

/-- Whether a backslash may stand before the character to take it as it is. -/
def isEscapable (c : Char) : Bool :=
  specialChars.contains c ||
    (c.toNat < 128 && !c.isAlphanum && c ≠ '<' && c ≠ '>')

def hexValue? (c : Char) : Option Nat :=
  if isDigit c then some (digitValue c)
  else if 'a' ≤ c ∧ c ≤ 'f' then some (c.toNat - 'a'.toNat + 10)
  else if 'A' ≤ c ∧ c ≤ 'F' then some (c.toNat - 'A'.toNat + 10)
  else none

/-- The character whose number the hexadecimal digits give. -/
def charOfHex? (digits : List Char) : Option Char := do
  if digits = [] then none
  let n := (← digits.mapM hexValue?).foldl (fun n d => 16 * n + d) 0
  if h : n.isValidChar then some (Char.ofNatAux n h) else none

/-- A character by its number: `count` digits, or any number of them in braces. -/
def readHex? (count : Nat) (cs : List Char) : Option (Char × List Char) :=
  match cs with
  | '{' :: rest => do
    let (digits, rest) ← cut? (· = '}') rest
    return (← charOfHex? digits, rest)
  | _ =>
    if cs.length < count then none
    else (charOfHex? (cs.take count)).map (·, cs.drop count)

/-- A class, or what is not in it; the latter is refused for words of letters without marks, since
it could match half a character. -/
def classOf? (flags : Flags) (wide narrow : CharSet) (negated : Bool) : Option CharSet :=
  if flags.ascii then if negated then none else some narrow
  else if negated then some wide.complement else some wide

/-- A condition on word boundaries in braces, if the text begins with one, and the rest. Nothing is
read if the brace begins a repetition. -/
def readBoundary? (flags : Flags) (cs : List Char) : Option (Anchor × List Char) :=
  let isNameChar (c : Char) : Bool := c.isAlpha || c = '-'
  match cs with
  | '{' :: rest =>
    match rest with
    | [] => none
    | c :: _ =>
      if isNameChar c then
        let name := rest.takeWhile isNameChar
        match rest.dropWhile isNameChar with
        | '}' :: rest =>
          match String.ofList name with
          | "start" => some (.wordStart flags.ascii, rest)
          | "end" => some (.wordEnd flags.ascii, rest)
          | "start-half" => some (.notAfterWord flags.ascii, rest)
          | "end-half" => some (.notBeforeWord flags.ascii, rest)
          | _ => none
        | _ => none
      else some (.boundary flags.ascii, cs)
  | _ => some (.boundary flags.ascii, cs)

/-- What the text behind a backslash means, and the rest. -/
def readEscape? (flags : Flags) : List Char → Option (Escape × List Char)
  | [] => none
  | c :: rest =>
    let char (c : Char) := some (Escape.char c, rest)
    let set (s : Option CharSet) := s.map fun s => (Escape.set s, rest)
    let anchor (a : Anchor) := some (Escape.anchor a, rest)
    match c with
    | 'x' => (readHex? 2 rest).map fun (c, rest) => (.char c, rest)
    | 'u' => (readHex? 4 rest).map fun (c, rest) => (.char c, rest)
    | 'U' => (readHex? 8 rest).map fun (c, rest) => (.char c, rest)
    | 'd' => set (classOf? flags .digit .asciiDigit false)
    | 'D' => set (classOf? flags .digit .asciiDigit true)
    | 's' => set (classOf? flags .blank .asciiBlank false)
    | 'S' => set (classOf? flags .blank .asciiBlank true)
    | 'w' => set (classOf? flags .word .asciiWord false)
    | 'W' => set (classOf? flags .word .asciiWord true)
    | 'a' => char '\x07'
    | 'f' => char '\x0c'
    | 't' => char '\t'
    | 'n' => char '\n'
    | 'r' => char '\r'
    | 'v' => char '\x0b'
    | 'A' => anchor .textStart
    | 'z' => anchor .textEnd
    | 'b' => (readBoundary? flags rest).map fun (a, rest) => (.anchor a, rest)
    | 'B' => if flags.ascii then none else anchor (.noBoundary false)
    | '<' => anchor (.wordStart flags.ascii)
    | '>' => anchor (.wordEnd flags.ascii)
    | c => if isEscapable c then char c else none

/-- The set of one character, under the flag for case. -/
def literal (flags : Flags) (c : Char) : CharSet :=
  if flags.caseless then .caseless (.single c) else .single c

/-! ### Sets in brackets -/

/-- The operations between two sets in brackets. -/
inductive SetOp where
  | inter | diff | symmDiff
  deriving DecidableEq, Repr

def SetOp.apply : SetOp → CharSet → CharSet → CharSet
  | inter, a, b => .inter a b
  | diff, a, b => .diff a b
  | symmDiff, a, b => .symmDiff a b

/-- A set in brackets that is being read: its items, and the operation that they will end. -/
structure OpenSet where
  negated : Bool
  items : List CharSet
  pending : Option (SetOp × CharSet)
  deriving DecidableEq, Repr

namespace OpenSet

def add (s : OpenSet) (item : CharSet) : OpenSet := { s with items := item :: s.items }

def value (s : OpenSet) : CharSet :=
  let items := CharSet.unions s.items.reverse
  match s.pending with
  | some (op, left) => op.apply left items
  | none => items

def operate (s : OpenSet) (op : SetOp) : OpenSet := ⟨s.negated, [], some (op, s.value)⟩

/-- The finished set. One that excludes letters without marks only is refused. -/
def close? (flags : Flags) (s : OpenSet) : Option CharSet :=
  let set := if flags.caseless then .caseless s.value else s.value
  if s.negated then if flags.ascii then none else some (.complement set) else some set

end OpenSet

/-- The items with which a set may begin: dashes, or else a closing bracket. -/
def readSetStart? (flags : Flags) (cs : List Char) : Option (OpenSet × List Char) := do
  let cs := skipSpace flags cs
  let (negated, cs) := match cs with
    | '^' :: rest => (true, skipSpace flags rest)
    | _ => (false, cs)
  let dashes := cs.takeWhile (· = '-')
  let set : OpenSet := ⟨negated, dashes.map CharSet.single, none⟩
  match skipSpace flags (cs.drop dashes.length) with
  | [] => none
  | ']' :: rest =>
    if dashes = [] then some (set.add (.single ']'), rest) else some (set, ']' :: rest)
  | cs => some (set, cs)

def readSetItem? (flags : Flags) : List Char → Option (Escape × List Char)
  | [] => none
  | '\\' :: rest => readEscape? flags rest
  | c :: rest => some (.char c, rest)

/-- A character, a class or a range in a set, and the rest. -/
def readSetRange? (flags : Flags) (cs : List Char) : Option (CharSet × List Char) := do
  let (first, rest) ← readSetItem? flags cs
  let single : Option (CharSet × List Char) := match first with
    | .char c => some (.single c, rest)
    | .set s => some (s, rest)
    | .anchor _ => none
  match skipSpace flags rest with
  | [] => none
  | '-' :: more =>
    match skipSpace flags more with
    | [] => none
    | ']' :: _ | '-' :: _ => single
    | more =>
      match first, ← readSetItem? flags more with
      | .char lo, (.char hi, rest) => if lo ≤ hi then some (.range lo hi, rest) else none
      | _, _ => none
  | _ => single

/-- A named class, behind its opening bracket and colon, and the rest. -/
def readNamed? (cs : List Char) : Option (CharSet × List Char) := do
  let (negated, cs) := match cs with
    | '^' :: rest => (true, rest)
    | _ => (false, cs)
  let name := cs.takeWhile (· ≠ ':')
  let rest ← dropStart? [':', ']'] (cs.drop name.length)
  let set ← CharSet.named? (String.ofList name)
  return (if negated then set.complement else set, rest)

/-- Reads the inner of sets in brackets, the innermost open one first, to the end of the outermost
one. Each step takes a character at least, so `fuel` need not exceed their number. -/
def readSet? (flags : Flags) : (fuel : Nat) → OpenSet → List OpenSet → List Char →
    Option (CharSet × List Char)
  | 0, _, _, _ => none
  | fuel + 1, set, outer, cs =>
    match skipSpace flags cs with
    | [] => none
    | '[' :: rest =>
      let nested := do
        let (inner, rest) ← readSetStart? flags rest
        readSet? flags fuel inner (set :: outer) rest
      match rest with
      | ':' :: name =>
        match readNamed? name with
        | some (s, rest) => readSet? flags fuel (set.add s) outer rest
        | none => nested
      | _ => nested
    | ']' :: rest => do
      let s ← set.close? flags
      match outer with
      | [] => some (s, rest)
      | next :: outer => readSet? flags fuel (next.add s) outer rest
    | '&' :: '&' :: rest => readSet? flags fuel (set.operate .inter) outer rest
    | '-' :: '-' :: rest => readSet? flags fuel (set.operate .diff) outer rest
    | '~' :: '~' :: rest => readSet? flags fuel (set.operate .symmDiff) outer rest
    | cs => do
      let (s, rest) ← readSetRange? flags cs
      readSet? flags fuel (set.add s) outer rest

/-! ### Repetitions -/

/-- The largest width of a repeated pattern. -/
def widthLimit : Nat := 262144

/-- A number with blanks around it; `some none` if there are no digits. -/
def readCount? (flags : Flags) (cs : List Char) : Option (Option Nat × List Char) :=
  let cs := cs.dropWhile isBlank
  let digits := cs.takeWhile isDigit
  let rest := skipSpace flags ((cs.drop digits.length).dropWhile isBlank)
  if digits = [] then some (none, rest) else (readNat32? digits).map fun n => (some n, rest)

/-- The limits of a repetition, behind the opening brace, and the rest behind the closing one. -/
def readLimits? (flags : Flags) (cs : List Char) : Option ((Nat × Option Nat) × List Char) := do
  let (least, rest) ← readCount? flags (skipSpace flags cs)
  let least ← least
  match rest with
  | ',' :: rest =>
    match skipSpace flags rest with
    | '}' :: rest => some ((least, none), rest)
    | rest =>
      let (most, rest) ← readCount? flags rest
      let most ← most
      match rest with
      | '}' :: rest => if least ≤ most then some ((least, some most), rest) else none
      | _ => none
  | '}' :: rest => some ((least, some least), rest)
  | _ => none

/-! ### Groups -/

/-- The part of a pattern that is being read: the alternatives before, last first, and the items of
the present one, last first. An item that only sets flags cannot be repeated. -/
structure Draft where
  flags : Flags
  done : List Pattern
  items : List (Option Pattern)
  deriving DecidableEq, Repr

namespace Draft

def start (flags : Flags) : Draft := ⟨flags, [], []⟩

def add (d : Draft) (p : Pattern) : Draft := { d with items := some p :: d.items }

def alternative (d : Draft) : Pattern := Pattern.seqs (d.items.reverse.filterMap id)

def value (d : Draft) : Pattern := Pattern.alts ((d.alternative :: d.done).reverse)

def split (d : Draft) : Draft := ⟨d.flags, d.alternative :: d.done, []⟩

def repeat? (d : Draft) (least : Nat) (most : Option Nat) : Option Draft :=
  match d.items with
  | some p :: items =>
    if p.width * max least (most.getD 0) ≤ widthLimit then
      some { d with items := some (p.times least most) :: items }
    else none
  | _ => none

end Draft

/-- The flag of a letter, changed to `on`. -/
def setFlag? (c : Char) (on : Bool) (f : Flags) : Option Flags :=
  match c with
  | 'i' => some { f with caseless := on }
  | 'm' => some { f with multiline := on }
  | 's' => some { f with dotAll := on }
  | 'x' => some { f with extended := on }
  | 'R' => some { f with returns := on }
  | 'u' => some { f with ascii := !on }
  | 'U' => some f
  | _ => none

/-- The letters of flags up to a colon or a closing parenthesis: the flags, whether there were any
letters, the character that ended them, and the rest. -/
def readFlags? (on dangling : Bool) (seen : List Char) (f : Flags) :
    List Char → Option (Flags × Bool × Char × List Char)
  | [] => none
  | c :: rest =>
    if c = ':' || c = ')' then
      if dangling then none else some (f, seen ≠ [], c, rest)
    else if seen.contains c then none
    else if c = '-' then readFlags? false true (c :: seen) f rest
    else do readFlags? on false (c :: seen) (← setFlag? c on f) rest

/-- Whether the text may name a group. -/
def isGroupName (cs : List Char) : Bool :=
  match cs with
  | [] => false
  | c :: rest =>
    (c = '_' || isAlphabetic c) &&
      rest.all fun c => c = '_' || c = '.' || c = '[' || c = ']' || isAlphanumeric c

/-- A pattern that is being read: the innermost open group, the groups around it, and the names
that have been given. -/
structure Drafts where
  inner : Draft
  outer : List Draft
  names : List (List Char)
  deriving DecidableEq, Repr

namespace Drafts

def map (s : Drafts) (f : Draft → Draft) : Drafts := { s with inner := f s.inner }

/-- Changes the innermost group, if that is possible. -/
def map? (s : Drafts) (f : Draft → Option Draft) : Option Drafts :=
  (f s.inner).map fun d => { s with inner := d }

def enter (s : Drafts) (flags : Flags) : Drafts :=
  { s with inner := .start flags, outer := s.inner :: s.outer }

def leave? (s : Drafts) : Option Drafts :=
  match s.outer with
  | [] => none
  | d :: outer => some { s with inner := d.add s.inner.value, outer }

end Drafts

/-- The start of a group, behind its opening parenthesis, and the rest. -/
def readOpening? (s : Drafts) (cs : List Char) : Option (Drafts × List Char) :=
  let flags := s.inner.flags
  let named (rest : List Char) : Option (Drafts × List Char) := do
    let (name, rest) ← cut? (· = '>') rest
    if isGroupName name && !s.names.contains name then
      some ({ s.enter flags with names := name :: s.names }, rest)
    else none
  match skipSpace flags cs with
  | '?' :: '=' :: _ | '?' :: '!' :: _ | '?' :: '<' :: '=' :: _ | '?' :: '<' :: '!' :: _ => none
  | '?' :: 'P' :: '<' :: rest | '?' :: '<' :: rest => named rest
  | '?' :: rest => do
    let (changed, any, closing, rest) ← readFlags? true false [] flags rest
    if closing = ':' then some (s.enter changed, rest)
    else if any then
      some (s.map fun d => { d with flags := changed, items := none :: d.items }, rest)
    else none
  | cs => some (s.enter flags, cs)

/-- What one of the characters means that stand for a place of the text. -/
def place? (flags : Flags) (c : Char) : Option Pattern :=
  match c with
  | '.' =>
    if flags.ascii then none
    else if flags.dotAll then some (.chars .all)
    else if flags.returns then some (.chars (.complement (.ofChars ['\r', '\n'])))
    else some (.chars (.complement (.single '\n')))
  | '^' => some (.anchor (if flags.multiline then .lineStart flags.returns else .textStart))
  | '$' => some (.anchor (if flags.multiline then .lineEnd flags.returns else .textEnd))
  | c => some (.chars (literal flags c))

def ofEscape (flags : Flags) : Escape → Pattern
  | .char c => .chars (literal flags c)
  | .set s => .chars s
  | .anchor a => .anchor a

/-- The rest behind a question mark that makes a repetition prefer fewer times. -/
def skipLazy (flags : Flags) (cs : List Char) : List Char :=
  match skipSpace flags cs with
  | '?' :: rest => rest
  | cs => cs

def readItem? (s : Drafts) (c : Char) (rest : List Char) : Option (Drafts × List Char) :=
  let flags := s.inner.flags
  let repeated (least : Nat) (most : Option Nat) (rest : List Char) := do
    return (← s.map? (·.repeat? least most), skipLazy flags rest)
  match c with
  | '(' => readOpening? s rest
  | ')' => s.leave?.map (·, rest)
  | '|' => some (s.map Draft.split, rest)
  | '[' => do
    let (start, inner) ← readSetStart? flags rest
    let (set, rest) ← readSet? flags (rest.length + 1) start [] inner
    return (s.map (·.add (.chars set)), rest)
  | '?' => repeated 0 (some 1) rest
  | '*' => repeated 0 none rest
  | '+' => repeated 1 none rest
  | '{' => do
    let ((least, most), rest) ← readLimits? flags rest
    repeated least most rest
  | '\\' => do
    let (e, rest) ← readEscape? flags rest
    return (s.map (·.add (ofEscape flags e)), rest)
  | c => do
    let p ← place? flags c
    return (s.map (·.add p), rest)

/-- Reads to the end of the text. Each item takes a character at least, so `fuel` need not exceed
their number. -/
def readItems? : (fuel : Nat) → Drafts → List Char → Option Pattern
  | 0, _, _ => none
  | fuel + 1, s, cs =>
    match skipSpace s.inner.flags cs with
    | [] => if s.outer.isEmpty then some s.inner.value else none
    | c :: rest => do
      let (s, rest) ← readItem? s c rest
      readItems? fuel s rest

def ofText? (s : String) : Option Pattern :=
  readItems? (s.length + 1) ⟨.start .none, [], []⟩ s.toList

end Daybook.Pattern
