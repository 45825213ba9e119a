import Daybook.Pattern.CharSet

/-!
# Patterns

A pattern describes texts; it is found in a text if some part of the text is as described. The
search goes through the text once and keeps what may still follow of each match begun so far:
`accepts` says whether a pattern matches the empty part between two characters, and `residuals`
what is left of it after a character.
-/

namespace Daybook

/-- A condition on the characters before and behind a place in the text. The word conditions hold
for words of all scripts, or of letters without marks only. -/
inductive Anchor where
  | textStart
  | textEnd
  | lineStart (returns : Bool)
  | lineEnd (returns : Bool)
  | boundary (ascii : Bool)
  | noBoundary (ascii : Bool)
  | wordStart (ascii : Bool)
  | wordEnd (ascii : Bool)
  | notAfterWord (ascii : Bool)
  | notBeforeWord (ascii : Bool)
  deriving DecidableEq, Repr

namespace Anchor

/-- Whether there is a character and it belongs to a word. -/
def isWord (ascii : Bool) (c : Option Char) : Bool :=
  c.any (if ascii then CharSet.asciiWord else .word).mem

/-- Whether the condition holds between two characters; a missing one means an end of the text. -/
def holds (before next : Option Char) : Anchor → Bool
  | textStart => before.isNone
  | textEnd => next.isNone
  | lineStart false => before.all (· = '\n')
  | lineStart true => before.all fun c => c = '\n' || (c = '\r' && next ≠ some '\n')
  | lineEnd false => next.all (· = '\n')
  | lineEnd true => next.all fun c => c = '\r' || (c = '\n' && before ≠ some '\r')
  | boundary ascii => isWord ascii before != isWord ascii next
  | noBoundary ascii => isWord ascii before == isWord ascii next
  | wordStart ascii => !isWord ascii before && isWord ascii next
  | wordEnd ascii => isWord ascii before && !isWord ascii next
  | notAfterWord ascii => !isWord ascii before
  | notBeforeWord ascii => !isWord ascii next

end Anchor

/-- A pattern. -/
inductive Pattern where
  | empty
  | chars (set : CharSet)
  | anchor (a : Anchor)
  | seq (p q : Pattern)
  | alt (p q : Pattern)
  | star (p : Pattern)
  deriving DecidableEq, Repr

namespace Pattern

/-- Whether the pattern matches the empty text between two characters. -/
def accepts (before next : Option Char) : Pattern → Bool
  | empty => true
  | chars _ => false
  | anchor a => a.holds before next
  | seq p q => p.accepts before next && q.accepts before next
  | alt p q => p.accepts before next || q.accepts before next
  | star _ => true

/-- One pattern after another, an empty one left out. -/
def andThen (p q : Pattern) : Pattern :=
  if p = empty then q else seq p q

/-- What may be left of the pattern after the character `c`, which follows `before`. -/
def residuals (before : Option Char) (c : Char) : Pattern → List Pattern
  | empty => []
  | chars set => if set.mem c then [empty] else []
  | anchor _ => []
  | seq p q =>
    (residuals before c p).map (·.andThen q) ++
      if p.accepts before (some c) then residuals before c q else []
  | alt p q => residuals before c p ++ residuals before c q
  | star p => (residuals before c p).map (·.andThen (star p))

/-- Searches on with what is left of the matches begun before; a new one may begin anywhere. -/
def searchFrom (p : Pattern) (begun : List Pattern) (before : Option Char) : List Char → Bool
  | [] => (p :: begun).any (·.accepts before none)
  | c :: rest =>
    let live := (p :: begun).eraseDups
    live.any (·.accepts before (some c)) ||
      searchFrom p (live.flatMap (·.residuals before c)) (some c) rest

def foundIn (p : Pattern) (s : String) : Bool := p.searchFrom [] none s.toList

def seqs : List Pattern → Pattern
  | [] => empty
  | [p] => p
  | p :: rest => seq p (seqs rest)

def alts : List Pattern → Pattern
  | [] => empty
  | [p] => p
  | p :: rest => alt p (alts rest)

def optional (p : Pattern) : Pattern := alt p empty

def atMost (p : Pattern) : (n : Nat) → Pattern
  | 0 => empty
  | n + 1 => optional (seq p (atMost p n))

/-- The pattern at least `least` times and at most `most` times, if there is such a limit. -/
def times (p : Pattern) (least : Nat) (most : Option Nat) : Pattern :=
  let rest := match most with
    | some most => atMost p (most - least)
    | none => star p
  seqs (List.replicate least p ++ [rest])

/-- The number of places of the pattern that match a character. -/
def width : Pattern → Nat
  | empty => 0
  | chars _ => 1
  | anchor _ => 1
  | seq p q => p.width + q.width
  | alt p q => p.width + q.width
  | star p => p.width

end Pattern

end Daybook
