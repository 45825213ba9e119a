import Daybook.Text.Blank
import Daybook.Text.CaseFold
import Daybook.Text.Letter

/-!
# Sets of characters in patterns

What one place of a pattern can match, built from ranges and classes by the operations on sets.
-/

namespace Daybook

/-- A set of characters. -/
inductive CharSet where
  | none
  | range (lo hi : Char)
  | blank
  | digit
  | word
  | union (a b : CharSet)
  | inter (a b : CharSet)
  | diff (a b : CharSet)
  | complement (a : CharSet)
  | caseless (a : CharSet)
  deriving DecidableEq, Repr

namespace CharSet

/-- Whether the character is in the set. A caseless set holds what differs from a member in case at
most. -/
def mem : CharSet → Char → Bool
  | none, _ => false
  | range lo hi, c => lo ≤ c && c ≤ hi
  | blank, c => Text.isBlank c
  | digit, c => Text.isDecimalDigit c
  | word, c => Text.isWordChar c
  | union a b, c => a.mem c || b.mem c
  | inter a b, c => a.mem c && b.mem c
  | diff a b, c => a.mem c && !b.mem c
  | complement a, c => !a.mem c
  | caseless a, c => (Text.caseVariants c).any a.mem

def single (c : Char) : CharSet := range c c

def unions : List CharSet → CharSet
  | [] => none
  | [a] => a
  | a :: rest => union a (unions rest)

def ofChars (cs : List Char) : CharSet := unions (cs.map single)

def symmDiff (a b : CharSet) : CharSet := union (diff a b) (diff b a)

def all : CharSet := complement none

/-- The capital and small letters without marks. -/
def asciiLetter : CharSet := union (range 'A' 'Z') (range 'a' 'z')

def asciiDigit : CharSet := range '0' '9'

/-- White space without the separators of other scripts. -/
def asciiBlank : CharSet := union (range '\t' '\r') (single ' ')

/-- Letters without marks, digits and the underscore. -/
def asciiWord : CharSet := unions [asciiLetter, asciiDigit, single '_']

/-- The class that a name between colons stands for. -/
def named? : String → Option CharSet
  | "alnum" => some (union asciiLetter asciiDigit)
  | "alpha" => some asciiLetter
  | "ascii" => some (range '\x00' '\x7f')
  | "blank" => some (ofChars ['\t', ' '])
  | "cntrl" => some (union (range '\x00' '\x1f') (single '\x7f'))
  | "digit" => some asciiDigit
  | "graph" => some (range '!' '~')
  | "lower" => some (range 'a' 'z')
  | "print" => some (range ' ' '~')
  | "punct" => some (unions [range '!' '/', range ':' '@', range '[' (Char.ofNat 0x60),
      range '\x7b' '~'])
  | "space" => some asciiBlank
  | "upper" => some (range 'A' 'Z')
  | "word" => some asciiWord
  | "xdigit" => some (unions [asciiDigit, range 'A' 'F', range 'a' 'f'])
  | _ => .none

end CharSet

end Daybook
