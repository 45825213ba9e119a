import Daybook.Text.Basic

/-!
# Ranges of lines

Where something stands in a journal: from one line to another, both counted from one and both
included.
-/

namespace Daybook

/-- The lines from `first` to `last`. -/
structure Span where
  first : Nat
  last : Nat
  deriving DecidableEq, Repr

namespace Span

def line (n : Nat) : Span := ⟨n, n⟩

def size (s : Span) : Nat := s.last + 1 - s.first

/-- The span, made longer if it ends before line `n`. -/
def extendTo (s : Span) (n : Nat) : Span := { s with last := max s.last n }

def linesOf (s : Span) (source : List Char) : List (List Char) :=
  ((Text.lines source).drop (s.first - 1)).take s.size

def text (s : Span) : String :=
  if s.first = s.last then s!"line {s.first}" else s!"lines {s.first}-{s.last}"

end Span

/-- A value with the lines that it comes from. -/
structure Spanned (α : Type) where
  value : α
  span : Span
  deriving DecidableEq, Repr

end Daybook
