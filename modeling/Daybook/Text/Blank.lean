import Daybook.Text.RangeTable

/-!
# Blank characters

The `White_Space` property of the Unicode standard, which more characters have than core counts as
white space.
-/

namespace Daybook.Text

/-- The code points with the property `White_Space`. -/
def blankRanges : RangeTable :=
  [(0x9, 0xD), (0x20, 0x20), (0x85, 0x85), (0xA0, 0xA0), (0x1680, 0x1680), (0x2000, 0x200A),
   (0x2028, 0x2029), (0x202F, 0x202F), (0x205F, 0x205F), (0x3000, 0x3000)]

/-- Whether the character is white space in the sense of Unicode. -/
def isBlank (c : Char) : Bool := blankRanges.hasChar c

/-- Whether the character is a space or a tab, the only blanks inside a line. -/
def isSpacing (c : Char) : Bool := c = ' ' || c = '\t'

theorem isBlank_of_isSpacing {c : Char} (h : isSpacing c = true) : isBlank c = true := by
  simp only [isSpacing, Bool.or_eq_true, decide_eq_true_eq] at h
  rcases h with rfl | rfl <;> decide

end Daybook.Text
