/-!
# Sets of characters as sorted ranges

A character property of the Unicode standard is given as the ascending list of the inclusive ranges
of code points that have it.
-/

namespace Daybook.Text

/-- Inclusive ranges of code points, in ascending order and disjoint. -/
abbrev RangeTable := List (Nat × Nat)

namespace RangeTable

/-- Whether one of the ranges holds `n`; the search stops at the first range that lies above it. -/
def covers : RangeTable → Nat → Bool
  | [], _ => false
  | (lo, hi) :: rest, n => lo ≤ n && (n ≤ hi || covers rest n)

/-- Whether the character's code point is in the table. -/
def hasChar (t : RangeTable) (c : Char) : Bool := t.covers c.toNat

theorem covers_imp_mem {t : RangeTable} {n : Nat} (h : t.covers n = true) :
    ∃ r ∈ t, r.1 ≤ n ∧ n ≤ r.2 := by
  induction t with
  | nil => simp [covers] at h
  | cons r rest ih =>
    obtain ⟨lo, hi⟩ := r
    simp only [covers, Bool.and_eq_true, Bool.or_eq_true, decide_eq_true_eq] at h
    rcases h with ⟨hlo, hhi | hrest⟩
    · exact ⟨(lo, hi), by simp, hlo, hhi⟩
    · obtain ⟨r, hr, hb⟩ := ih hrest
      exact ⟨r, by simp [hr], hb⟩

end RangeTable

end Daybook.Text
