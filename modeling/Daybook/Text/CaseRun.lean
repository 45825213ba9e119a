/-!
# Case mappings as runs

A case mapping of the Unicode standard is kept as runs: a run sends code points that lie `step`
apart to as many others that lie as far apart.
-/

namespace Daybook.Text

/-- The code points `first`, `first + step`, …, `last`, sent to `image`, `image + step`, …. -/
structure CaseRun where
  first : Nat
  last : Nat
  step : Nat
  image : Nat

namespace CaseRun

def ofRow (row : Nat × Nat × Nat × Nat) : CaseRun :=
  ⟨row.1, row.2.1, row.2.2.1, row.2.2.2⟩

/-- The image of the code point, if the run holds it. -/
def imageOf? (r : CaseRun) (n : Nat) : Option Nat :=
  if r.first ≤ n && n ≤ r.last && (n - r.first) % r.step = 0 then
    some (r.image + (n - r.first))
  else none

/-- The code point that the run sends to `n`, if there is one. -/
def source? (r : CaseRun) (n : Nat) : Option Nat :=
  if r.image ≤ n && n ≤ r.image + (r.last - r.first) && (n - r.image) % r.step = 0 then
    some (r.first + (n - r.image))
  else none

end CaseRun

end Daybook.Text
