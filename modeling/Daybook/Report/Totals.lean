import Daybook.Commodity
import Daybook.NameMap

/-!
# Totals

Sums of amounts by the name of the commodity.
-/

namespace Daybook

/-- Sums by the name of the commodity. -/
structure Totals where
  sums : NameMap Commodity
  deriving DecidableEq, Repr

namespace Totals

def empty : Totals := ⟨.empty⟩

instance : Inhabited Totals := ⟨empty⟩

def find? (t : Totals) (name : String) : Option Commodity := t.sums.find? name

def add (t : Totals) (c : Commodity) : Except AmountError Totals := do
  let sum := (t.find? c.name).getD (c.similar .zero)
  return ⟨t.sums.insert c.name (← sum.add c)⟩

def addAll (t : Totals) (cs : List Commodity) : Except AmountError Totals := cs.foldlM add t

def nonzero (t : Totals) : List Commodity := t.sums.values.filter (!·.isZero)

end Totals

end Daybook
