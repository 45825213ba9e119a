import Daybook.Calendar.Period

/-!
# Options

The settings of a run: how strictly names are checked, which days are posted, and how reports look.
-/

namespace Daybook

/-- The settings of a run. -/
structure Options where
  strict : Bool
  pedantic : Bool
  checkPayee : Bool
  start : Option Date
  stop : Option Date
  yearMonth : Option Nat
  debitCredit : Bool
  noSubtotal : Bool
  deriving DecidableEq, Repr

namespace Options

def default : Options := ⟨false, false, false, none, none, none, false, false⟩

instance : Inhabited Options := ⟨default⟩

/-- The options with the ends of the period, where it has any. -/
def withPeriod (o : Options) (p : Period) : Options :=
  { o with start := p.start.or o.start, stop := p.stop.or o.stop }

def bounds (o : Options) : Option Moment × Option Moment :=
  (o.start.map .ofDate, o.stop.map .ofDate)

/-- The month in which fiscal years begin, January unless another one is set. -/
def fiscalMonth (o : Options) : Nat :=
  match o.yearMonth with
  | some m => if 1 ≤ m && m ≤ 12 then m else 1
  | none => 1

/-- The fiscal year of a date, named by the year in which it begins. -/
def fiscalYear (o : Options) (d : Date) : Int :=
  if o.fiscalMonth ≤ d.month then d.year else d.year - 1

def fiscalYearStart? (o : Options) (year : Int) : Option Date :=
  Date.ofYmd? year o.fiscalMonth 1

end Options

end Daybook
