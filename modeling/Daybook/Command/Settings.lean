import Daybook.Command.Arguments
import Daybook.Options
import Daybook.Text.Quoted

/-!
# Settings

The options of a run, as the command line gives them. A period replaces the ends that are given
alone where it has ends of its own, and a fiscal year replaces both.
-/

namespace Daybook

/-- Why the command line gives no options. -/
inductive SettingError where
  | start (spec : String) (e : DateError)
  | stop (spec : String) (e : DateError)
  | period (expression : String) (e : DateError)
  | divided (expression : String) (interval : Interval)
  | overflow
  deriving DecidableEq, Repr

/-- The wording of the error, the causes behind what they spoil; an overflow has none. -/
def SettingError.messages : SettingError → List String
  | start spec e => ["invalid --begin " ++ Text.Quoted.encode spec, e.message]
  | stop spec e => ["invalid --end " ++ Text.Quoted.encode spec, e.message]
  | period expression e => ["invalid --period " ++ Text.Quoted.encode expression, e.message]
  | divided expression interval =>
    ["invalid --period " ++ Text.Quoted.encode expression ++
      ": reports take bounds only, not '" ++ interval.text ++ "'"]
  | overflow => []

namespace Arguments

/-- The date that an option gives, if it is given. -/
def readDate? (spec : Option String) (today : Date) (error : String → DateError → SettingError) :
    Except SettingError (Option Date) :=
  match spec with
  | some spec => ((DateSpec.readDate spec today).mapError (error spec)).map some
  | none => .ok none

/-- The options with the ends of the period that is given, which must not be divided. -/
def applyPeriod (o : Options) (expression : Option String) (today : Date) :
    Except SettingError Options :=
  match expression with
  | none => .ok o
  | some expression =>
    match Period.read expression today with
    | .error e => .error (.period expression e)
    | .ok p =>
      match p.interval with
      | some interval => .error (.divided expression interval)
      | none => .ok (o.withPeriod p)

/-- The options with the ends of the fiscal year that is given; the year after it is computed in 32
bits. -/
def applyFiscalYear (o : Options) : Option Int → Except SettingError Options
  | none => .ok o
  | some year =>
    match Text.checked? (year + 1) with
    | some next =>
      .ok { o with start := o.fiscalYearStart? year, stop := o.fiscalYearStart? next }
    | none => .error .overflow

def settings (a : Arguments) (today : Date) : Except SettingError Options := do
  let g := a.options
  let start ← readDate? g.start today .start
  let stop ← readDate? g.stop today .stop
  let o : Options :=
    { strict := g.switches.contains .strict
      pedantic := g.switches.contains .pedantic
      checkPayee := g.switches.contains .checkPayee
      start, stop
      yearMonth := g.yearMonth
      debitCredit := g.switches.contains .debitCredit
      noSubtotal := g.switches.contains .noSubtotal }
  let o ← applyPeriod o g.period today
  applyFiscalYear o g.fiscalYear

end Arguments

end Daybook
