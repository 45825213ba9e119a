import Daybook.Commodity
import Daybook.NameMap

/-!
# Turnovers

What has been posted, by commodity: the balance, and the debits and credits that it is made of. An
amount is posted in two steps, each of which may fail (`record`); `post` is the outcome of both.
-/

namespace Daybook

/-- Balances, debits and credits by the name of the commodity. -/
structure Turnover where
  balances : NameMap Commodity
  debits : NameMap Commodity
  credits : NameMap Commodity
  deriving DecidableEq, Repr

namespace Turnover

def empty : Turnover := ⟨.empty, .empty, .empty⟩

instance : Inhabited Turnover := ⟨empty⟩

/-- Adds the amount to the sum kept under its name. -/
def accumulate (sums : NameMap Commodity) (c : Commodity) :
    Except AmountError (NameMap Commodity) :=
  match sums.find? c.name with
  | some sum => return sums.insert sum.name (← sum.add c)
  | none => return sums.insert c.name c

/-- Posts the amount: one below zero is a credit, any other a debit. The sums are changed one after
the other, and what has been changed when a sum fails stays so. -/
def record (t : Turnover) (c : Commodity) : Turnover × Option AmountError :=
  match accumulate t.balances c with
  | .error e => (t, some e)
  | .ok balances =>
    let t := { t with balances }
    if c.isNegative then
      match accumulate t.credits c.invert with
      | .error e => (t, some e)
      | .ok credits => ({ t with credits }, none)
    else
      match accumulate t.debits c with
      | .error e => (t, some e)
      | .ok debits => ({ t with debits }, none)

/-- The turnover with the amount posted, if no sum fails. -/
def post (t : Turnover) (c : Commodity) : Except AmountError Turnover :=
  match t.record c with
  | (t, none) => .ok t
  | (_, some e) => .error e

theorem post_eq (t : Turnover) (c : Commodity) :
    t.post c = do
      let balances ← accumulate t.balances c
      if c.isNegative then return { t with balances, credits := ← accumulate t.credits c.invert }
      else return { t with balances, debits := ← accumulate t.debits c } := by
  rw [post, record]
  cases accumulate t.balances c with
  | error e => rfl
  | ok balances =>
    cases c.isNegative with
    | true =>
      cases hcredits : accumulate t.credits c.invert <;>
        simp [hcredits, bind, Except.bind, pure, Except.pure]
    | false =>
      cases hdebits : accumulate t.debits c <;>
        simp [hdebits, bind, Except.bind, pure, Except.pure]

def isEmpty (t : Turnover) : Bool := t.balances.isEmpty

end Turnover

end Daybook
