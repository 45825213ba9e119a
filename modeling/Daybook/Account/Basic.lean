import Daybook.Account.Name
import Daybook.Turnover

/-!
# Accounts

An account has a name, what has been declared about it, and what has been posted to it.
-/

namespace Daybook

/-- The classes of accounts. -/
inductive AccountClass where
  | asset | liability | equity | income | expense
  deriving DecidableEq, Repr

namespace AccountClass

/-- The class that a word names, in any case and with blanks around it. -/
def ofText? (s : String) : Option AccountClass :=
  match String.ofList ((Text.trim s.toList).map Char.toLower) with
  | "asset" | "assets" => some asset
  | "liability" | "liabilities" => some liability
  | "equity" | "capital" => some equity
  | "income" | "revenue" => some income
  | "expense" | "expenses" | "expenditure" => some expense
  | _ => none

/-- Whether accounts of the class grow by debits. -/
def isDebitNormal : AccountClass → Bool
  | asset | expense => true
  | liability | equity | income => false

end AccountClass

/-- An account. A virtual one is written in parentheses, or in brackets if it is balanced. -/
structure Account where
  name : String
  isVirtual : Bool
  balanced : Bool
  declared : Bool
  note : Option String
  aliases : List String
  payees : List String
  checks : List String
  asserts : List String
  evals : List String
  classes : List AccountClass
  isDefault : Bool
  turnover : Turnover
  deriving DecidableEq, Repr

namespace Account

def ofName (name : String) : Account :=
  ⟨name, false, true, false, none, [], [], [], [], [], [], false, .empty⟩

def withFlags (a : Account) (isVirtual balanced : Bool) : Account :=
  { a with isVirtual, balanced }

def post (a : Account) (c : Commodity) : Except AmountError Account :=
  return { a with turnover := ← a.turnover.post c }

/-- Whether the account grows by debits, as the first of its classes says. -/
def isDebitNormal (a : Account) : Bool := a.classes.head?.all (·.isDebitNormal)

/-- The name in the brackets that show its kind. -/
def text (a : Account) : String :=
  match a.isVirtual, a.balanced with
  | true, false => "(" ++ a.name ++ ")"
  | true, true => "[" ++ a.name ++ "]"
  | false, _ => a.name

end Account

end Daybook
