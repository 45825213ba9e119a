import Daybook.Journal.Span
import Daybook.Journal.Transaction

/-!
# Directives

What a journal consists of: transactions, prices, declarations and the settings that decide how
names are read.
-/

namespace Daybook

/-- The price of a commodity at a moment. -/
structure Price where
  moment : Moment
  commodity : String
  value : Commodity
  deriving DecidableEq, Repr

/-- What is declared about an account. The types are as written. -/
structure AccountDeclaration where
  name : String
  note : Option String
  aliases : List String
  payees : List String
  checks : List String
  asserts : List String
  evals : List String
  types : List String
  isDefault : Bool
  deriving DecidableEq, Repr

def AccountDeclaration.ofName (name : String) : AccountDeclaration :=
  ⟨name, none, [], [], [], [], [], [], false⟩

/-- What is declared about a commodity. -/
structure CommodityDeclaration where
  name : String
  note : Option String
  format : Option Commodity
  nomarket : Bool
  isDefault : Bool
  currency : Bool
  deriving DecidableEq, Repr

def CommodityDeclaration.ofName (name : String) : CommodityDeclaration :=
  ⟨name, none, none, false, false, false⟩

/-- What is declared about a payee. The aliases are patterns. -/
structure PayeeDeclaration where
  name : String
  aliases : List String
  uuid : Option String
  deriving DecidableEq, Repr

def PayeeDeclaration.ofName (name : String) : PayeeDeclaration := ⟨name, [], none⟩

/-- An item of a journal. -/
inductive Directive where
  | transaction (t : Transaction)
  | price (p : Price)
  | account (d : AccountDeclaration)
  | applyAccount (root : String)
  | stop
  | rename (name account : String)
  | year (n : Int)
  | bucket (account : String)
  | capture (account pattern : String)
  | commodity (d : CommodityDeclaration)
  | payee (d : PayeeDeclaration)
  | includeFile (path : String)
  | assert (expression : String)
  | check (expression : String)
  | define (name expression : String)
  | fixed (commodity : String) (price : Commodity)
  | test (body : String)
  | comment (text : String)
  deriving DecidableEq, Repr

end Daybook
