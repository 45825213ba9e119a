import Daybook.Store.Reporter

/-!
# Resolving names

How a store reads the names of a transaction: the rules for payees, captures, aliases and the root
decide the account of a posting, and a declaration decides how an amount is shown.
-/

namespace Daybook

namespace Store

/-- The payee of the first rule that has a pattern found in the written one. -/
def payeeByRule? (s : Store) (payee : String) : Option String :=
  (s.payees.find? fun rule => rule.patterns.any (·.foundIn payee)).map (·.name)

/-- What the first rule gives whose pattern is found in the text. -/
def matched? (rules : List (Pattern × String)) (text : String) : Option String :=
  (rules.find? fun rule => rule.1.foundIn text).map (·.2)

/-- The account that a written name stands for: a captured one, one with such an alias, or one
beneath the root. -/
def resolveName (s : Store) (name : String) : String :=
  match matched? s.captures name with
  | some account => account
  | none =>
    match s.accountAliases.find? name with
    | some account => account
    | none => AccountName.join s.root ((s.renamings.find? name).getD name)

/-- The account of a posting. The payee decides a placeholder, and must lead beneath its root. -/
def resolveAccount (s : Store) (p : Posting) (t : Transaction) : Except LedgerError String :=
  match p.account with
  | .named name => .ok (s.resolveName name)
  | .unknown root =>
    let payee := p.payee t
    match matched? s.payeeAccounts payee with
    | some account =>
      if root.all (AccountName.isWithin account) then .ok account
      else .error (.unresolved p.account.text payee)
    | none => .error (.unresolved p.account.text payee)

/-- The amount, shown as the declaration of its commodity says. -/
def declaredForm (s : Store) (c : Commodity) : Commodity :=
  match s.declarations.find? c.name with
  | some d =>
    { c with
      precision := (d.format.map (·.precision)).getD c.precision
      currency := c.currency || d.currency }
  | none => c

/-- Whether the commodity has been declared; amounts without a name need no declaration. -/
def isDeclaredCommodity (s : Store) (name : String) : Bool :=
  s.declarations.contains name || name = ""

end Store

namespace Filling

variable {σ : Type}

/-- Fails, warns or passes over a name that has not been declared, as the options say. -/
def checkDeclared (kind : NameKind) (name : String) (declared : Bool) : Filling σ Unit := do
  if declared then return
  let options := (← store).options
  if options.pedantic then throw (.undeclared kind name)
  if options.strict then warn (.undeclared kind name)

/-- The amount as it is kept. Its commodity is thereby known. -/
def resolveCommodity (c : Commodity) : Filling σ Commodity := do
  let s ← store
  let c := s.declaredForm c
  checkDeclared .commodity c.name (s.isDeclaredCommodity c.name)
  update (·.register c)
  return c

def resolveCommodity? : Option Commodity → Filling σ (Option Commodity)
  | some c => some <$> resolveCommodity c
  | none => return none

end Filling

end Daybook
