import Daybook.Pattern.Notation
import Daybook.Store.Reporter

/-!
# Declarations and settings

What each directive other than a transaction changes in a store.
-/

namespace Daybook

namespace Filling

variable {σ : Type}

def readPattern (text : String) : Filling σ Pattern :=
  match Pattern.ofText? text with
  | some p => return p
  | none => throw (.invalidPattern text)

/-- The patterns of payees whose postings go to the account. -/
def addPayeeAccounts (account : String) : List String → Filling σ Unit
  | [] => return ()
  | text :: rest => do
    let p ← readPattern text
    update fun s => { s with payeeAccounts := s.payeeAccounts ++ [(p, account)] }
    addPayeeAccounts account rest

/-- The classes that the written types name, with a warning for each that names none. -/
def readClasses (account : String) : List String → Filling σ (List AccountClass)
  | [] => return []
  | text :: rest => do
    match AccountClass.ofText? text with
    | some c => return c :: (← readClasses account rest)
    | none =>
      warn (.unknownType account text)
      readClasses account rest

/-- Adds to an account what a declaration says. -/
def declared (a : Account) (d : AccountDeclaration) (classes : List AccountClass) : Account :=
  { a with
    declared := true
    note := d.note.or a.note
    aliases := a.aliases ++ d.aliases
    payees := a.payees ++ d.payees
    checks := a.checks ++ d.checks
    asserts := a.asserts ++ d.asserts
    evals := a.evals ++ d.evals
    classes := a.classes ++ classes
    isDefault := a.isDefault || d.isDefault }

/-- Declares an account, whose name is read beneath the root. -/
def declareAccount (d : AccountDeclaration) : Filling σ Unit := do
  let name := AccountName.join (← store).root d.name
  update fun s =>
    { s with accountAliases := d.aliases.foldl (fun m a => m.insert a name) s.accountAliases }
  addPayeeAccounts name d.payees
  let classes ← readClasses name d.types
  update fun s =>
    let s := if d.isDefault then { s with bucket := some name } else s
    let s := s.ensureAccount name .real
    match s.accounts.find? name with
    | some a => { s with accounts := s.accounts.insert name (declared a d classes) }
    | none => s

/-- Declares a commodity. Its format is a sample of it. -/
def declareCommodity (d : CommodityDeclaration) (s : Store) : Store :=
  let s := match d.format with
    | some format =>
      s.register { format.similar .zero with
        name := d.name, currency := format.currency || d.currency }
    | none => s
  { s with
    defaultName := if d.isDefault then some d.name else s.defaultName
    declarations := s.declarations.insert d.name d }

/-- Does what a directive says; transactions are admitted elsewhere, and the rest says nothing. -/
def apply (d : Directive) (span : Span) : Filling σ Unit :=
  match d with
  | .price p => update fun s =>
    let s := s.register p.value
    { s with prices := s.prices.insert p.moment p }
  | .account d => declareAccount d
  | .applyAccount root => update fun s => { s with roots := s.roots ++ [root] }
  | .stop => do
    if (← store).roots.isEmpty then throw (.unmatchedEnd span)
    update fun s => { s with roots := s.roots.dropLast }
  | .rename name account => update fun s => { s with renamings := s.renamings.insert name account }
  | .bucket name => update fun s => { s with bucket := some (AccountName.join s.root name) }
  | .capture account pattern => do
    let p ← readPattern pattern
    update fun s => { s with captures := s.captures ++ [(p, account)] }
  | .commodity d => update (declareCommodity d)
  | .payee d => do
    let patterns ← d.aliases.mapM readPattern
    update fun s => { s with payees := s.payees ++ [⟨d.name, patterns, d.uuid⟩] }
  | .define name expression =>
    update fun s => { s with defines := s.defines.insert name expression }
  | .fixed commodity price => update fun s => { s with fixed := s.fixed.insert commodity price }
  | .assert expression | .check expression =>
    update fun s => { s with assertions := s.assertions ++ [expression] }
  | .transaction _ | .year _ | .includeFile _ | .test _ | .comment _ => return ()

end Filling

end Daybook
