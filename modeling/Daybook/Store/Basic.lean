import Daybook.Account.Basic
import Daybook.Journal.Directive
import Daybook.Options
import Daybook.Pattern.Basic
import Daybook.Store.Error
import Daybook.Timeline

/-!
# Stores

What is known after some directives of a journal: accounts, commodities, the rules by which names
are read, transactions and prices. Main statements: naming an account brings in the accounts above
it and changes none that are there (`find?_ensureAccount_of_some`).
-/

namespace Daybook

/-- The patterns by which a payee is recognised. -/
structure PayeeRule where
  name : String
  patterns : List Pattern
  uuid : Option String
  deriving DecidableEq, Repr

/-- What is known after some directives. The samples are zero amounts of all commodities that have
been named. -/
structure Store where
  stage : Stage
  options : Options
  accounts : NameMap Account
  samples : NameMap Commodity
  declarations : NameMap CommodityDeclaration
  defaultName : Option String
  firstName : Option String
  renamings : NameMap String
  accountAliases : NameMap String
  payees : List PayeeRule
  payeeAccounts : List (Pattern × String)
  captures : List (Pattern × String)
  roots : List String
  bucket : Option String
  defines : NameMap String
  fixed : NameMap Commodity
  assertions : List String
  transactions : Timeline Transaction
  prices : Timeline Price
  digests : NameMap Nat

/-- Counts of what a store holds. -/
structure Statistics where
  transactions : Nat
  postings : Nat
  accounts : Nat
  commodities : Nat
  prices : Nat
  duplicates : Nat
  first : Option Date
  last : Option Date
  deriving DecidableEq, Repr

namespace Store

def empty (options : Options) : Store :=
  ⟨.parsed, options, .empty, .empty, .empty, none, none, .empty, .empty, [], [], [], [], none,
    .empty, .empty, [], .empty, .empty, .empty⟩

/-- The account beneath which names are read: the applied roots, outermost first, joined. -/
def root (s : Store) : String := s.roots.foldl AccountName.join ""

/-- The commodity of amounts that nothing else decides: the default one, or else the first that was
named. -/
def unit (s : Store) : Commodity :=
  match s.defaultName.or s.firstName with
  | none => .plain "" .zero
  | some name =>
    match s.samples.find? name with
    | some sample => sample.similar .zero
    | none =>
      { Commodity.plain name .zero with
        currency := (s.declarations.find? name).any (·.currency) }

def payeeUuid? (s : Store) (name : String) : Option String :=
  (s.payees.find? (·.name = name)).bind (·.uuid)

def statistics (s : Store) : Statistics :=
  let transactions := s.transactions.values
  { transactions := s.transactions.size
    postings := transactions.foldl (fun n t => n + t.postings.length) 0
    accounts := s.accounts.size
    commodities := s.samples.size
    prices := s.prices.size
    duplicates := s.digests.values.foldl (fun n seen => n + (seen - 1)) 0
    first := transactions.head?.map (·.date)
    last := transactions.getLast?.map (·.date) }

/-- Adds an account unless there is one of its name. -/
def addAccount (accounts : NameMap Account) (a : Account) : NameMap Account :=
  if accounts.contains a.name then accounts else accounts.insert a.name a

/-- Brings in an account and the accounts above it, as far as they are not there. -/
def ensureAccount (s : Store) (name : String) (kind : PostingKind) : Store :=
  let accounts := (AccountName.ancestors name).foldl
    (fun accounts above => addAccount accounts (.ofName above)) s.accounts
  let account := (Account.ofName name).withFlags kind.isVirtual kind.isBalanced
  { s with accounts := addAccount accounts account }

/-- Notes that the commodity of an amount has been named, and with how many decimals. -/
def register (s : Store) (c : Commodity) : Store :=
  let sample := match s.samples.find? c.name with
    | some sample => { sample with precision := max sample.precision c.precision }
    | none => c.similar .zero
  { s with samples := s.samples.insert c.name sample, firstName := s.firstName.or (some c.name) }

def isDeclaredAccount (s : Store) (name : String) : Bool :=
  (s.accounts.find? name).any (·.declared)

def isDeclaredPayee (s : Store) (name : String) : Bool := s.payees.any (·.name = name)

theorem find?_addAccount_of_some {accounts : NameMap Account} {a b : Account} {name : String}
    (h : accounts.find? name = some b) : (addAccount accounts a).find? name = some b := by
  simp only [addAccount]
  split
  · exact h
  · rename_i hc
    rw [NameMap.find?_insert, if_neg]
    · exact h
    · rintro rfl
      simp [NameMap.contains, h] at hc

theorem find?_ensureAccount_of_some {s : Store} {name other : String} {kind : PostingKind}
    {a : Account} (h : s.accounts.find? other = some a) :
    (s.ensureAccount name kind).accounts.find? other = some a := by
  simp only [ensureAccount]
  apply find?_addAccount_of_some
  generalize AccountName.ancestors name = above
  generalize s.accounts = accounts at h
  induction above generalizing accounts with
  | nil => exact h
  | cons x rest ih => exact ih _ (find?_addAccount_of_some h)

end Store

end Daybook
