import Daybook.Store.Reporter

/-!
# The second pass

The amounts of the transactions between the two ends are posted to their accounts and to all
accounts above.
-/

namespace Daybook

namespace Store

/-- Posts an amount to an account, which is brought in if it is not there. -/
def postTo (s : Store) (name : String) (kind : PostingKind) (c : Commodity) :
    Except LedgerError Store := do
  let s := s.ensureAccount name kind
  match s.accounts.find? name with
  | some a => return { s with accounts := s.accounts.insert name (← (a.post c).mapError .amount) }
  | none => return s

/-- Posts an amount to accounts above the one that it is meant for. -/
def carryTo (s : Store) (c : Commodity) : List String → Except LedgerError Store
  | [] => .ok s
  | name :: rest => do (← s.postTo name .real c).carryTo c rest

def postAmount (s : Store) (name : String) (kind : PostingKind) (c : Commodity) :
    Except LedgerError Store := do
  (← s.postTo name kind c).carryTo c (AccountName.ancestors name)

def selected (s : Store) : List Transaction :=
  let (low, high) := s.options.bounds
  (s.transactions.range low high .low).map (·.2)

end Store

namespace Filling

variable {σ : Type}

/-- Tells the reporter of the accounts that an amount has been carried up to. -/
def reportCarried (r : Reporter σ) (t : Transaction) (p : Posting) : List String → Filling σ Unit
  | [] => return ()
  | name :: rest => do
    match (← store).accounts.find? name with
    | some a => report (r.carried · t p a)
    | none => return ()
    reportCarried r t p rest

/-- Posts a posting that has an account and an amount. -/
def postPosting (r : Reporter σ) (t : Transaction) (p : Posting) : Filling σ Unit := do
  match p.account, p.amount with
  | .named name, some c =>
    let s ← (← store).postAmount name p.kind c
    update fun _ => s
    report (r.posted · t p)
    reportCarried r t p (AccountName.ancestors name)
  | _, _ => return ()

def postPostings (r : Reporter σ) (t : Transaction) : List Posting → Filling σ Unit
  | [] => return ()
  | p :: rest => do
    postPosting r t p
    postPostings r t rest

def postAll (r : Reporter σ) : List Transaction → Filling σ Unit
  | [] => return ()
  | t :: rest => do
    postPostings r t t.postings
    report (r.closed · t)
    postAll r rest

/-- The second pass: posts the selected transactions. -/
def secondPass (r : Reporter σ) : Filling σ Unit := do
  expect .second
  update fun s => { s with stage := .posted }
  postAll r (← store).selected

def render (r : Reporter σ) : Filling σ Unit := do
  expect .render
  report r.rendered
  update fun s => { s with stage := .rendered }

end Filling

end Daybook
