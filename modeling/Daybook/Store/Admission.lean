import Daybook.Store.Declare
import Daybook.Store.Resolve

/-!
# The first pass

The directives of a journal are taken in one by one; a transaction is balanced, its names are
resolved, and it is filed under its date.
-/

namespace Daybook

namespace Store

/-- The transaction with the payee that a rule gives it. -/
def withPayee (s : Store) (t : Transaction) : Transaction :=
  match s.payeeByRule? t.payee with
  | some payee => { t with payee }
  | none => t

/-- Notes the commodity of the first amount, if none has been named before. -/
def noteFirst (s : Store) (t : Transaction) : Store :=
  { s with firstName := s.firstName.or ((t.postings.findSome? (·.amount)).map (·.name)) }

/-- The transaction with the missing amounts, and the place of a posting to the bucket account. -/
def balanced (s : Store) (t : Transaction) : Except LedgerError (Transaction × Option Nat) := do
  if !t.requiresBalance then return (t, none)
  if ← t.isBalanced.mapError .amount then return (t, none)
  let (filled, places) ←
    (t.balance s.bucket s.unit).mapError (.booking t.date t.payee t.lines)
  return (filled, if t.postings.length = 1 then places.head? else none)

/-- Counts the digest of a transaction, and how often it has now been seen. -/
def countDigest (s : Store) (digest : String) : Nat × Store :=
  let n := (s.digests.find? digest).getD 0 + 1
  (n, { s with digests := s.digests.insert digest n })

end Store

namespace Filling

variable {σ : Type}

/-- The name of the account of a posting; that of the bucket account is whole already. -/
def accountOf (t : Transaction) (p : Posting) (toBucket : Bool) : Filling σ String := do
  match p.account, toBucket with
  | .named name, true => return name
  | _, _ => (← store).resolveAccount p t

/-- The posting as it is kept: its account is known, and so are the commodities of its amounts. -/
def resolvePosting (t : Transaction) (p : Posting) (toBucket : Bool) : Filling σ Posting := do
  let name ← accountOf t p toBucket
  checkDeclared .account name ((← store).isDeclaredAccount name)
  update (·.ensureAccount name p.kind)
  let amount ← resolveCommodity? p.amount
  let lotPrice ← resolveCommodity? p.lotPrice
  let costPrice ← resolveCommodity? p.costPrice
  let balancePrice ← resolveCommodity? p.balancePrice
  return { p with account := .named name, amount, lotPrice, costPrice, balancePrice }

/-- The postings as they are kept, the first one standing at place `n`. -/
def resolvePostings (t : Transaction) (bucketPlace : Option Nat) (n : Nat) :
    List Posting → Filling σ (List Posting)
  | [] => return []
  | p :: rest => do
    let p ← resolvePosting t p (bucketPlace = some n)
    return p :: (← resolvePostings t bucketPlace (n + 1) rest)

/-- Tells the reporter of each posting of the transaction. -/
def reportAdmitted (r : Reporter σ) (t : Transaction) : List Posting → Filling σ Unit
  | [] => return ()
  | p :: rest => do
    report (r.admitted · t p)
    reportAdmitted r t rest

/-- Warns of a transaction whose lines have been seen before. -/
def noteDigest (t : Transaction) : Filling σ Unit := do
  if t.digest = "" then return
  let (seen, s) := (← store).countDigest t.digest
  update fun _ => s
  if 1 < seen then warn (.duplicate t.date t.payee t.lines)

/-- Takes a transaction in. -/
def admitOne (r : Reporter σ) (t : Transaction) : Filling σ Unit := do
  let t := (← store).withPayee t
  update (·.noteFirst t)
  let (t, bucketPlace) ← (← store).balanced t
  let postings ← resolvePostings t bucketPlace 0 t.postings
  let t := { t with postings }
  let s ← store
  if s.options.checkPayee then checkDeclared .payee t.payee (s.isDeclaredPayee t.payee)
  reportAdmitted r t postings
  noteDigest t
  update fun s => { s with transactions := s.transactions.insert t.moment t }

/-- Takes directives in, in order. -/
def admitAll (r : Reporter σ) : List (Spanned Directive) → Filling σ Unit
  | [] => return ()
  | d :: rest => do
    match d.value with
    | .transaction t => admitOne r t
    | other => apply other d.span
    admitAll r rest

/-- The first pass: takes all directives in. Every root that is applied must be closed. -/
def firstPass (r : Reporter σ) (directives : List (Spanned Directive)) : Filling σ Unit := do
  expect .first
  admitAll r directives
  let s ← store
  if !s.roots.isEmpty then throw (.unclosedRoot s.root)
  update fun s => { s with stage := .admitted }

end Filling

end Daybook
