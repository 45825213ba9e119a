import Daybook.Journal.Transaction

/-!
# Balancing transactions

A transaction balances if all its postings have amounts and their costs cancel out, commodity by
commodity, up to a small tolerance. One posting may lack an amount, and a posting that stands alone
may be met by one to a bucket account: the amount is then what the others leave.
-/

namespace Daybook

/-- Why a transaction cannot be balanced. -/
inductive BookingError where
  | noPostings
  | unbalanced (residual : List Commodity)
  | manyTallies (count : Nat)
  | amount (e : AmountError)
  deriving DecidableEq, Repr

def BookingError.message : BookingError → String
  | noPostings => "transaction has no postings"
  | unbalanced residual =>
    "transaction does not balance: residual " ++ ", ".intercalate (residual.map (·.text))
  | manyTallies count => s!"{count} postings without an amount, at most one is allowed"
  | amount e => e.message

namespace Transaction

/-- Whether the transaction has to balance: a virtual posting frees it from that. -/
def requiresBalance (t : Transaction) : Bool := t.postings.all (·.kind ≠ .virtual)

def addCost (sums : NameMap Commodity) (p : Posting) : Except AmountError (NameMap Commodity) := do
  match ← p.cost? with
  | none => return sums
  | some cost =>
    match sums.find? cost.name with
    | some sum => return sums.insert cost.name (← sum.add cost)
    | none => return sums.insert cost.name cost

def residual (t : Transaction) : Except AmountError (List Commodity) := do
  return (← t.postings.foldlM addCost .empty).values

/-- The sums of the costs that are too far from zero. -/
def imbalance (t : Transaction) : Except AmountError (List Commodity) := do
  return (← t.residual).filter (!·.isBalanced)

def isBalanced (t : Transaction) : Except AmountError Bool := do
  if t.postings.any (·.isTally) then return false
  return (← t.imbalance).isEmpty

/-- The places of the postings without amounts, the first posting having place `n`. -/
def talliesFrom (n : Nat) : List Posting → List Nat
  | [] => []
  | p :: rest => if p.isTally then n :: talliesFrom (n + 1) rest else talliesFrom (n + 1) rest

def fill (t : Transaction) (place : Nat) (amount : Commodity) : Transaction :=
  { t with postings := t.postings.modify place fun p => { p with amount := some amount } }

/-- Meets a posting that stands alone by one to the bucket account. -/
def balanceLone (t : Transaction) (p : Posting) (bucket : Option String) :
    Except BookingError (Transaction × List Nat) := do
  let cost ← p.cost?.mapError .amount
  match bucket, cost with
  | some account, some cost =>
    return ({ t with postings := [p, .ofAmount account cost.invert] }, [1])
  | _, cost => throw (.unbalanced cost.toList)

/-- Gives the posting at `place` what the others leave: nothing of `unit` if they cancel out, or
else the first sum inverted, with a further posting like it for each other sum. -/
def fillTally (t : Transaction) (place : Nat) (unit : Commodity) (sums : List Commodity) :
    Transaction × List Nat :=
  match sums with
  | [] => (t.fill place (unit.similar .zero), [place])
  | first :: others =>
    let further := (t.postings[place]?.toList).flatMap fun p =>
      others.map fun sum => { p with amount := some sum.invert }
    let filled := t.fill place first.invert
    ({ filled with postings := filled.postings ++ further },
      place :: List.range' t.postings.length further.length)

/-- The transaction with the missing amounts, and the places of the postings that got them. `unit`
is the commodity of an amount that no other posting decides. -/
def balance (t : Transaction) (bucket : Option String) (unit : Commodity) :
    Except BookingError (Transaction × List Nat) := do
  match t.postings with
  | [] => throw .noPostings
  | [p] => t.balanceLone p bucket
  | postings =>
    match talliesFrom 0 postings with
    | _ :: _ :: rest => throw (.manyTallies (rest.length + 2))
    | [place] => return t.fillTally place unit (← t.imbalance.mapError .amount)
    | [] =>
      match ← t.imbalance.mapError .amount with
      | [sum] => throw (.unbalanced [sum])
      | _ => return (t, [])

end Transaction

end Daybook
