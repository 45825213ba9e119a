import Daybook.Account.Name
import Daybook.Calendar.Moment
import Daybook.Commodity
import Daybook.Metadata

/-!
# Transactions

A transaction is a dated group of postings, each of an amount to an account. A posting without an
amount takes what the others leave. The cost of a posting is what counts for the balance of its
transaction.
-/

namespace Daybook

/-- Whether a transaction has been settled. -/
inductive Clearing where
  | cleared | pending
  deriving DecidableEq, Repr

namespace Clearing

/-- The mark's meaning. -/
def ofChar? : Char → Option Clearing
  | '*' => some cleared
  | '!' => some pending
  | _ => none

def char : Clearing → Char
  | cleared => '*'
  | pending => '!'

end Clearing

/-- How a posting counts: a virtual one need not balance unless it is written in brackets. -/
inductive PostingKind where
  | real | virtual | balancedVirtual
  deriving DecidableEq, Repr

namespace PostingKind

def isVirtual : PostingKind → Bool
  | real => false
  | virtual | balancedVirtual => true

def isBalanced : PostingKind → Bool
  | virtual => false
  | real | balancedVirtual => true

/-- The text of an account in the brackets of the kind. -/
def enclose (kind : PostingKind) (account : String) : String :=
  match kind with
  | real => account
  | virtual => "(" ++ account ++ ")"
  | balancedVirtual => "[" ++ account ++ "]"

end PostingKind

/-- The account of a posting: a name, or a placeholder that the payee decides, beneath `root` if
there is one. -/
inductive AccountRef where
  | named (name : String)
  | unknown (root : Option String)
  deriving DecidableEq, Repr

namespace AccountRef

/-- The last segment of a placeholder. -/
def placeholder : String := "Unknown"

/-- What a written account refers to. -/
def ofText (s : String) : AccountRef :=
  if s = placeholder then unknown none
  else
    match Text.cutLast? AccountName.isSeparator s.toList with
    | some (root, last) =>
      if String.ofList last = placeholder then unknown (some (String.ofList root)) else named s
    | none => named s

/-- The name, unless it is a placeholder. -/
def name? : AccountRef → Option String
  | named name => some name
  | unknown _ => none

def text : AccountRef → String
  | named name => name
  | unknown (some root) => root ++ ":" ++ placeholder
  | unknown none => placeholder

end AccountRef

/-- A posting. -/
structure Posting where
  account : AccountRef
  kind : PostingKind
  clearing : Option Clearing
  amount : Option Commodity
  lotPrice : Option Commodity
  lotDate : Option Date
  costPrice : Option Commodity
  balancePrice : Option Commodity
  note : Option String
  tags : List String
  metadata : Metadata
  deriving DecidableEq, Repr

/-- A transaction. Its lines are those of the journal that it was read from, and its digest is
empty if it was read from none. -/
structure Transaction where
  date : Date
  effective : Option Date
  clearing : Option Clearing
  code : Option String
  payee : String
  note : Option String
  tags : List String
  metadata : Metadata
  postings : List Posting
  lines : Nat × Nat
  digest : String
  deriving DecidableEq, Repr

/-- A part of a line that is there only if the value is. -/
def writtenPart (before : String) (value : Option String) (after : String) : String :=
  match value with
  | some s => before ++ s ++ after
  | none => ""

namespace Posting

def tally (account : String) : Posting :=
  ⟨.ofText account, .real, none, none, none, none, none, none, none, [], .empty⟩

def ofAmount (account : String) (amount : Commodity) : Posting :=
  { tally account with amount := some amount }

def isTally (p : Posting) : Bool := p.amount.isNone

def price? (p : Posting) : Option Commodity := p.costPrice.or p.lotPrice

/-- The cost of an amount at a price: a total price takes the sign of the amount, a price by the
unit is multiplied by it. -/
def costAt (amount price : Commodity) : Except AmountError Commodity :=
  let product :=
    if price.total then price.amount.abs.mul? amount.amount.signum
    else price.amount.mul? amount.amount
  match product with
  | some n => .ok { price with amount := n, total := false, fixprice := false }
  | none => .error .overflow

/-- What the posting adds to the balance of its transaction: its amount, at the price if it has
one. -/
def cost? (p : Posting) : Except AmountError (Option Commodity) :=
  match p.amount, p.price? with
  | none, _ => .ok none
  | some amount, none => .ok (some amount)
  | some amount, some price => (costAt amount price).map some

/-- The value under a key, of the posting or else of its transaction. -/
def metaValue? (p : Posting) (t : Transaction) (key : String) : Option MetaValue :=
  (p.metadata.find? key).or (t.metadata.find? key)

/-- The payee that the posting names in its metadata, or else that of its transaction. -/
def payee (p : Posting) (t : Transaction) : String :=
  ((p.metadata.find? "payee").bind (·.asText?)).getD t.payee

def effectiveClearing (p : Posting) (t : Transaction) : Option Clearing :=
  p.clearing.or t.clearing

/-- The price of a lot, a total one in two pairs of braces. -/
def writtenLot (c : Commodity) : String :=
  if c.total then " \x7b\x7b" ++ c.text ++ "\x7d\x7d" else " \x7b" ++ c.text ++ "\x7d"

/-- The price behind its sign, which is written twice before a total one. -/
def writtenCost (c : Commodity) : String :=
  if c.total then " @@ " ++ c.text else " @ " ++ c.text

def text (p : Posting) : String :=
  "    " ++ writtenPart "" (p.clearing.map (·.char.toString)) " " ++
    p.kind.enclose p.account.text ++
    writtenPart "  " (p.amount.map (·.text)) "" ++
    writtenPart "" (p.lotPrice.map writtenLot) "" ++
    writtenPart " [" (p.lotDate.map (·.text)) "]" ++
    writtenPart "" (p.costPrice.map writtenCost) "" ++
    writtenPart " = " (p.balancePrice.map (·.text)) "" ++
    writtenPart "  ; " p.note ""

end Posting

namespace Transaction

def ofPayee (date : Date) (payee : String) : Transaction :=
  ⟨date, none, none, none, payee, none, [], .empty, [], (0, 0), ""⟩

/-- The moment that the transaction is filed under. -/
def moment (t : Transaction) : Moment := .ofDate t.date

def text (t : Transaction) : String :=
  t.date.text ++ writtenPart "=" (t.effective.map (·.text)) "" ++
    writtenPart " " (t.clearing.map (·.char.toString)) "" ++ writtenPart " (" t.code ")" ++
    " " ++ t.payee ++ writtenPart "  ; " t.note "" ++ String.join (t.postings.map ("\n" ++ ·.text))

end Transaction

end Daybook
