import Daybook.Commodity
import Daybook.Decimal.Reading
import Daybook.Journal.Token

/-!
# Written amounts

Reading the amount of a posting and what may follow it: the price and the date of a lot, the cost,
the balance expected afterwards and a comment.
-/

namespace Daybook

open Daybook.Text

/-- Why a text is no amount. -/
inductive NotationError where
  | unexpected (text : String)
  | trailing (token : Token)
  | noNumberAfter (symbol : String)
  | invalidNumber (raw : String)
  | danglingMinus
  | noAmount
  | noAmountAfter (opening : Token)
  | noLotDate
  | unclosed (expected : Token) (found : Option Token)
  deriving DecidableEq, Repr

def NotationError.message : NotationError → String
  | unexpected s => s!"unexpected '{s}'"
  | trailing t => s!"unexpected '{t.text}' after amount"
  | noNumberAfter s => s!"expected a number after '{s}'"
  | invalidNumber s => s!"invalid number '{s}'"
  | danglingMinus => "dangling '-'"
  | noAmount => "expected an amount"
  | noAmountAfter t => s!"expected an amount after '{t.text}'"
  | noLotDate => "expected a lot date after '['"
  | unclosed t none => s!"expected '{t.text}'"
  | unclosed t (some found) => s!"expected '{t.text}', found '{found.text}'"

/-- What follows the account of a posting. -/
structure PostingTail where
  amount : Option Commodity
  lotPrice : Option Commodity
  lotDate : Option String
  costPrice : Option Commodity
  balancePrice : Option Commodity
  comment : Option String
  deriving DecidableEq, Repr

namespace Amount

def tokens (cs : List Char) : Except NotationError (List Token) :=
  match Token.ofChars cs with
  | .ok ts => .ok ts
  | .error bad => .error (.unexpected (String.ofList bad))

/-- A number with commas anywhere in it; `negated` changes its sign. -/
def readNumber (raw : List Char) (negated : Bool) : Except NotationError Decimal :=
  match Decimal.read? (raw.filter (· ≠ ',')) with
  | some n => .ok (if negated then n.neg else n)
  | none => .error (.invalidNumber (String.ofList raw))

/-- A name at the start of the tokens, and the rest. -/
def takeSymbol? : List Token → Option (String × List Token)
  | .symbol s :: rest => some (String.ofList s, rest)
  | .quoted s :: rest => some (String.ofList (strip '"' s), rest)
  | _ => none

/-- A minus sign at the start of the tokens, if it is there, and the rest. -/
def takeMinus : List Token → Bool × List Token
  | .minus :: rest => (true, rest)
  | ts => (false, ts)

def takeCurrency (symbol : String) (negated : Bool) (ts : List Token) :
    Except NotationError (Commodity × List Token) :=
  let (inner, ts) := takeMinus ts
  match ts with
  | .number raw :: rest => do
    let n ← readNumber raw (negated != inner)
    return (Commodity.ofCurrency symbol n, rest)
  | _ => .error (.noNumberAfter symbol)

/-- The amount at the start of the tokens, if there is one, and the rest. A minus sign may stand
before the name of a currency, behind it, or at both places. -/
def take? (ts : List Token) : Except NotationError (Option Commodity × List Token) :=
  let (negated, ts) := takeMinus ts
  match takeSymbol? ts with
  | some (symbol, rest) => do
    let (c, rest) ← takeCurrency symbol negated rest
    return (some c, rest)
  | none =>
    match ts with
    | .number raw :: rest => do
      let n ← readNumber raw negated
      match takeSymbol? rest with
      | some (symbol, rest) => return (some (Commodity.plain symbol n), rest)
      | none => return (some (Commodity.plain "" n), rest)
    | _ => if negated then .error .danglingMinus else .ok (none, ts)

/-- The amount that must follow `opening`, and the rest. -/
def takeAfter (opening : Token) (ts : List Token) :
    Except NotationError (Commodity × List Token) := do
  match ← take? ts with
  | (some c, rest) => return (c, rest)
  | (none, _) => throw (.noAmountAfter opening)

def close (expected : Token) : List Token → Except NotationError (List Token)
  | [] => .error (.unclosed expected none)
  | t :: rest => if t = expected then .ok rest else .error (.unclosed expected (some t))

/-- The price of a lot, up to its closing brace; a fixed one begins with an equals sign. -/
def takeLot (total : Bool) (ts : List Token) : Except NotationError (Commodity × List Token) := do
  let (fixed, ts) := match ts with
    | .equals :: rest => (true, rest)
    | ts => (false, ts)
  let (price, rest) ← takeAfter .openLot ts
  let rest ← close (if total then .closeTotal else .closeLot) rest
  return ({ price with total, fixprice := fixed }, rest)

def takeLotDate : List Token → Except NotationError (String × List Token)
  | .date raw :: rest => do
    return (String.ofList raw, ← close .closeDate rest)
  | _ => .error .noLotDate

/-- A comment without its semicolon and the blanks around it. -/
def commentText (cs : List Char) : String := String.ofList (trim (cs.drop 1))

def readAnnotation (t : Token) (rest : List Token) (tail : PostingTail) :
    Except NotationError (PostingTail × List Token) :=
  match t with
  | .openLot => do
    let (price, rest) ← takeLot false rest
    return ({ tail with lotPrice := some price }, rest)
  | .openTotal => do
    let (price, rest) ← takeLot true rest
    return ({ tail with lotPrice := some price }, rest)
  | .openDate => do
    let (date, rest) ← takeLotDate rest
    return ({ tail with lotDate := some date }, rest)
  | .unitCost => do
    let (price, rest) ← takeAfter t rest
    return ({ tail with costPrice := some { price with total := false } }, rest)
  | .totalCost => do
    let (price, rest) ← takeAfter t rest
    return ({ tail with costPrice := some { price with total := true } }, rest)
  | .equals => do
    let (price, rest) ← takeAfter t rest
    return ({ tail with balancePrice := some price }, rest)
  | .comment text => .ok ({ tail with comment := some (commentText text) }, rest)
  | t => .error (.unexpected t.text)

/-- Reads annotations to the end of the tokens; each takes one token at least, so `fuel` need not
exceed their number. -/
def readAnnotations : (fuel : Nat) → List Token → PostingTail → Except NotationError PostingTail
  | _, [], tail => .ok tail
  | 0, _ :: _, tail => .ok tail
  | fuel + 1, t :: rest, tail => do
    let (tail, rest) ← readAnnotation t rest tail
    readAnnotations fuel rest tail

def read (cs : List Char) : Except NotationError Commodity := do
  match ← take? (← tokens cs) with
  | (none, _) => throw .noAmount
  | (some c, []) => return c
  | (some _, t :: _) => throw (.trailing t)

/-- A text that follows the account of a posting. -/
def readTail (cs : List Char) : Except NotationError PostingTail := do
  let ts ← tokens cs
  let (amount, rest) ← take? ts
  readAnnotations rest.length rest ⟨amount, none, none, none, none, none⟩

end Amount

end Daybook
