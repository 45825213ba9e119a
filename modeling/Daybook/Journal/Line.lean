import Daybook.Calendar.Spec
import Daybook.Journal.Amount
import Daybook.Journal.Annotation
import Daybook.Journal.Directive
import Daybook.Journal.Fault

/-!
# Lines of a journal

Reading a single line: the head of a transaction, a posting, a price, a directive or a line of a
declaration. Each gives a value or says what is wrong with the line.
-/

namespace Daybook.Line

open Daybook.Text

abbrev Result := Except LineFault

/-- The text before the first semicolon, without blanks at its end, and the text behind it. -/
def cutComment (cs : List Char) : List Char × Option (List Char) :=
  match cut? (· = ';') cs with
  | some (head, note) => (trimEnd head, some note)
  | none => (trimEnd cs, none)

/-- The account at the start of a text, which two spaces, a tab or a semicolon end, and the rest
from there. -/
def cutAccount : List Char → List Char × List Char
  | [] => ([], [])
  | c :: rest =>
    if c = '\t' || c = ';' || (c = ' ' && rest.head? = some ' ') then ([], c :: rest)
    else
      let (account, tail) := cutAccount rest
      (c :: account, tail)

theorem cutAccount_append (cs : List Char) : (cutAccount cs).1 ++ (cutAccount cs).2 = cs := by
  induction cs with
  | nil => rfl
  | cons c rest ih =>
    simp only [cutAccount]
    split
    · rfl
    · simp [ih]

/-- The mark at the start of a text, if a blank or nothing follows it, and the rest. -/
def takeClearing (cs : List Char) : Option Clearing × List Char :=
  let cs := trimStart cs
  match cs with
  | [] => (none, cs)
  | c :: rest =>
    match Clearing.ofChar? c with
    | none => (none, cs)
    | some state =>
      match rest with
      | [] => (some state, [])
      | d :: _ => if isBlank d then (some state, trimStart rest) else (none, cs)

def readDate (cs : List Char) (year : Int) : Result Date :=
  (DateSpec.readJournalDate (String.ofList cs) year).mapError .invalidDate

def readAmount (cs : List Char) : Result Commodity := (Amount.read cs).mapError .invalidAmount

/-- The code in parentheses at the start of a text, if there is one, and the rest. -/
def takeCode : List Char → Result (Option String × List Char)
  | '(' :: inner =>
    match cut? (· = ')') inner with
    | some (code, rest) => .ok (some (String.ofList (trim code)), trimStart rest)
    | none => .error .unclosedCode
  | cs => .ok (none, cs)

/-- The date of a transaction, and its effective date behind an equals sign. -/
def readDates (word : List Char) (year : Int) : Result (Date × Option Date) := do
  match cut? (· = '=') word with
  | some (date, effective) =>
    let date ← readDate date year
    return (date, some (← readDate effective year))
  | none => return (← readDate word year, none)

def readHead (cs : List Char) (year : Int) : Result Transaction := do
  let (head, note) := cutComment cs
  let (word, rest) := firstWord head
  let (date, effective) ← readDates word year
  let (clearing, rest) := takeClearing rest
  let (code, rest) ← takeCode rest
  let t := { Transaction.ofPayee date (String.ofList (trim rest)) with effective, clearing, code }
  return match note with
    | some text => t.annotate text
    | none => t

/-- The text between two brackets. -/
def between? (opening closing : Char) (cs : List Char) : Option (List Char) :=
  match cs with
  | c :: rest =>
    if c = opening && rest.getLast? = some closing then some rest.dropLast else none
  | [] => none

/-- The kind of a posting and the name of its account, as the brackets show. -/
def readAccount (cs : List Char) : PostingKind × List Char :=
  match between? '(' ')' cs with
  | some inner => (.virtual, inner)
  | none =>
    match between? '[' ']' cs with
    | some inner => (.balancedVirtual, inner)
    | none => (.real, cs)

def readPosting (cs : List Char) (year : Int) : Result Posting := do
  let (clearing, rest) := takeClearing cs
  let (written, tail) := cutAccount rest
  let written := trim written
  if written = [] then throw .missingAccount
  let (kind, name) := readAccount written
  if trim name = [] then throw .missingAccount
  let tail ← (Amount.readTail tail).mapError .invalidAmount
  let lotDate ← match tail.lotDate with
    | some raw => pure (some (← readDate raw.toList year))
    | none => pure none
  let p : Posting :=
    { Posting.tally (String.ofList (trim name)) with
      kind, clearing, amount := tail.amount, lotPrice := tail.lotPrice, lotDate,
      costPrice := tail.costPrice, balancePrice := tail.balancePrice }
  return match tail.comment with
    | some text => p.annotate text.toList
    | none => p

/-- A price, the text behind the letter that announces it. -/
def readPrice (cs : List Char) (year : Int) : Result Price := do
  let (word, rest) := firstWord (trim cs)
  let date ← readDate word year
  let (timeWord, behindTime) := firstWord rest
  let (time, rest) ←
    if timeWord.contains ':' then do
      let time ← (DateSpec.readTime (String.ofList timeWord)).mapError LineFault.invalidDate
      pure (time, behindTime)
    else pure (TimeOfDay.midnight, rest)
  let (symbol, rest) := firstWord rest
  if symbol = [] then throw (.missingField "commodity")
  let value ← readAmount rest
  return ⟨⟨date, time⟩, String.ofList (strip '"' symbol), value⟩

/-- A text that must not be empty. -/
def required (what : String) (cs : List Char) : Result String :=
  if cs = [] then .error (.missingField what) else .ok (String.ofList cs)

/-- Two texts with an equals sign between them. -/
def readEquation (what form : String) (cs : List Char) : Result (String × String) := do
  let _ ← required what cs
  match cut? (· = '=') cs with
  | some (left, right) => return (String.ofList (trim left), String.ofList (trim right))
  | none => throw (.missingField form)

/-- An account and the pattern of the accounts that it captures. -/
def readCapture (cs : List Char) : Result Directive := do
  let _ ← required "account and pattern" cs
  let (account, pattern) := cutAccount cs
  if trim pattern = [] then throw (.missingField "capture pattern")
  return .capture (String.ofList (trim account)) (String.ofList (trim pattern))

def readApply (cs : List Char) : Result Directive := do
  let (what, name) := firstWord cs
  if what = "account".toList then
    return .applyAccount (← required "account name" (trim name))
  else throw (.unknownDirective (String.ofList ("apply ".toList ++ what)))

def readYear (cs : List Char) : Result Directive :=
  match readInt32? cs with
  | some n => .ok (.year n)
  | none => .error (.invalidNumber (String.ofList cs))

def readFixed (cs : List Char) : Result Directive := do
  let (name, rest) := firstWord cs
  let name ← required "commodity" name
  return .fixed name (← readAmount rest)

/-- A directive that takes a single line, from its keyword and the text behind it. -/
def readDirective (keyword : String) (arg : List Char) : Result Directive :=
  match keyword with
  | "apply" => readApply arg
  | "end" =>
    if ["", "apply", "apply account"].contains (String.ofList arg) then .ok .stop
    else .error (.unmatchedEnd (String.ofList arg))
  | "alias" => do
    let (name, account) ← readEquation "alias" "alias=account" arg
    return .rename name account
  | "year" | "Y" => readYear arg
  | "bucket" | "A" => .bucket <$> required "account name" arg
  | "capture" => readCapture arg
  | "include" => .includeFile <$> required "path" arg
  | "assert" => .assert <$> required "expression" arg
  | "check" => .check <$> required "expression" arg
  | "define" | "def" => do
    let (name, expression) ← readEquation "definition" "name=expression" arg
    return .define name expression
  | "fixed" => readFixed arg
  | _ => .error (.unknownDirective keyword)

/-- What a line says that no keyword of the declaration begins: nothing if it is a comment. -/
def otherwise {α : Type} (d : α) (keyword : List Char) : Result α :=
  if keyword.head? = some ';' then .ok d
  else .error (.unknownSubDirective (String.ofList keyword))

def addToAccount (d : AccountDeclaration) (cs : List Char) : Result AccountDeclaration :=
  let (keyword, arg) := firstWord cs
  let value := String.ofList (trim arg)
  match String.ofList keyword with
  | "note" => .ok { d with note := some value }
  | "alias" => .ok { d with aliases := d.aliases ++ [value] }
  | "payee" => .ok { d with payees := d.payees ++ [value] }
  | "check" => .ok { d with checks := d.checks ++ [value] }
  | "assert" => .ok { d with asserts := d.asserts ++ [value] }
  | "eval" => .ok { d with evals := d.evals ++ [value] }
  | "type" => .ok { d with types := d.types ++ [value] }
  | "default" => .ok { d with isDefault := true }
  | _ => otherwise d keyword

def addToCommodity (d : CommodityDeclaration) (cs : List Char) : Result CommodityDeclaration :=
  let (keyword, arg) := firstWord cs
  match String.ofList keyword with
  | "note" => .ok { d with note := some (String.ofList (trim arg)) }
  | "format" => do return { d with format := some (← readAmount arg) }
  | "nomarket" => .ok { d with nomarket := true }
  | "default" => .ok { d with isDefault := true }
  | "currency" => .ok { d with currency := true }
  | _ => otherwise d keyword

def addToPayee (d : PayeeDeclaration) (cs : List Char) : Result PayeeDeclaration :=
  let (keyword, arg) := firstWord cs
  match String.ofList keyword with
  | "alias" => .ok { d with aliases := d.aliases ++ [String.ofList (trim arg)] }
  | "uuid" => .ok { d with uuid := some (String.ofList (trim arg)) }
  | _ => otherwise d keyword

end Daybook.Line
