import Daybook.Digest
import Daybook.Journal.Line

/-!
# Journals

A journal is read line by line. A line that is not indented begins an item; indented lines belong
to the item above them; a blank line ends it. A faulty line is noted and reading goes on. Only where
a year overflows the program ends, and such a text has no journal (`Journal.overflows`).
-/

namespace Daybook

open Daybook.Text

/-- A block whose lines are not read: a test or a long comment. -/
inductive Verbatim where
  | test | comment
  deriving DecidableEq, Repr

namespace Verbatim

/-- The word that begins the block. -/
def keyword : Verbatim → String
  | test => "test"
  | comment => "comment"

/-- The block as an item of the journal. -/
def directive : Verbatim → String → Directive
  | test => .test
  | comment => .comment

end Verbatim

/-- The item that the next line may belong to, with the lines that it covers. The lines of a
transaction are kept, the last one first. -/
inductive Block where
  | closed
  | skipped
  | transaction (t : Transaction) (span : Span) (lines : List (List Char))
  | account (d : AccountDeclaration) (span : Span)
  | commodity (d : CommodityDeclaration) (span : Span)
  | payee (d : PayeeDeclaration) (span : Span)
  | verbatim (kind : Verbatim) (opening : String) (body : List String) (span : Span)
  deriving DecidableEq, Repr

/-- A journal as it has been read: its items in order, and the faults of its lines. -/
structure Journal where
  directives : List (Spanned Directive)
  faults : List JournalFault
  deriving DecidableEq, Repr

namespace Journal

/-- The state of reading: the year in force, the open item, and what is done, last one first. -/
structure Reading where
  year : Int
  block : Block
  directives : List (Spanned Directive)
  faults : List JournalFault
  deriving DecidableEq, Repr

namespace Reading

def start (today : Date) : Reading := ⟨today.year, .closed, [], []⟩

def emit (r : Reading) (d : Directive) (span : Span) : Reading :=
  { r with directives := ⟨d, span⟩ :: r.directives }

def report (r : Reading) (fault : LineFault) (n : Nat) (text : String) : Reading :=
  { r with faults := ⟨fault, .line n, text⟩ :: r.faults }

/-- The digest of the lines of a transaction, blanks at their ends left out. -/
def digestOf (lines : List (List Char)) : String :=
  Digest.hexOfText (String.ofList (lines.flatMap (trimEnd · ++ ['\n'])))

/-- Ends the open item. -/
def close (r : Reading) : Reading :=
  let done := { r with block := .closed }
  match r.block with
  | .closed | .skipped => done
  | .transaction t span lines =>
    let t := { t with lines := (span.first, span.last), digest := digestOf lines.reverse }
    done.emit (.transaction t) span
  | .account d span => done.emit (.account d) span
  | .commodity d span => done.emit (.commodity d) span
  | .payee d span => done.emit (.payee d) span
  | .verbatim kind _ body span =>
    done.emit (kind.directive ("\n".intercalate body.reverse)) span

/-- Goes on with a changed item, or notes the fault and keeps the item as it is. -/
def continueWith {α : Type} (r : Reading) (n : Nat) (line : List Char) (unchanged : α)
    (result : Line.Result α) (block : α → Block) : Reading :=
  match result with
  | .ok a => { r with block := block a }
  | .error fault => { r with block := block unchanged }.report fault n (String.ofList line)

/-- The transaction with an indented line: an annotation of its last posting or, before the first
one, of itself; or else a posting. -/
def addToTransaction (t : Transaction) (body : List Char) (year : Int) :
    Line.Result Transaction :=
  match body with
  | ';' :: text =>
    match t.postings.getLast? with
    | some p => .ok { t with postings := t.postings.dropLast ++ [p.annotate text] }
    | none => .ok (t.annotate text)
  | _ => do return { t with postings := t.postings ++ [← Line.readPosting body year] }

def indented (r : Reading) (n : Nat) (line : List Char) : Reading :=
  let body := trim line
  match r.block with
  | .closed => r.report .unexpectedIndent n (String.ofList line)
  | .skipped => r
  | .transaction t span lines =>
    r.continueWith n line t (addToTransaction t body r.year)
      (.transaction · (span.extendTo n) (line :: lines))
  | .account d span =>
    r.continueWith n line d (Line.addToAccount d body) (.account · (span.extendTo n))
  | .commodity d span =>
    r.continueWith n line d (Line.addToCommodity d body) (.commodity · (span.extendTo n))
  | .payee d span =>
    r.continueWith n line d (Line.addToPayee d body) (.payee · (span.extendTo n))
  | .verbatim .. => r

/-- A directive, which may open a block or set the year. -/
def directive (r : Reading) (n : Nat) (line : List Char) : Line.Result Reading := do
  let (head, _) := Line.cutComment line
  let (keyword, rest) := firstWord head
  let arg := trim rest
  let span := Span.line n
  match String.ofList keyword with
  | "account" =>
    let name ← Line.required "account name" arg
    return { r with block := .account (.ofName name) span }
  | "commodity" =>
    let name ← Line.required "commodity symbol" arg
    return { r with block := .commodity (.ofName (String.ofList (strip '"' name.toList))) span }
  | "payee" =>
    let name ← Line.required "payee name" arg
    return { r with block := .payee (.ofName name) span }
  | "test" => return { r with block := .verbatim .test (String.ofList line) [] span }
  | "comment" => return { r with block := .verbatim .comment (String.ofList line) [] span }
  | keyword =>
    match ← Line.readDirective keyword arg with
    | .year year => return { r with year }.emit (.year year) span
    | d => return r.emit d span

/-- A line that is not indented, after the item before it has ended. -/
def unindented (r : Reading) (n : Nat) (line : List Char) : Line.Result Reading := do
  match line with
  | c :: rest =>
    if isDigit c then
      return { r with block := .transaction (← Line.readHead line r.year) (.line n) [line] }
    else if [';', '#', '|', '*', '%'].contains c then
      return r.emit (.comment (String.ofList (trim rest))) (.line n)
    else if c = 'P' && rest.head?.any isSpacing then
      return r.emit (.price (← Line.readPrice rest r.year)) (.line n)
    else r.directive n line
  | [] => r.directive n line

/-- Reads line `n`. -/
def step (r : Reading) (n : Nat) (line : List Char) : Reading :=
  match r.block with
  | .verbatim kind opening body span =>
    let span := span.extendTo n
    if trim line = "end ".toList ++ kind.keyword.toList then
      { r with block := .verbatim kind opening body span }.close
    else { r with block := .verbatim kind opening (String.ofList line :: body) span }
  | _ =>
    if trim line = [] then r.close
    else if line.head?.any isSpacing then r.indented n line
    else
      let r := r.close
      match r.unindented n line with
      | .ok r => r
      | .error fault => { r with block := .skipped }.report fault n (String.ofList line)

/-- Reads the lines, the first of which has number `n`. -/
def steps (r : Reading) (n : Nat) : List (List Char) → Reading
  | [] => r
  | line :: rest => (r.step n line).steps (n + 1) rest

/-- After the last line: a block whose lines are not read must have been closed. -/
def finish (r : Reading) : Journal :=
  let r := match r.block with
    | .verbatim kind opening _ span =>
      { r with block := .closed }.report (.unterminatedBlock kind.keyword) span.first opening
    | _ => r.close
  ⟨r.directives.reverse, r.faults.reverse⟩

end Reading

/-- The journal that a text writes; `today` gives the year of dates that have none. -/
def ofText (source : String) (today : Date) : Journal :=
  ((Reading.start today).steps 1 (lines source.toList)).finish

/-- Whether the program ends on a line. What the lines behind that one say is of no account then. -/
def overflows (j : Journal) : Bool := j.faults.any (·.fault.overflows)

end Journal

end Daybook
