import Daybook.Journal.Transaction
import Daybook.Text.Letter

/-!
# Annotations

The text behind a semicolon is a list of tags, a key with a value, or a note.
-/

namespace Daybook

open Daybook.Text

/-- What the texts behind the semicolons of a transaction or posting come to. -/
structure Annotations where
  note : Option String
  tags : List String
  metadata : Metadata
  deriving DecidableEq, Repr

namespace Annotations

/-- Whether the text is a key: letters, numerals, underscores and dashes. -/
def isKey (cs : List Char) : Bool :=
  cs ≠ [] && cs.all fun c => isAlphanumeric c || c = '_' || c = '-'

/-- The tags of a text that stands between colons and has no space. -/
def tags? (cs : List Char) : Option (List String) :=
  if 1 < cs.length && cs.head? = some ':' && cs.getLast? = some ':' && !cs.contains ' ' then
    some (((pieces (· = ':') cs).filter (· ≠ [])).map String.ofList)
  else none

/-- The key and the value of a text that has a colon and a space between them. -/
def keyed? (cs : List Char) : Option (String × MetaValue) :=
  match cut? (· = ':') cs with
  | some (key, value) =>
    if isKey key && value.head? = some ' ' && trim value ≠ [] then
      some (String.ofList key, .infer (String.ofList value))
    else none
  | none => none

/-- Takes in one more text. Notes are kept one to a line. -/
def add (a : Annotations) (text : List Char) : Annotations :=
  let cs := trim text
  if cs = [] then a else
  match tags? cs with
  | some tags => { a with tags := a.tags ++ tags }
  | none =>
    match keyed? cs with
    | some (key, value) => { a with metadata := a.metadata.insert key value }
    | none =>
      let line := String.ofList cs
      { a with note := some (match a.note with | some note => note ++ "\n" ++ line | none => line) }

end Annotations

def Posting.annotate (p : Posting) (text : List Char) : Posting :=
  let a := Annotations.add ⟨p.note, p.tags, p.metadata⟩ text
  { p with note := a.note, tags := a.tags, metadata := a.metadata }

def Transaction.annotate (t : Transaction) (text : List Char) : Transaction :=
  let a := Annotations.add ⟨t.note, t.tags, t.metadata⟩ text
  { t with note := a.note, tags := a.tags, metadata := a.metadata }

end Daybook
