import Daybook.Proofs.Journal.Composition
import Daybook.Proofs.Metadata
import Daybook.Proofs.NameMap

/-!
# Notes below a posting

The indented lines of a transaction are taken in one by one: a note goes to the posting above it
(`steps_members`), so that a posting of the journal is what its line says with the notes up to the next
posting (`getElem?_foldl_withLine`). Main statement: where a note below a posting names a payee, the
posting has the value that is inferred from the name under the key `payee`
(`PayeeNote.exists_posting`).
-/

namespace Daybook

open Daybook.Text

/-! ## Keys and values -/

namespace Annotations

def value? (key : String) (text : List Char) : Option MetaValue :=
  (keyed? (trim text)).bind fun entry => if entry.1 = key then some entry.2 else none

theorem keyed?_of_tags? {cs : List Char} {tags : List String} (h : tags? cs = some tags) :
    keyed? cs = none := by
  rw [tags?] at h
  split at h
  case isTrue hcs =>
    simp only [Bool.and_eq_true, decide_eq_true_eq] at hcs
    obtain ⟨rest, rfl⟩ := List.head?_eq_some_iff.mp hcs.1.1.2
    rfl
  case isFalse => cases h

theorem find?_add (a : Annotations) (text : List Char) (key : String) :
    (a.add text).metadata.find? key = (value? key text).or (a.metadata.find? key) := by
  simp only [add, value?]
  split
  case isTrue hempty =>
    rw [hempty]
    rfl
  split
  case h_1 htags =>
    rw [keyed?_of_tags? htags]
    rfl
  split
  case h_1 name value hentry =>
    rw [hentry, NameMap.find?_insert, Option.bind_some]
    by_cases hname : name = key
    · simp [hname]
    · simp [hname]
  case h_2 hentry =>
    rw [hentry]
    rfl

end Annotations

namespace Posting

variable {p : Posting}

theorem find?_foldl_annotate (p : Posting) (notes : List (List Char)) (key : String) :
    (notes.foldl annotate p).metadata.find? key =
      (notes.reverse.findSome? (Annotations.value? key)).or (p.metadata.find? key) := by
  induction notes generalizing p with
  | nil => rfl
  | cons text notes ih =>
    have hstep : (p.annotate text).metadata.find? key =
        (Annotations.value? key text).or (p.metadata.find? key) := Annotations.find?_add ..
    rw [List.foldl_cons, ih, hstep, List.reverse_cons, List.findSome?_append, Option.or_assoc]
    simp

theorem account_foldl_annotate (p : Posting) (notes : List (List Char)) :
    (notes.foldl annotate p).account = p.account := by
  induction notes generalizing p with
  | nil => rfl
  | cons text notes ih => exact ih (p.annotate text)

end Posting

/-! ## The lines of a transaction -/

/-- The transaction with an indented line; it stays as it is if the line has a fault. -/
def Transaction.withLine (year : Int) (t : Transaction) (line : List Char) : Transaction :=
  (Journal.Reading.addToTransaction t (trim line) year).toOption.getD t

/-- The notes that belong to the posting above the lines: those up to the next posting. -/
def Journal.notesOf (year : Int) : List (List Char) → List (List Char)
  | [] => []
  | line :: rest =>
    match trim line with
    | ';' :: text => text :: notesOf year rest
    | body => if (Line.readPosting body year).isOk then [] else notesOf year rest

namespace Transaction

variable {year : Int} {t : Transaction} {line text : List Char} {p : Posting} {ps : List Posting}

theorem withLine_note (hline : trim line = ';' :: text) (ht : t.postings = ps ++ [p]) :
    t.withLine year line = { t with postings := ps ++ [p.annotate text] } := by
  rw [withLine, hline]
  simp [Journal.Reading.addToTransaction, ht, Except.toOption]

theorem addToTransaction_body {body : List Char} (hbody : body.head? ≠ some ';') :
    Journal.Reading.addToTransaction t body year =
      (Line.readPosting body year).map fun p => { t with postings := t.postings ++ [p] } := by
  rw [Journal.Reading.addToTransaction]
  · cases Line.readPosting body year <;> rfl
  · rintro text rfl
    exact absurd rfl hbody

theorem withLine_body (hline : (trim line).head? ≠ some ';') : t.withLine year line =
    match Line.readPosting (trim line) year with
    | .ok p => { t with postings := t.postings ++ [p] }
    | .error _ => t := by
  rw [withLine, addToTransaction_body hline]
  cases Line.readPosting (trim line) year <;> rfl

theorem notesOf_note (hline : trim line = ';' :: text) (rest : List (List Char)) :
    Journal.notesOf year (line :: rest) = text :: Journal.notesOf year rest := by
  rw [Journal.notesOf, hline]
  rfl

theorem notesOf_body (hline : (trim line).head? ≠ some ';') (rest : List (List Char)) :
    Journal.notesOf year (line :: rest) =
      match Line.readPosting (trim line) year with
      | .ok _ => []
      | .error _ => Journal.notesOf year rest := by
  rw [Journal.notesOf]
  split
  case h_1 text hnote =>
    rw [hnote] at hline
    exact absurd rfl hline
  case h_2 =>
    cases Line.readPosting (trim line) year <;> rfl

theorem notesOf_append {above : List (List Char)}
    (h : ∀ line ∈ above, ∀ q, Line.readPosting (trim line) year ≠ .ok q)
    (rest : List (List Char)) :
    Journal.notesOf year (above ++ rest) = Journal.notesOf year above ++ Journal.notesOf year rest := by
  induction above with
  | nil => rfl
  | cons line above ih =>
    obtain ⟨hline, habove⟩ := List.forall_mem_cons.mp h
    rw [List.cons_append]
    by_cases hnote : (trim line).head? = some ';'
    · obtain ⟨text, htext⟩ := List.head?_eq_some_iff.mp hnote
      rw [notesOf_note htext, notesOf_note htext, ih habove, List.cons_append]
    · rw [notesOf_body hnote, notesOf_body hnote]
      cases hread : Line.readPosting (trim line) year with
      | error fault => exact ih habove
      | ok q => exact absurd hread (hline q)

theorem head?_ne_of_readPosting {body : List Char} (h : Line.readPosting body year = .ok p) :
    body.head? ≠ some ';' := by
  intro hhead
  obtain ⟨rest, rfl⟩ := List.head?_eq_some_iff.mp hhead
  have hfault : Line.readPosting (';' :: rest) year = .error .missingAccount := rfl
  rw [hfault] at h
  cases h

theorem payee_foldl_withLine (t : Transaction) (year : Int) (rest : List (List Char)) :
    (rest.foldl (withLine year) t).payee = t.payee := by
  have hstep : ∀ (t : Transaction) line, (t.withLine year line).payee = t.payee := by
    intro t line
    rw [withLine]
    unfold Journal.Reading.addToTransaction
    split
    · split <;> rfl
    · cases Line.readPosting (trim line) year <;> rfl
  induction rest generalizing t with
  | nil => rfl
  | cons line rest ih => rw [List.foldl_cons, ih, hstep]

theorem getElem?_withLine {k : Nat} (hk : k + 1 < t.postings.length) (year : Int)
    (line : List Char) : (t.withLine year line).postings[k]? = t.postings[k]? ∧
      k + 1 < (t.withLine year line).postings.length := by
  by_cases hnote : (trim line).head? = some ';'
  · obtain ⟨text, htext⟩ := List.head?_eq_some_iff.mp hnote
    rcases List.eq_nil_or_concat t.postings with hnil | ⟨ps, p, hps⟩
    · rw [hnil] at hk
      cases hk
    rw [List.concat_eq_append] at hps
    rw [hps, List.length_append, List.length_singleton] at hk
    rw [withLine_note htext hps, hps]
    simp only [List.length_append, List.length_singleton]
    rw [List.getElem?_append_left (by omega), List.getElem?_append_left (by omega)]
    exact ⟨rfl, hk⟩
  · rw [withLine_body hnote]
    cases Line.readPosting (trim line) year with
    | error fault => exact ⟨rfl, hk⟩
    | ok q =>
      dsimp only
      rw [List.getElem?_append_left (by omega), List.length_append]
      exact ⟨rfl, by omega⟩

theorem getElem?_foldl_of_lt {k : Nat} (hk : k + 1 < t.postings.length) (year : Int)
    (rest : List (List Char)) :
    (rest.foldl (withLine year) t).postings[k]? = t.postings[k]? := by
  induction rest generalizing t with
  | nil => rfl
  | cons line rest ih =>
    obtain ⟨hsame, hlength⟩ := getElem?_withLine hk year line
    rw [List.foldl_cons, ih hlength, hsame]

theorem getElem?_foldl_withLine (ht : t.postings = ps ++ [p]) (year : Int)
    (rest : List (List Char)) : (rest.foldl (withLine year) t).postings[ps.length]? =
      some ((Journal.notesOf year rest).foldl Posting.annotate p) := by
  induction rest generalizing t p with
  | nil => simp [ht, Journal.notesOf]
  | cons line rest ih =>
    rw [List.foldl_cons]
    by_cases hnote : (trim line).head? = some ';'
    · obtain ⟨text, htext⟩ := List.head?_eq_some_iff.mp hnote
      rw [withLine_note htext ht, notesOf_note htext, List.foldl_cons]
      exact ih rfl
    · rw [withLine_body hnote, notesOf_body hnote]
      cases Line.readPosting (trim line) year with
      | error fault => exact ih ht
      | ok q =>
        dsimp only
        rw [getElem?_foldl_of_lt (by simp [ht])]
        simp [ht]

end Transaction

/-! ## A transaction in a journal -/

namespace Journal

variable {year : Int} {t : Transaction} {line : List Char}

namespace Reading

variable {r : Reading} {span : Span} {kept members : List (List Char)}

theorem step_member (hblock : r.block = .transaction t span kept) (hline : Line.Indented line)
    (n : Nat) : ∃ span' kept' faults, r.step n line = { r with
      block := .transaction (t.withLine r.year line) span' kept', faults } := by
  have hread : r.block.isVerbatim = false := by
    rw [hblock]
    rfl
  rw [step_of_read hread, if_neg hline.1, if_pos hline.2]
  simp only [indented, hblock, Transaction.withLine]
  cases addToTransaction t (trim line) r.year with
  | ok t' => exact ⟨_, _, r.faults, rfl⟩
  | error fault => exact ⟨_, _, _, rfl⟩

theorem steps_members (hblock : r.block = .transaction t span kept)
    (hmembers : ∀ line ∈ members, Line.Indented line) (n : Nat) :
    ∃ span' kept' faults, r.steps n members = { r with
      block := .transaction (members.foldl (Transaction.withLine r.year) t) span' kept', faults } := by
  induction members generalizing r t span kept n with
  | nil =>
    obtain ⟨year, block, directives, faults⟩ := r
    obtain rfl : block = .transaction t span kept := hblock
    exact ⟨span, kept, faults, rfl⟩
  | cons line members ih =>
    obtain ⟨hline, hrest⟩ := List.forall_mem_cons.mp hmembers
    obtain ⟨span', kept', faults, hstep⟩ := step_member hblock hline n
    rw [steps, hstep]
    exact ih (r := { r with
      block := .transaction (t.withLine r.year line) span' kept', faults }) rfl hrest (n + 1)

theorem step_opening {c : Char} {rest : List Char} (hblock : r.block.isVerbatim = false)
    (hc : isDigit c = true) (ht : Line.readHead (c :: rest) r.year = .ok t) (n : Nat) :
    r.step n (c :: rest) = { r.close with block := .transaction t (.line n) [c :: rest] } := by
  rw [step_head hblock hc, ht]

end Reading

/-- Lines of a transaction are an item of the journal: what its first line opens, with the indented
lines behind it taken in. -/
theorem exists_transaction {above members below : List (List Char)} {first : Char}
    {head : List Char} {inForce : Int}
    (hread : ((Reading.fresh year).steps 1 above).block.isVerbatim = false)
    (hyear : ((Reading.fresh year).steps 1 above).year = inForce) (hfirst : isDigit first = true)
    (hopens : Line.readHead (first :: head) inForce = .ok t)
    (hmembers : ∀ line ∈ members, Line.Indented line)
    (hends : ∀ line ∈ below.head?, ¬Line.Indented line) :
    ∃ lines digest span,
      ⟨.transaction { members.foldl (Transaction.withLine inForce) t with lines, digest }, span⟩ ∈
        (ofLines year (above ++ (first :: head) :: (members ++ below))).directives := by
  generalize hr : (Reading.fresh year).steps 1 above = r at hread hyear
  subst hyear
  let n := 1 + above.length
  let opened : Reading := { r.close with block := .transaction t (.line n) [first :: head] }
  have hopen : r.step n (first :: head) = opened := Reading.step_opening hread hfirst hopens n
  obtain ⟨span, kept, faults, hsteps⟩ :=
    Reading.steps_members (r := opened) rfl hmembers (n + 1)
  have hinside : opened.year = r.year := by
    change r.close.year = r.year
    rw [Reading.close_eq]
  have hplace : n + 1 + members.length = 1 + (above.length + 1 + members.length) := by omega
  rw [hinside] at hsteps
  rw [ofLines, Reading.steps_append, hr, Reading.steps, hopen, Reading.steps_append, hsteps,
    ← Reading.finish_steps_close rfl hends, hplace,
    Reading.finish_steps_of_closed (congrArg Reading.block (Reading.close_eq _))]
  refine ⟨(span.first, span.last), Reading.digestOf kept.reverse, span,
    List.mem_append_left _ (List.mem_reverse.mpr ?_)⟩
  rw [Reading.close_eq]
  exact List.mem_cons_self

/-- A posting of a journal and a note below it that names a payee. -/
structure PayeeNote (year : Int) where
  /-- The lines above the transaction. -/
  above : List (List Char)
  /-- The first line of the transaction begins with this digit. -/
  first : Char
  head : List Char
  /-- The lines of the transaction before the posting. -/
  before : List (List Char)
  line : List Char
  /-- The lines between the posting and the note. -/
  between : List (List Char)
  /-- What the line of the note begins with. -/
  indent : List Char
  payee : List Char
  /-- The lines of the transaction below the note. -/
  after : List (List Char)
  below : List (List Char)
  opening : Transaction
  posting : Posting
  read : ((Reading.fresh year).steps 1 above).block.isVerbatim = false
  digit : isDigit first = true
  opens : Line.readHead (first :: head) ((Reading.fresh year).steps 1 above).year = .ok opening
  posts : Line.readPosting (trim line) ((Reading.fresh year).steps 1 above).year = .ok posting
  indented : ∀ member ∈ before ++ line :: (between ++ after), Line.Indented member
  /-- No other posting begins between the posting and the note. -/
  same : ∀ line ∈ between, ∀ q, Line.readPosting (trim line)
    ((Reading.fresh year).steps 1 above).year ≠ .ok q
  spaced : indent ≠ [] ∧ ∀ c ∈ indent, isSpacing c = true
  solid : ∃ c ∈ payee, isBlank c = false
  /-- No later note of the posting names a payee. -/
  last : ∀ text ∈ notesOf ((Reading.fresh year).steps 1 above).year after,
    Annotations.value? "payee" text = none
  ends : ∀ line ∈ below.head?, ¬Line.Indented line

namespace PayeeNote

variable (x : PayeeNote year)

def inForce : Int := ((Reading.fresh year).steps 1 x.above).year

def note : List Char := x.indent ++ "; payee: ".toList ++ x.payee

/-- The lines of the transaction below its first one. -/
def members : List (List Char) := x.before ++ x.line :: (x.between ++ x.note :: x.after)

def lines : List (List Char) := x.above ++ (x.first :: x.head) :: (x.members ++ x.below)

/-- The transaction, as far as its lines say. -/
def transaction : Transaction := x.members.foldl (Transaction.withLine x.inForce) x.opening

def place : Nat := (x.before.foldl (Transaction.withLine x.inForce) x.opening).postings.length

def value : MetaValue := .infer (String.ofList x.payee)

theorem trimEnd_payee : trimEnd x.payee ≠ [] := by
  obtain ⟨c, hc, hsolid⟩ := x.solid
  exact trimEnd_ne_nil hc hsolid

theorem trim_note : trim x.note = ';' :: (" payee: ".toList ++ trimEnd x.payee) := by
  have hblank : ∀ c ∈ x.indent, isBlank c = true := fun c hc =>
    isBlank_of_isSpacing (x.spaced.2 c hc)
  have hstart : trimStart ("; payee: ".toList ++ x.payee) = "; payee: ".toList ++ x.payee :=
    trimStart_cons (by decide) _
  rw [note, List.append_assoc, trim_append_of_blank_left hblank, trim, hstart,
    trimEnd_append_of_ne_nil x.trimEnd_payee]
  rfl

theorem indented_note : Line.Indented x.note := by
  obtain ⟨c, rest, hindent⟩ := List.exists_cons_of_ne_nil x.spaced.1
  have hc : isSpacing c = true := x.spaced.2 c (hindent ▸ List.mem_cons_self)
  refine ⟨?_, ?_⟩
  · rw [trim_note]
    exact List.cons_ne_nil _ _
  · rw [note, hindent]
    exact hc

theorem indented_members : ∀ member ∈ x.members, Line.Indented member := by
  intro member hmember
  by_cases hnote : member = x.note
  · rw [hnote]
    exact x.indented_note
  · refine x.indented member ?_
    simp only [members, List.mem_append, List.mem_cons] at hmember ⊢
    tauto

theorem value?_note :
    Annotations.value? "payee" (" payee: ".toList ++ trimEnd x.payee) = some x.value := by
  have htrim : trim (" payee: ".toList ++ trimEnd x.payee) =
      "payee".toList ++ ':' :: ' ' :: trimEnd x.payee := by
    have hend : trimEnd (trimEnd x.payee) ≠ [] := by
      rw [trimEnd_trimEnd]
      exact x.trimEnd_payee
    have hstart : trimStart (" payee: ".toList ++ trimEnd x.payee) =
        "payee: ".toList ++ trimEnd x.payee :=
      (trimStart_space _).trans (trimStart_cons (by decide) _)
    rw [trim, hstart, trimEnd_append_of_ne_nil hend, trimEnd_trimEnd]
    rfl
  have hcut : cut? (· = ':') ("payee".toList ++ ':' :: ' ' :: trimEnd x.payee) =
      some ("payee".toList, ' ' :: trimEnd x.payee) := rfl
  have hvalue : trim (' ' :: trimEnd x.payee) = trim x.payee := by
    rw [trim, trimStart_space, ← trimEnd_trimStart, trimEnd_trimEnd]
    rfl
  have hne : trim x.payee ≠ [] := by
    obtain ⟨c, hc, hsolid⟩ := x.solid
    intro hnil
    rw [trim, trimEnd_trimStart, trimStart_eq_nil_iff] at hnil
    exact x.trimEnd_payee (trimEnd_trimEnd x.payee ▸ trimEnd_eq_nil_iff.mpr hnil)
  have hinfer : MetaValue.infer (String.ofList (' ' :: trimEnd x.payee)) = x.value := by
    rw [value, MetaValue.infer, MetaValue.infer, String.toList_ofList, String.toList_ofList, hvalue]
  have hentry : Annotations.keyed? ("payee".toList ++ ':' :: ' ' :: trimEnd x.payee) =
      some ("payee", x.value) := by
    have hkey : Annotations.isKey "payee".toList = true := by decide
    rw [Annotations.keyed?, hcut]
    simp only [hkey, hvalue, hne, hinfer, List.head?_cons, decide_true, Bool.and_true, ne_eq,
      not_false_eq_true, if_true]
    rfl
  rw [Annotations.value?, htrim, hentry]
  rfl

theorem getElem?_place : x.transaction.postings[x.place]? =
    some ((notesOf x.inForce x.between ++ (" payee: ".toList ++ trimEnd x.payee) ::
      notesOf x.inForce x.after).foldl Posting.annotate x.posting) := by
  have hposts : Line.readPosting (trim x.line) x.inForce = .ok x.posting := x.posts
  have hnotes : notesOf x.inForce (x.between ++ x.note :: x.after) = notesOf x.inForce x.between ++
      notesOf x.inForce (x.note :: x.after) := Transaction.notesOf_append x.same _
  rw [transaction, members, List.foldl_append, List.foldl_cons,
    Transaction.withLine_body (Transaction.head?_ne_of_readPosting hposts), hposts,
    ← Transaction.notesOf_note x.trim_note, ← hnotes]
  exact Transaction.getElem?_foldl_withLine rfl x.inForce _

theorem exists_posting : ∃ t span p,
    ⟨.transaction t, span⟩ ∈ (ofLines year x.lines).directives ∧ t.payee = x.opening.payee ∧
      t.postings[x.place]? = some p ∧ p.account = x.posting.account ∧
      p.metadata.find? "payee" = some x.value := by
  obtain ⟨lines, digest, span, hmem⟩ :=
    exists_transaction x.read rfl x.digit x.opens x.indented_members x.ends
  refine ⟨_, span, _, hmem, Transaction.payee_foldl_withLine _ _ _, x.getElem?_place,
    Posting.account_foldl_annotate _ _, ?_⟩
  have hlast : (notesOf x.inForce x.after).reverse.findSome? (Annotations.value? "payee") = none :=
    List.findSome?_eq_none_iff.mpr fun text htext => x.last text (List.mem_reverse.mp htext)
  rw [Posting.find?_foldl_annotate, List.reverse_append, List.reverse_cons, List.findSome?_append,
    List.findSome?_append, hlast, List.findSome?_singleton, value?_note]
  rfl

end PayeeNote

end Journal

end Daybook
