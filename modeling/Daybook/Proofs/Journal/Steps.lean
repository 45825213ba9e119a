import Daybook.Journal.Basic
import Daybook.Proofs.Result
import Daybook.Proofs.Text.Numeral
import Daybook.Proofs.Text.Trim

/-!
# Steps of reading a journal

What reading one more line can do (`Step`): the open item ends, goes on or stays open, an item of a
single line is added, another one is opened, or a fault is noted. Main statement: every step does one
of these things (`step_moves`), so that what all of them keep is kept to the last line
(`steps_induction`).
-/

namespace Daybook

open Daybook.Text

def Directive.isPrice : Directive → Bool
  | .price _ => true
  | _ => false

/-- The directive can stand behind a keyword on a single line: it is neither a transaction nor a
price, and a year is a number of 32 bits. -/
def Directive.Keyworded : Directive → Prop
  | .transaction _ | .price _ => False
  | .year n => fitsInt32 n = true
  | _ => True

theorem Directive.Keyworded.ne_transaction {d : Directive} (h : d.Keyworded) (t : Transaction) :
    d ≠ .transaction t := by
  rintro rfl
  exact h

theorem Directive.Keyworded.isPrice_eq_false {d : Directive} (h : d.Keyworded) :
    d.isPrice = false := by
  cases d
  case price => exact h.elim
  all_goals rfl

namespace Line

/-- The line is not blank, and begins with a space or a tab. -/
def Indented (line : List Char) : Prop := trim line ≠ [] ∧ line.head?.any isSpacing = true

/-- The line is not blank, and does not begin with a space or a tab. -/
def Unindented (line : List Char) : Prop := trim line ≠ [] ∧ line.head?.any isSpacing = false

/-- Whether the line begins with the letter that announces a price, and a space or a tab. -/
def announcesPrice : List Char → Bool
  | c :: rest => c = 'P' && rest.head?.any isSpacing
  | [] => false

instance (line : List Char) : Decidable (Indented line) := inferInstanceAs (Decidable (_ ∧ _))

instance (line : List Char) : Decidable (Unindented line) := inferInstanceAs (Decidable (_ ∧ _))

theorem announcesPrice_of_ne {c : Char} (hc : c ≠ 'P') (rest : List Char) :
    announcesPrice (c :: rest) = false := by
  simp [announcesPrice, hc]

theorem unindented_cons {c : Char} (hc : isBlank c = false) (rest : List Char) :
    Unindented (c :: rest) := by
  refine ⟨?_, ?_⟩
  · rw [trim, trimStart_cons hc]
    exact trimEnd_ne_nil List.mem_cons_self hc
  · cases hspacing : isSpacing c with
    | false => exact hspacing
    | true =>
      rw [isBlank_of_isSpacing hspacing] at hc
      cases hc

open Result in
theorem readDirective_keyworded {keyword : String} {arg : List Char} {d : Directive}
    (h : readDirective keyword arg = .ok d) : d.Keyworded := by
  unfold readDirective at h
  split at h
  case h_1 =>
    simp only [readApply] at h
    split at h
    · obtain ⟨name, -, rfl⟩ := map_eq_ok_iff.mp h
      trivial
    · cases h
  case h_2 =>
    split at h <;> cases h
    trivial
  case h_4 | h_5 =>
    simp only [readYear] at h
    split at h <;> cases h
    case h_1 hn => exact fitsInt32_of_readInt32? hn
  case h_8 =>
    simp only [readCapture, bind_eq_ok_iff] at h
    obtain ⟨spec, -, h⟩ := h
    split at h <;> cases h
    trivial
  case h_14 =>
    simp only [readFixed, bind_eq_ok_iff] at h
    obtain ⟨name, -, price, -, h⟩ := h
    cases h
    trivial
  case h_15 => cases h
  case h_3 | h_12 | h_13 =>
    obtain ⟨equation, -, h⟩ := bind_eq_ok_iff.mp h
    cases h
    trivial
  all_goals
    obtain ⟨text, -, rfl⟩ := map_eq_ok_iff.mp h
    trivial

end Line

namespace Verbatim

/-- The line that ends the block. -/
def ending (kind : Verbatim) : List Char := "end ".toList ++ kind.keyword.toList

end Verbatim

namespace Block

def isVerbatim : Block → Bool
  | .verbatim .. => true
  | _ => false

theorem isVerbatim_iff {b : Block} :
    b.isVerbatim = true ↔ ∃ kind opening body span, b = .verbatim kind opening body span := by
  cases b <;> simp [isVerbatim]

/-- The lines that the open item covers so far. -/
def span? : Block → Option Span
  | .closed | .skipped => none
  | .transaction _ span _ | .account _ span | .commodity _ span | .payee _ span
  | .verbatim _ _ _ span => some span

/-- What the open item comes to if it ends here. -/
def item? : Block → Option (Spanned Directive)
  | .closed | .skipped => none
  | .transaction t span lines =>
    some ⟨.transaction { t with
      lines := (span.first, span.last)
      digest := Journal.Reading.digestOf lines.reverse }, span⟩
  | .account d span => some ⟨.account d, span⟩
  | .commodity d span => some ⟨.commodity d, span⟩
  | .payee d span => some ⟨.payee d, span⟩
  | .verbatim kind _ body span => some ⟨kind.directive ("\n".intercalate body.reverse), span⟩

theorem map_span_item? (b : Block) : b.item?.map (·.span) = b.span? := by
  cases b <;> rfl

/-- The open item goes on with an indented line, which may change what it says. -/
inductive Continues (n : Nat) (line : List Char) : Block → Block → Prop where
  | transaction (t t' : Transaction) (span : Span) (lines : List (List Char)) :
      Continues n line (.transaction t span lines)
        (.transaction t' (span.extendTo n) (line :: lines))
  | account (d d' : AccountDeclaration) (span : Span) :
      Continues n line (.account d span) (.account d' (span.extendTo n))
  | commodity (d d' : CommodityDeclaration) (span : Span) :
      Continues n line (.commodity d span) (.commodity d' (span.extendTo n))
  | payee (d d' : PayeeDeclaration) (span : Span) :
      Continues n line (.payee d span) (.payee d' (span.extendTo n))

/-- The line opens the item. -/
inductive Opens (n : Nat) (line : List Char) : Block → Prop where
  | transaction (t : Transaction) : Opens n line (.transaction t (.line n) [line])
  | account (d : AccountDeclaration) : Opens n line (.account d (.line n))
  | commodity (d : CommodityDeclaration) : Opens n line (.commodity d (.line n))
  | payee (d : PayeeDeclaration) : Opens n line (.payee d (.line n))
  | verbatim (kind : Verbatim) : Opens n line (.verbatim kind (String.ofList line) [] (.line n))

variable {n : Nat} {line : List Char} {b b' : Block}

theorem Continues.exists_span (h : Continues n line b b') :
    ∃ span, b.span? = some span ∧ b'.span? = some (span.extendTo n) := by
  cases h <;> exact ⟨_, rfl, rfl⟩

theorem Continues.isVerbatim_eq_false (h : Continues n line b b') :
    b.isVerbatim = false ∧ b'.isVerbatim = false := by
  cases h <;> exact ⟨rfl, rfl⟩

theorem Opens.span?_eq (h : Opens n line b) : b.span? = some (.line n) := by
  cases h <;> rfl

end Block

namespace Journal.Reading

variable {r r' : Reading} {n : Nat} {line : List Char}

/-! ## One line -/

theorem close_eq (r : Reading) : r.close =
    { r with block := .closed, directives := r.block.item?.toList ++ r.directives } := by
  obtain ⟨year, block, directives, faults⟩ := r
  cases block <;> rfl

theorem step_of_verbatim {kind : Verbatim} {opening : String} {body : List String} {span : Span}
    (h : r.block = .verbatim kind opening body span) :
    r.step n line =
      if trim line = kind.ending then
        { r with block := .verbatim kind opening body (span.extendTo n) }.close
      else
        { r with
          block := .verbatim kind opening (String.ofList line :: body) (span.extendTo n) } := by
  rw [step, h]
  rfl

theorem step_of_read (h : r.block.isVerbatim = false) :
    r.step n line =
      if trim line = [] then r.close
      else if line.head?.any isSpacing then r.indented n line
      else
        match r.close.unindented n line with
        | .ok r' => r'
        | .error fault =>
          { r.close with block := .skipped }.report fault n (String.ofList line) := by
  rw [step]
  split
  case h_1 hverbatim =>
    rw [hverbatim] at h
    cases h
  case h_2 => rfl

theorem step_of_unindented (h : r.block.isVerbatim = false) (hline : Line.Unindented line) :
    r.step n line =
      match r.close.unindented n line with
      | .ok r' => r'
      | .error fault =>
        { r.close with block := .skipped }.report fault n (String.ofList line) := by
  rw [step_of_read h, if_neg hline.1, if_neg (Bool.eq_false_iff.mp hline.2)]

theorem unindented_letter {c : Char} (hc : isDigit c = false ∧
    [';', '#', '|', '*', '%'].contains c = false ∧ c ≠ 'P') (r : Reading) (n : Nat)
    (rest : List Char) : r.unindented n (c :: rest) = r.directive n (c :: rest) := by
  simp only [unindented, hc, decide_false, Bool.false_and, Bool.false_eq_true, if_false]

theorem step_directive (h : r.block.isVerbatim = false) {c : Char} {rest : List Char}
    (hblank : isBlank c = false) (hc : isDigit c = false ∧
      [';', '#', '|', '*', '%'].contains c = false ∧ c ≠ 'P')
    (hr' : r.close.directive n (c :: rest) = .ok r') : r.step n (c :: rest) = r' := by
  rw [step_of_unindented h (Line.unindented_cons hblank rest), unindented_letter hc, hr']

theorem step_head (h : r.block.isVerbatim = false) {c : Char} (hc : isDigit c = true) (n : Nat)
    (rest : List Char) : r.step n (c :: rest) =
      match Line.readHead (c :: rest) r.year with
      | .ok t => { r.close with block := .transaction t (.line n) [c :: rest] }
      | .error fault =>
        { r.close with block := .skipped }.report fault n (String.ofList (c :: rest)) := by
  have hread : Line.readHead (c :: rest) r.close.year = Line.readHead (c :: rest) r.year := by
    rw [close_eq]
  have hline := Line.unindented_cons (isBlank_eq_false_of_isDigit hc) rest
  rw [step_of_unindented h hline, unindented, if_pos hc, hread]
  cases Line.readHead (c :: rest) r.year <;> rfl

/-- A price is recorded as it is read, or there is a fault of the line. -/
theorem step_price (h : r.block.isVerbatim = false) {text : List Char}
    (htext : text.head?.any isSpacing = true) (n : Nat) : r.step n ('P' :: text) =
      match Line.readPrice text r.year with
      | .ok x => r.close.emit (.price x) (.line n)
      | .error fault =>
        { r.close with block := .skipped }.report fault n (String.ofList ('P' :: text)) := by
  have hyear : r.close.year = r.year := by rw [close_eq]
  have hline : Line.Unindented ('P' :: text) := Line.unindented_cons (by decide) text
  have hdigit : ¬isDigit 'P' = true := by decide
  have hcomment : ¬[';', '#', '|', '*', '%'].contains 'P' = true := by decide
  rw [step_of_unindented h hline, unindented, if_neg hdigit, if_neg hcomment,
    if_pos (by simpa using htext), hyear]
  cases Line.readPrice text r.year <;> rfl

theorem finish_of_verbatim {kind : Verbatim} {opening : String} {body : List String} {span : Span}
    (h : r.block = .verbatim kind opening body span) :
    r.finish = ⟨r.directives.reverse,
      r.faults.reverse ++ [⟨.unterminatedBlock kind.keyword, .line span.first, opening⟩]⟩ := by
  rw [finish, h]
  simp [report]

theorem finish_of_read (h : r.block.isVerbatim = false) :
    r.finish = ⟨r.close.directives.reverse, r.close.faults.reverse⟩ := by
  rw [finish]
  split
  case h_1 hverbatim =>
    rw [hverbatim] at h
    cases h
  case h_2 => rfl

/-- After the last line, the open item has ended, unless it is a block that is never closed. -/
theorem finish_directives (r : Reading) : r.finish.directives = r.directives.reverse ∨
    r.finish.directives = r.close.directives.reverse := by
  cases hblock : r.block.isVerbatim with
  | true =>
    obtain ⟨kind, opening, body, span, hverbatim⟩ := Block.isVerbatim_iff.mp hblock
    exact .inl (by rw [finish_of_verbatim hverbatim])
  | false => exact .inr (by rw [finish_of_read hblock])

/-- What reading line `n` does to a reading. -/
inductive Step (r : Reading) (n : Nat) (line : List Char) : Reading → Prop where
  /-- The block is not read, and goes on. -/
  | unread {kind : Verbatim} {opening : String} {body : List String} {span : Span}
      (hblock : r.block = .verbatim kind opening body span) (hline : trim line ≠ kind.ending) :
      Step r n line
        { r with block := .verbatim kind opening (String.ofList line :: body) (span.extendTo n) }
  /-- The block that is not read ends. -/
  | ended {kind : Verbatim} {opening : String} {body : List String} {span : Span}
      (hblock : r.block = .verbatim kind opening body span) (hline : trim line = kind.ending) :
      Step r n line { r with block := .verbatim kind opening body (span.extendTo n) }.close
  | blank (hblock : r.block.isVerbatim = false) (hline : trim line = []) : Step r n line r.close
  /-- There is no item that the indented line could belong to. -/
  | stray (hblock : r.block = .closed) (hline : Line.Indented line) :
      Step r n line (r.report .unexpectedIndent n (String.ofList line))
  /-- The line belongs to an item whose first line had a fault. -/
  | passed (hblock : r.block = .skipped) (hline : Line.Indented line) : Step r n line r
  | continued {block : Block} (hblock : r.block.Continues n line block)
      (hline : Line.Indented line) : Step r n line { r with block }
  | refused {block : Block} {fault : LineFault} (hblock : r.block.Continues n line block)
      (hline : Line.Indented line) :
      Step r n line ({ r with block }.report fault n (String.ofList line))
  | opened {block : Block} (hblock : r.block.isVerbatim = false) (hline : Line.Unindented line)
      (hopens : block.Opens n line) (hprice : Line.announcesPrice line = false) :
      Step r n line { r.close with block }
  | emitted {d : Directive} (hblock : r.block.isVerbatim = false) (hline : Line.Unindented line)
      (htransaction : ∀ t, d ≠ .transaction t) (hyear : ∀ year, d ≠ .year year)
      (hprice : d.isPrice = Line.announcesPrice line) : Step r n line (r.close.emit d (.line n))
  | dated {year : Int} (hblock : r.block.isVerbatim = false) (hline : Line.Unindented line)
      (hfits : fitsInt32 year = true) (hprice : Line.announcesPrice line = false) :
      Step r n line ({ r.close with year }.emit (.year year) (.line n))
  | failed {fault : LineFault} (hblock : r.block.isVerbatim = false)
      (hline : Line.Unindented line) :
      Step r n line ({ r.close with block := .skipped }.report fault n (String.ofList line))

/-- What a line that is not indented can do after the item before it has ended. -/
inductive Begins (r : Reading) (n : Nat) (line : List Char) : Reading → Prop where
  | opened {block : Block} (hopens : block.Opens n line)
      (hprice : Line.announcesPrice line = false) : Begins r n line { r with block }
  | emitted {d : Directive} (htransaction : ∀ t, d ≠ .transaction t)
      (hyear : ∀ year, d ≠ .year year) (hprice : d.isPrice = Line.announcesPrice line) :
      Begins r n line (r.emit d (.line n))
  | dated {year : Int} (hfits : fitsInt32 year = true)
      (hprice : Line.announcesPrice line = false) :
      Begins r n line ({ r with year }.emit (.year year) (.line n))

theorem begins_of_directive (h : r.directive n line = .ok r')
    (hprice : Line.announcesPrice line = false) : Begins r n line r' := by
  simp only [directive] at h
  split at h
  case h_1 | h_2 | h_3 =>
    obtain ⟨name, -, h⟩ := Result.bind_eq_ok_iff.mp h
    obtain rfl := Result.pure_eq_ok_iff.mp h
    exact .opened (by constructor) hprice
  case h_4 | h_5 =>
    cases h
    exact .opened (.verbatim _) hprice
  case h_6 =>
    obtain ⟨d, hd, h⟩ := Result.bind_eq_ok_iff.mp h
    split at h
    case h_1 =>
      obtain rfl := Result.pure_eq_ok_iff.mp h
      exact .dated (Line.readDirective_keyworded hd) hprice
    case h_2 hyear =>
      obtain rfl := Result.pure_eq_ok_iff.mp h
      have hkeyworded := Line.readDirective_keyworded hd
      exact .emitted hkeyworded.ne_transaction hyear (hkeyworded.isPrice_eq_false.trans hprice.symm)

theorem begins_of_unindented (h : r.unindented n line = .ok r') : Begins r n line r' := by
  unfold unindented at h
  split at h
  case h_2 => exact begins_of_directive h rfl
  case h_1 c rest =>
    split at h
    case isTrue hdigit =>
      obtain ⟨t, -, h⟩ := Result.bind_eq_ok_iff.mp h
      obtain rfl := Result.pure_eq_ok_iff.mp h
      exact .opened (.transaction t) (Line.announcesPrice_of_ne (by rintro rfl; cases hdigit) rest)
    split at h
    case isTrue hmark =>
      obtain rfl := Result.pure_eq_ok_iff.mp h
      have hprice := Line.announcesPrice_of_ne (c := c) (by rintro rfl; cases hmark) rest
      exact .emitted (by simp) (by simp) hprice.symm
    split at h
    case isTrue hprice =>
      obtain ⟨p, -, h⟩ := Result.bind_eq_ok_iff.mp h
      obtain rfl := Result.pure_eq_ok_iff.mp h
      exact .emitted (by simp) (by simp) hprice.symm
    case isFalse hprice => exact begins_of_directive h (Bool.eq_false_iff.mpr hprice)

theorem Begins.step (h : Begins r.close n line r') (hblock : r.block.isVerbatim = false)
    (hline : Line.Unindented line) : Step r n line r' := by
  cases h with
  | opened hopens hprice => exact .opened hblock hline hopens hprice
  | emitted htransaction hyear hprice => exact .emitted hblock hline htransaction hyear hprice
  | dated hfits hprice => exact .dated hblock hline hfits hprice

theorem step_continueWith {α : Type} {unchanged : α} {result : Line.Result α} {block : α → Block}
    (hblock : ∀ a, r.block.Continues n line (block a)) (hline : Line.Indented line) :
    Step r n line (r.continueWith n line unchanged result block) := by
  cases result with
  | ok a => exact .continued (hblock a) hline
  | error fault => exact .refused (hblock unchanged) hline

theorem step_indented (hblock : r.block.isVerbatim = false) (hline : Line.Indented line) :
    Step r n line (r.indented n line) := by
  unfold indented
  split
  case h_1 hclosed => exact .stray hclosed hline
  case h_2 hskipped => exact .passed hskipped hline
  case h_3 t span lines h =>
    exact step_continueWith (fun t' => h ▸ .transaction t t' span lines) hline
  case h_4 d span h => exact step_continueWith (fun d' => h ▸ .account d d' span) hline
  case h_5 d span h => exact step_continueWith (fun d' => h ▸ .commodity d d' span) hline
  case h_6 d span h => exact step_continueWith (fun d' => h ▸ .payee d d' span) hline
  case h_7 h =>
    rw [h] at hblock
    cases hblock

theorem step_moves (r : Reading) (n : Nat) (line : List Char) : Step r n line (r.step n line) := by
  cases hblock : r.block.isVerbatim with
  | true =>
    obtain ⟨kind, opening, body, span, hverbatim⟩ := Block.isVerbatim_iff.mp hblock
    rw [step_of_verbatim hverbatim]
    split
    case isTrue hline => exact .ended hverbatim hline
    case isFalse hline => exact .unread hverbatim hline
  | false =>
    rw [step_of_read hblock]
    split
    case isTrue hline => exact .blank hblock hline
    split
    case isTrue htrim hhead => exact step_indented hblock ⟨htrim, hhead⟩
    case isFalse htrim hhead =>
      have hline : Line.Unindented line := ⟨htrim, by simpa using hhead⟩
      split
      case h_1 r' hr' => exact (begins_of_unindented hr').step hblock hline
      case h_2 fault _ => exact .failed hblock hline

/-! ## All lines -/

theorem steps_append (r : Reading) (n : Nat) (a b : List (List Char)) :
    r.steps n (a ++ b) = (r.steps n a).steps (n + a.length) b := by
  induction a generalizing r n with
  | nil => rfl
  | cons line rest ih =>
    rw [List.cons_append, steps, steps, ih, List.length_cons]
    congr 1
    omega

/-- What holds before the first line, and after a line where it held before, holds after the last
line. -/
theorem steps_induction {P : List (List Char) → Reading → Prop}
    (hstep : ∀ lines line r r', P lines r → Step r (lines.length + 1) line r' →
      P (lines ++ [line]) r')
    {r : Reading} (hstart : P [] r) (lines : List (List Char)) : P lines (r.steps 1 lines) := by
  have hrun : ∀ (rest done : List (List Char)) (r : Reading), P done r →
      P (done ++ rest) (r.steps (done.length + 1) rest) := by
    intro rest
    induction rest with
    | nil =>
      intro done r hdone
      rw [List.append_nil]
      exact hdone
    | cons line rest ih =>
      intro done r hdone
      have hnext := hstep done line r _ hdone (step_moves r (done.length + 1) line)
      have hrest := ih (done ++ [line]) _ hnext
      rw [List.length_append, List.append_assoc] at hrest
      exact hrest
  exact hrun lines [] r hstart

end Journal.Reading

end Daybook
