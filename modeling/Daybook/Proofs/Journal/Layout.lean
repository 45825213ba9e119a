import Daybook.Proofs.Journal.Composition
import Daybook.Proofs.Text.Trim
import Mathlib.Data.List.Forall2

/-!
# Blanks around lines

Blanks at the end of a line say nothing, and neither does the number of blanks before an indented
line: other blanks lead to the same journal, but for the digests of transactions if it is those
before a line that change (`ofText_layout`).
-/

namespace Daybook

open Daybook.Text

/-! ## Lines with blanks behind them -/

theorem Transaction.annotate_append {run : List Char} (h : ∀ c ∈ run, isBlank c = true)
    (t : Transaction) (text : List Char) : t.annotate (text ++ run) = t.annotate text := by
  rw [annotate, annotate, Annotations.add, Annotations.add, trim_append_of_blank h]

namespace Line

variable {run : List Char}

theorem cutComment_append (h : ∀ c ∈ run, isBlank c = true) (cs : List Char) :
    cutComment (cs ++ run) = ((cutComment cs).1, (cutComment cs).2.map (· ++ run)) := by
  have hcut : cut? (· = ';') (cs ++ run) =
      (cut? (· = ';') cs).map (Prod.map id (· ++ run)) := by
    refine cut?_append (fun c hc => decide_eq_false ?_) cs
    rintro rfl
    exact absurd (h _ hc) (by decide)
  rw [cutComment, cutComment, hcut]
  cases cut? (· = ';') cs with
  | none => exact congrArg (·, none) (trimEnd_append_of_blank h cs)
  | some cut => rfl

theorem readHead_append (h : ∀ c ∈ run, isBlank c = true) (cs : List Char) (year : Int) :
    readHead (cs ++ run) year = readHead cs year := by
  rw [readHead, readHead, cutComment_append h]
  rcases cutComment cs with ⟨head, _ | note⟩
  · rfl
  · simp only [Option.map_some, Transaction.annotate_append h]

theorem readPrice_append (h : ∀ c ∈ run, isBlank c = true) (cs : List Char) (year : Int) :
    readPrice (cs ++ run) year = readPrice cs year := by
  rw [readPrice, readPrice, trim_append_of_blank h]

def keyword (line : List Char) : List Char := (firstWord (cutComment line).1).1

/-- The line opens a block whose lines are not read. -/
def OpensVerbatim (line : List Char) : Prop :=
  Unindented line ∧ ∃ kind : Verbatim, String.ofList (keyword line) = kind.keyword

theorem head?_keyword {c : Char} (hblank : isBlank c = false) (hc : c ≠ ';') (rest : List Char) :
    (keyword (c :: rest)).head? = some c := by
  obtain ⟨cs, hcs⟩ : ∃ cs, (cutComment (c :: rest)).1 = trimEnd (c :: cs) := by
    rw [cutComment, cut?, if_neg (by simpa using hc)]
    cases cut? (· = ';') rest with
    | none => exact ⟨rest, rfl⟩
    | some cut => exact ⟨cut.1, rfl⟩
  obtain ⟨ds, hds⟩ := exists_trimEnd_eq_cons hblank cs
  have hword : (c :: ds).takeWhile (!isBlank ·) = c :: ds.takeWhile (!isBlank ·) :=
    List.takeWhile_cons_of_pos (by rw [hblank, Bool.not_false])
  rw [keyword, hcs, hds, firstWord, trimStart_cons hblank]
  exact congrArg List.head? hword

instance (line : List Char) : Decidable (OpensVerbatim line) :=
  decidable_of_iff (Unindented line ∧ (String.ofList (keyword line) = Verbatim.test.keyword ∨
    String.ofList (keyword line) = Verbatim.comment.keyword)) <| and_congr_right fun _ =>
      ⟨fun h => h.elim (⟨.test, ·⟩) (⟨.comment, ·⟩),
        fun ⟨kind, h⟩ => by cases kind <;> [exact .inl h; exact .inr h]⟩

/-- The same line with more blanks at its end. -/
def Extends (line line' : List Char) : Prop :=
  ∃ run, (∀ c ∈ run, isBlank c = true) ∧ line' = line ++ run

/-- The same line, or one that is not blank and indented by spaces and tabs, with others in their
place. -/
def Reindents (line line' : List Char) : Prop :=
  line' = line ∨ ∃ run run' body, run ≠ [] ∧ run' ≠ [] ∧ (∀ c ∈ run ++ run', isSpacing c = true) ∧
    trim body ≠ [] ∧ line = run ++ body ∧ line' = run' ++ body

theorem indented_of_run {body : List Char} (hrun : run ≠ [])
    (hspacing : ∀ c ∈ run, isSpacing c = true) (hbody : trim body ≠ []) :
    Indented (run ++ body) ∧ trim (run ++ body) = trim body := by
  have htrim := trim_append_of_blank_left (fun c hc => isBlank_of_isSpacing (hspacing c hc)) body
  obtain ⟨c, rest, rfl⟩ := List.exists_cons_of_ne_nil hrun
  exact ⟨⟨htrim.symm ▸ hbody, hspacing c List.mem_cons_self⟩, htrim⟩

end Line

/-! ## Readings that differ in the kept lines -/

def Directive.withDigest (digest : String) : Directive → Directive
  | .transaction t => .transaction { t with digest }
  | d => d

def Directive.undigested (d : Directive) : Directive := d.withDigest ""

theorem Directive.withDigest_undigested (digest : String) (d : Directive) :
    d.undigested.withDigest digest = d.withDigest digest := by
  cases d <;> rfl

/-- The item without the digest of a transaction. -/
def Spanned.undigested (d : Spanned Directive) : Spanned Directive := ⟨d.value.undigested, d.span⟩

/-- The open item without the lines that it keeps. -/
def Block.outline : Block → Block
  | .transaction t span _ => .transaction t span []
  | b => b

variable {b b' : Block}

theorem Block.isVerbatim_outline (b : Block) : b.outline.isVerbatim = b.isVerbatim := by
  cases b <;> rfl

theorem Block.undigested_item?_outline (b : Block) :
    b.outline.item?.map (·.undigested) = b.item?.map (·.undigested) := by
  cases b <;> rfl

theorem Block.outline_cases (h : b'.outline = b.outline) :
    b' = b ∨ ∃ t span lines lines', b = .transaction t span lines ∧
      b' = .transaction t span lines' := by
  cases b <;> cases b' <;> cases h <;> first | exact .inl rfl | exact .inr ⟨_, _, _, _, rfl, rfl⟩

namespace Journal.Reading

variable {γ : Type} {κ : LineFault → γ} {r r' : Reading} {n : Nat} {line line' run : List Char}

/-- Two readings, neither of which is in a block that is not read, are alike but for digests and the
lines that they are taken from, and for faults of the same kind on the same line. -/
structure Alike (κ : LineFault → γ) (r r' : Reading) : Prop where
  read : r.block.isVerbatim = false
  year : r'.year = r.year
  block : r'.block.outline = r.block.outline
  directives : r'.directives.map (·.undigested) = r.directives.map (·.undigested)
  faults :
    r'.faults.map (fun f => (κ f.fault, f.span)) = r.faults.map (fun f => (κ f.fault, f.span))

theorem Alike.refl (hread : r.block.isVerbatim = false) : Alike κ r r := ⟨hread, rfl, rfl, rfl, rfl⟩

theorem Alike.read' (h : Alike κ r r') : r'.block.isVerbatim = false := by
  rw [← Block.isVerbatim_outline, h.block, Block.isVerbatim_outline, h.read]

theorem Alike.withBlock (h : Alike κ r r') (hread : b.isVerbatim = false)
    (hb : b'.outline = b.outline) : Alike κ { r with block := b } { r' with block := b' } :=
  ⟨hread, h.year, hb, h.directives, h.faults⟩

theorem Alike.transaction (h : Alike κ r r') (t : Transaction) (span : Span)
    (lines lines' : List (List Char)) : Alike κ { r with block := .transaction t span lines }
      { r' with block := .transaction t span lines' } := h.withBlock rfl rfl

theorem Alike.emit (h : Alike κ r r') (d : Directive) (span : Span) :
    Alike κ (r.emit d span) (r'.emit d span) :=
  ⟨h.read, h.year, h.block, congrArg (_ :: ·) h.directives, h.faults⟩

theorem Alike.report (h : Alike κ r r') {fault fault' : LineFault} (hκ : κ fault' = κ fault)
    (n : Nat) (text text' : String) : Alike κ (r.report fault n text) (r'.report fault' n text') := by
  refine ⟨h.read, h.year, h.block, h.directives, ?_⟩
  change (κ fault', Span.line n) :: _ = (κ fault, Span.line n) :: _
  rw [hκ, h.faults]

theorem Alike.close (h : Alike κ r r') : Alike κ r.close r'.close := by
  rw [close_eq, close_eq]
  refine ⟨rfl, h.year, rfl, ?_, h.faults⟩
  have hitem : r'.block.item?.map (·.undigested) = r.block.item?.map (·.undigested) := by
    rw [← Block.undigested_item?_outline, h.block, Block.undigested_item?_outline]
  simp only [List.map_append, ← Option.toList_map, hitem, h.directives]

theorem Alike.continueWith {α : Type} {block block' : α → Block} (h : Alike κ r r')
    (hread : ∀ a, (block a).isVerbatim = false)
    (hblock : ∀ a, (block' a).outline = (block a).outline) (unchanged : α) (result : Line.Result α) :
    Alike κ (r.continueWith n line unchanged result block)
      (r'.continueWith n line' unchanged result block') := by
  cases result with
  | ok a => exact h.withBlock (hread a) (hblock a)
  | error fault => exact (h.withBlock (hread unchanged) (hblock unchanged)).report rfl n _ _

theorem Alike.indented (h : Alike κ r r') (htrim : trim line' = trim line) :
    Alike κ (r.indented n line) (r'.indented n line') := by
  obtain ⟨year, block, directives, faults⟩ := r
  obtain ⟨year', block', directives', faults'⟩ := r'
  obtain rfl : year' = year := h.year
  rcases Block.outline_cases h.block with hblock | ⟨t, span, kept, kept', hblock, hblock'⟩
  · obtain rfl : block' = block := hblock
    unfold Reading.indented
    rw [htrim]
    cases block' with
    | closed => exact h.report rfl n _ _
    | skipped => exact h
    | verbatim => cases h.read
    | transaction | account | commodity | payee =>
      refine h.continueWith ?_ ?_ _ _ <;> exact fun _ => rfl
  · obtain rfl : block = _ := hblock
    obtain rfl : block' = _ := hblock'
    unfold Reading.indented
    rw [htrim]
    refine h.continueWith ?_ ?_ _ _ <;> exact fun _ => rfl

/-! ## Lines that are not indented -/

/-- A directive is read from what stands before the comment. -/
theorem Alike.directive (h : Alike κ r r')
    (hhead : (Line.cutComment line').1 = (Line.cutComment line).1)
    (hopens : ∀ kind : Verbatim, String.ofList (Line.keyword line) ≠ kind.keyword) :
    Result.Rel (Alike κ) (fun fault fault' => κ fault' = κ fault) (r.directive n line)
      (r'.directive n line') := by
  have htest : String.ofList (Line.keyword line) ≠ "test" := hopens .test
  have hcomment : String.ofList (Line.keyword line) ≠ "comment" := hopens .comment
  rw [Line.keyword] at htest hcomment
  simp only [Reading.directive, hhead]
  split
  case h_1 | h_2 | h_3 =>
    cases Line.required _ _ with
    | ok name => exact h.withBlock rfl rfl
    | error fault => exact rfl
  case h_4 hkeyword => exact absurd hkeyword htest
  case h_5 hkeyword => exact absurd hkeyword hcomment
  case h_6 =>
    cases Line.readDirective _ _ with
    | error fault => exact rfl
    | ok d =>
      have hyear : ∀ year, Alike κ { r with year } { r' with year } := fun year =>
        ⟨h.read, rfl, h.block, h.directives, h.faults⟩
      cases d with
      | year year => exact (hyear year).emit _ _
      | _ => exact h.emit _ _

theorem directive_price (r : Reading) (n : Nat) :
    r.directive n ['P'] = .error (.unknownDirective "P") := rfl

theorem readPrice_of_blank (h : ∀ c ∈ run, isBlank c = true) (year : Int) :
    ∃ fault, Line.readPrice run year = .error fault := by
  rw [← List.nil_append run, Line.readPrice_append h]
  exact ⟨_, rfl⟩

/-- A line that begins with neither a date nor a mark is a price or another directive. Blanks behind
it change nothing, except that a single letter P becomes a price without a date: both are faults, of
different kinds. -/
theorem Alike.unindented_word {c : Char} {rest : List Char} (h : Alike κ r r')
    (hblank : ∀ c ∈ run, isBlank c = true) (hκ : run = [] ∨ ∀ fault fault', κ fault = κ fault')
    (hdigit : ¬isDigit c = true) (hmark : ¬[';', '#', '|', '*', '%'].contains c = true)
    (hdirective : Result.Rel (Alike κ) (fun fault fault' => κ fault' = κ fault)
      (r.directive n (c :: rest)) (r'.directive n (c :: (rest ++ run)))) :
    Result.Rel (Alike κ) (fun fault fault' => κ fault' = κ fault) (r.unindented n (c :: rest))
      (r'.unindented n (c :: (rest ++ run))) := by
  unfold Reading.unindented
  dsimp only
  rw [if_neg hdigit, if_neg hdigit, if_neg hmark, if_neg hmark]
  by_cases hnil : rest = []
  · subst hnil
    rw [List.nil_append] at hdirective ⊢
    have hword : ¬(decide (c = 'P') && ([] : List Char).head?.any isSpacing) = true := by simp
    rw [if_neg hword]
    by_cases hprice : (decide (c = 'P') && run.head?.any isSpacing) = true
    · obtain ⟨hletter, hspacing⟩ := Bool.and_eq_true_iff.mp hprice
      obtain rfl := of_decide_eq_true hletter
      obtain ⟨fault, hfault⟩ := readPrice_of_blank hblank r'.year
      rw [if_pos hprice, hfault, directive_price]
      rcases hκ with rfl | hκ
      · simp at hspacing
      · exact hκ _ _
    · rw [if_neg hprice]
      exact hdirective
  · have hnext : (rest ++ run).head? = rest.head? := List.head?_append_of_ne_nil _ hnil
    rw [hnext]
    by_cases hprice : (decide (c = 'P') && rest.head?.any isSpacing) = true
    · rw [if_pos hprice, if_pos hprice, Line.readPrice_append hblank, h.year]
      cases Line.readPrice rest r.year with
      | ok p => exact h.emit _ _
      | error fault => exact rfl
    · rw [if_neg hprice, if_neg hprice]
      exact hdirective

/-- Blanks behind a line that is not indented change nothing, but for the kind of a fault. -/
theorem Alike.unindented (h : Alike κ r r') (hblank : ∀ c ∈ run, isBlank c = true)
    (hκ : run = [] ∨ ∀ fault fault', κ fault = κ fault') (hline : Line.Unindented line)
    (hopens : ¬ Line.OpensVerbatim line) :
    Result.Rel (Alike κ) (fun fault fault' => κ fault' = κ fault) (r.unindented n line)
      (r'.unindented n (line ++ run)) := by
  have hhead : (Line.cutComment (line ++ run)).1 = (Line.cutComment line).1 := by
    rw [Line.cutComment_append hblank]
  have hdirective := h.directive (n := n) hhead fun kind hkind => hopens ⟨hline, kind, hkind⟩
  cases line with
  | nil => exact absurd rfl hline.1
  | cons c rest =>
    by_cases hdigit : isDigit c = true
    · have hdates :
          Line.readHead (c :: (rest ++ run)) r'.year = Line.readHead (c :: rest) r.year := by
        rw [← List.cons_append, Line.readHead_append hblank, h.year]
      simp only [Reading.unindented, List.cons_append, if_pos hdigit, hdates]
      cases Line.readHead (c :: rest) r.year with
      | ok t => exact h.transaction t (.line n) _ _
      | error fault => exact rfl
    by_cases hmark : [';', '#', '|', '*', '%'].contains c = true
    · simp only [Reading.unindented, List.cons_append, if_neg hdigit, if_pos hmark,
        trim_append_of_blank hblank rest]
      exact h.emit _ _
    · exact h.unindented_word hblank hκ hdigit hmark hdirective

/-! ## All lines -/

/-- The lines differ only in blanks: in those behind them, or in those before them if they are
indented. Where faults are told apart there are no more blanks behind the one than the other. -/
inductive SameLine (κ : LineFault → γ) (line : List Char) : List Char → Prop where
  | padded {run : List Char} (hblank : ∀ c ∈ run, isBlank c = true)
      (hκ : run = [] ∨ ∀ fault fault', κ fault = κ fault') : SameLine κ line (line ++ run)
  | indented {line' : List Char} (h : Line.Indented line) (h' : Line.Indented line')
      (htrim : trim line' = trim line) : SameLine κ line line'

/-- A line that is not indented and has a fault is skipped, with the indented ones behind it. -/
theorem Alike.orSkipped (h : Alike κ r r') {result result' : Line.Result Reading} :
    Result.Rel (Alike κ) (fun fault fault' => κ fault' = κ fault) result result' →
      ∀ text text' : String, Alike κ
        (match result with
          | .ok s => s
          | .error fault => { r with block := .skipped }.report fault n text)
        (match result' with
          | .ok s => s
          | .error fault => { r' with block := .skipped }.report fault n text') := by
  intro hresult text text'
  cases result with
  | ok s =>
    cases result' with
    | ok s' => exact hresult
    | error fault' => exact hresult.elim
  | error fault =>
    cases result' with
    | ok s' => exact hresult.elim
    | error fault' => exact (h.withBlock rfl rfl).report hresult n _ _

theorem SameLine.refl (line : List Char) : SameLine κ line line := by
  have hsame : SameLine κ line (line ++ []) :=
    .padded (fun _ hc => absurd hc List.not_mem_nil) (.inl rfl)
  rwa [List.append_nil] at hsame

theorem Alike.step (h : Alike κ r r') (hline : SameLine κ line line')
    (hopens : ¬ Line.OpensVerbatim line) : Alike κ (r.step n line) (r'.step n line') := by
  rw [step_of_read h.read, step_of_read h.read']
  cases hline with
  | indented hline hline' htrim =>
    rw [if_neg hline.1, if_neg hline'.1, if_pos hline.2, if_pos hline'.2]
    exact h.indented htrim
  | @padded run hblank hκ =>
    have htrim := trim_append_of_blank hblank line
    rw [htrim]
    by_cases hempty : trim line = []
    · rw [if_pos hempty, if_pos hempty]
      exact h.close
    have hne : line ≠ [] := by
      rintro rfl
      exact hempty rfl
    have hhead : (line ++ run).head? = line.head? := List.head?_append_of_ne_nil _ hne
    rw [if_neg hempty, if_neg hempty, hhead]
    by_cases hspacing : line.head?.any isSpacing = true
    · rw [if_pos hspacing, if_pos hspacing]
      exact h.indented htrim
    rw [if_neg hspacing, if_neg hspacing]
    exact h.close.orSkipped
      (h.close.unindented hblank hκ ⟨hempty, by simpa using hspacing⟩ hopens) _ _

theorem unindented_of_opensVerbatim (h : Line.OpensVerbatim line) (r : Reading) :
    r.unindented n line = r.directive n line := by
  obtain ⟨hline, kind, hkind⟩ := h
  cases line with
  | nil => rfl
  | cons c rest =>
    have hword : Line.keyword (c :: rest) = kind.keyword.toList := by
      rw [← hkind, String.toList_ofList]
    have hletter : isDigit c = false ∧ [';', '#', '|', '*', '%'].contains c = false ∧ c ≠ 'P' := by
      cases hblank : isBlank c with
      | true =>
        refine ⟨Bool.eq_false_iff.mpr fun hdigit => ?_, Bool.eq_false_iff.mpr fun hmark => ?_, ?_⟩
        · rw [isBlank_eq_false_of_isDigit hdigit] at hblank
          cases hblank
        · simp only [List.contains_iff_mem, List.mem_cons, List.not_mem_nil, or_false] at hmark
          rcases hmark with rfl | rfl | rfl | rfl | rfl <;> exact absurd hblank (by decide)
        · rintro rfl
          exact absurd hblank (by decide)
      | false =>
        by_cases hc : c = ';'
        · subst hc
          cases kind <;> cases hword
        · have hhead := Line.head?_keyword hblank hc rest
          rw [hword] at hhead
          cases kind <;> cases hhead <;> decide
    exact Reading.unindented_letter hletter r _ rest

theorem directive_of_keyword {kind : Verbatim}
    (h : String.ofList (Line.keyword line) = kind.keyword) (r : Reading) :
    r.directive n line =
      .ok { r with block := .verbatim kind (String.ofList line) [] (.line n) } := by
  rw [Line.keyword] at h
  cases kind <;> simp only [Reading.directive, h] <;> rfl

theorem isVerbatim_step_iff (hread : r.block.isVerbatim = false) :
    (r.step n line).block.isVerbatim = true ↔ Line.OpensVerbatim line := by
  constructor
  · intro hopened
    by_contra hopens
    have halike : Alike (fun _ => ()) r r := .refl hread
    rw [(halike.step (.refl line) hopens).read] at hopened
    cases hopened
  · rintro ⟨hline, kind, hkind⟩
    rw [step_of_read hread, if_neg hline.1, if_neg (by rw [hline.2]; decide)]
    rw [unindented_of_opensVerbatim ⟨hline, kind, hkind⟩]
    cases kind <;> rw [directive_of_keyword hkind] <;> rfl

theorem Alike.steps {lines lines' : List (List Char)} (h : Alike κ r r')
    (hlines : List.Forall₂ (SameLine κ) lines lines')
    (hopens : ∀ line ∈ lines, ¬ Line.OpensVerbatim line) (n : Nat) :
    Alike κ (r.steps n lines) (r'.steps n lines') := by
  induction hlines generalizing r r' n with
  | nil => exact h
  | cons hline _ ih =>
    obtain ⟨hfirst, hrest⟩ := List.forall_mem_cons.mp hopens
    exact ih (h.step hline hfirst) hrest (n + 1)

end Journal.Reading

namespace Journal

variable {γ : Type} {κ : LineFault → γ} {lines lines' : List (List Char)}

/-- Lines that differ only in blanks are read alike. -/
theorem alike_ofLines (year : Int) (h : List.Forall₂ (Reading.SameLine κ) lines lines')
    (hopens : ∀ line ∈ lines, ¬ Line.OpensVerbatim line) :
    (ofLines year lines').directives.map (·.undigested) =
        (ofLines year lines).directives.map (·.undigested) ∧
      (ofLines year lines').faults.map (fun f => (κ f.fault, f.span)) =
        (ofLines year lines).faults.map (fun f => (κ f.fault, f.span)) := by
  have hstart : Reading.Alike κ (.fresh year) (.fresh year) := .refl rfl
  have hsteps := hstart.steps h hopens 1
  have hclose := hsteps.close
  rw [ofLines, ofLines, Reading.finish_of_read hsteps.read, Reading.finish_of_read hsteps.read']
  simp only [List.map_reverse, hclose.directives, hclose.faults, and_self]

/-! ## Digests -/

theorem digestOf_congr
    (h : List.Forall₂ (fun line line' => trimEnd line' = trimEnd line) lines lines') :
    Reading.digestOf lines' = Reading.digestOf lines := by
  have hflat : lines'.flatMap (trimEnd · ++ ['\n']) = lines.flatMap (trimEnd · ++ ['\n']) := by
    induction h with
    | nil => rfl
    | cons hline _ ih => rw [List.flatMap_cons, List.flatMap_cons, hline, ih]
  rw [Reading.digestOf, Reading.digestOf, hflat]

theorem Recorded.withDigest {d : Spanned Directive} (h : Recorded lines d) :
    d.value.withDigest (Reading.digestOf (within lines d.span)) = d.value := by
  obtain ⟨value, span⟩ := d
  cases value with
  | transaction t =>
    obtain ⟨-, -, hdigest⟩ := h t rfl
    rw [← hdigest]
    rfl
  | _ => rfl

theorem Recorded.eq_of_undigested {d d' : Spanned Directive}
    (hlines : List.Forall₂ (fun line line' => trimEnd line' = trimEnd line) lines lines')
    (hd : Recorded lines d) (hd' : Recorded lines' d') (h : d'.undigested = d.undigested) :
    d' = d := by
  obtain ⟨hvalue, hspan⟩ := Spanned.mk.inj h
  have hdigest : Reading.digestOf (within lines' d'.span) =
      Reading.digestOf (within lines d.span) := by
    rw [hspan]
    exact digestOf_congr (List.forall₂_take _ (List.forall₂_drop _ hlines))
  have heq : d'.value = d.value := by
    rw [← hd'.withDigest, ← hd.withDigest, hdigest, ← Directive.withDigest_undigested, hvalue,
      Directive.withDigest_undigested]
  obtain ⟨value, span⟩ := d
  obtain rfl : d'.value = value := heq
  obtain rfl : d'.span = span := hspan
  rfl

theorem eq_of_map_undigested {ds ds' : List (Spanned Directive)}
    (hlines : List.Forall₂ (fun line line' => trimEnd line' = trimEnd line) lines lines')
    (hds : ∀ d ∈ ds, Recorded lines d) (hds' : ∀ d ∈ ds', Recorded lines' d)
    (h : ds'.map (·.undigested) = ds.map (·.undigested)) : ds' = ds := by
  induction ds generalizing ds' with
  | nil => exact List.map_eq_nil_iff.mp h
  | cons d ds ih =>
    cases ds' with
    | nil => cases h
    | cons d' ds' =>
      obtain ⟨hd, hds⟩ := List.forall_mem_cons.mp hds
      obtain ⟨hd', hds'⟩ := List.forall_mem_cons.mp hds'
      obtain ⟨hhead, hrest⟩ := List.cons.inj h
      rw [Recorded.eq_of_undigested hlines hd hd' hhead, ih hds hds' hrest]

/-! ## Texts -/

/-- In a text that opens no block whose lines are not read, blanks say nothing. If there are others
behind any lines, all items are the same and faults are on the same lines. If there are others
before lines that are indented, all is the same but for the digests of transactions. -/
theorem ofText_layout {source : String} (today : Date)
    (hopens : ∀ line ∈ Text.lines source.toList, ¬ Line.OpensVerbatim line) :
    (∀ padded : String,
      List.Forall₂ Line.Extends (Text.lines source.toList) (Text.lines padded.toList) →
        (ofText padded today).directives = (ofText source today).directives ∧
          (ofText padded today).faults.map (·.span) =
            (ofText source today).faults.map (·.span)) ∧
      ∀ indented : String,
        List.Forall₂ Line.Reindents (Text.lines source.toList) (Text.lines indented.toList) →
          (ofText indented today).directives.map (·.undigested) =
              (ofText source today).directives.map (·.undigested) ∧
            (ofText indented today).faults.map (fun f => (f.fault, f.span)) =
              (ofText source today).faults.map (fun f => (f.fault, f.span)) := by
  constructor
  · intro padded hlines
    have hsame : List.Forall₂ (Reading.SameLine fun _ => ()) (Text.lines source.toList)
        (Text.lines padded.toList) := by
      refine hlines.imp ?_
      rintro line _ ⟨run, hblank, rfl⟩
      exact .padded hblank (.inr fun _ _ => rfl)
    have htrimEnd : List.Forall₂ (fun line line' => trimEnd line' = trimEnd line)
        (Text.lines source.toList) (Text.lines padded.toList) := by
      refine hlines.imp ?_
      rintro line _ ⟨run, hblank, rfl⟩
      exact trimEnd_append_of_blank hblank line
    obtain ⟨hdirectives, hfaults⟩ := alike_ofLines today.year hsame hopens
    refine ⟨eq_of_map_undigested htrimEnd (ofLines_recorded _ _) (ofLines_recorded _ _)
      hdirectives, ?_⟩
    have hspans := congrArg (List.map Prod.snd) hfaults
    rw [List.map_map, List.map_map] at hspans
    exact hspans
  · intro indented hlines
    have hsame : List.Forall₂ (Reading.SameLine id) (Text.lines source.toList)
        (Text.lines indented.toList) := by
      refine hlines.imp ?_
      rintro line line' (rfl | ⟨run, run', body, hrun, hrun', hspacing, hbody, rfl, rfl⟩)
      · exact .refl line'
      · obtain ⟨hspaces, hspaces'⟩ := List.forall_mem_append.mp hspacing
        obtain ⟨hindented, htrim⟩ := Line.indented_of_run hrun hspaces hbody
        obtain ⟨hindented', htrim'⟩ := Line.indented_of_run hrun' hspaces' hbody
        exact .indented hindented hindented' (htrim'.trans htrim.symm)
    exact alike_ofLines today.year hsame hopens

theorem ofText_layout_shop :
    let today : Date := ⟨2024, 6, 1, by decide⟩
    let source := "2024/01/02 Shop\n    Food  $5\n    Cash\nP\n"
    let padded := "2024/01/02 Shop \t\n    Food  $5\t\n    Cash\nP \n"
    let indented := "2024/01/02 Shop\n\tFood  $5\n    Cash\nP\n"
    ((∀ line ∈ Text.lines source.toList, ¬ Line.OpensVerbatim line) ∧
      List.Forall₂ Line.Extends (Text.lines source.toList) (Text.lines padded.toList) ∧
      List.Forall₂ Line.Reindents (Text.lines source.toList) (Text.lines indented.toList)) ∧
    ((ofText padded today).directives = (ofText source today).directives ∧
      (ofText padded today).faults.map (·.span) = (ofText source today).faults.map (·.span)) ∧
    (ofText indented today).directives.map (·.undigested) =
        (ofText source today).directives.map (·.undigested) ∧
      (ofText indented today).faults.map (fun f => (f.fault, f.span)) =
        (ofText source today).faults.map (fun f => (f.fault, f.span)) := by
  intro today source padded indented
  have hopens : ∀ line ∈ Text.lines source.toList, ¬ Line.OpensVerbatim line := by decide +kernel
  have hsource : Text.lines source.toList = ["2024/01/02 Shop".toList, "    Food  $5".toList,
      "    Cash".toList, "P".toList] := by decide +kernel
  have hpadded : Text.lines padded.toList = ["2024/01/02 Shop \t".toList,
      "    Food  $5\t".toList, "    Cash".toList, "P ".toList] := by decide +kernel
  have hindented : Text.lines indented.toList = ["2024/01/02 Shop".toList, "\tFood  $5".toList,
      "    Cash".toList, "P".toList] := by decide +kernel
  have hextends : List.Forall₂ Line.Extends (Text.lines source.toList)
      (Text.lines padded.toList) := by
    rw [hsource, hpadded]
    exact .cons ⟨" \t".toList, List.all_eq_true.mp (by decide), rfl⟩
      (.cons ⟨"\t".toList, List.all_eq_true.mp (by decide), rfl⟩
        (.cons ⟨[], nofun, rfl⟩ (.cons ⟨" ".toList, List.all_eq_true.mp (by decide), rfl⟩ .nil)))
  have hreindents : List.Forall₂ Line.Reindents (Text.lines source.toList)
      (Text.lines indented.toList) := by
    rw [hsource, hindented]
    have hfood : Line.Reindents "    Food  $5".toList "\tFood  $5".toList :=
      .inr ⟨"    ".toList, "\t".toList, "Food  $5".toList, by decide, by decide,
        List.all_eq_true.mp (by decide), by decide, rfl, rfl⟩
    exact .cons (.inl rfl) (.cons hfood (.cons (.inl rfl) (.cons (.inl rfl) .nil)))
  obtain ⟨hlayout, hlayout'⟩ := ofText_layout today hopens
  exact ⟨⟨hopens, hextends, hreindents⟩, hlayout padded hextends, hlayout' indented hreindents⟩

end Journal

end Daybook
