import Daybook.Proofs.Journal.Coverage
import Daybook.Proofs.Journal.Layout

/-!
# Lines that announce prices

The lines of a test or of a long comment are not read. Main statement: where no line has a fault, the
prices of a journal are as many as the lines that are read and announce one
(`countP_isPrice_ofLines`).
-/

namespace Daybook

open Daybook.Text

namespace Line

/-- The block whose lines are not read that the line opens. -/
def opened? (line : List Char) : Option Verbatim :=
  [Verbatim.test, .comment].find? fun kind =>
    Unindented line ∧ String.ofList (keyword line) = kind.keyword

/-- The lines that are read. `unread` is the block that the first of the lines stands in if that one
is not read; the line that ends the block is not read either. -/
def readAmong : (unread : Option Verbatim) → List (List Char) → List (List Char)
  | _, [] => []
  | some kind, line :: rest => readAmong (if trim line = kind.ending then none else some kind) rest
  | none, line :: rest => line :: readAmong (opened? line) rest

variable {line : List Char}

theorem opened?_eq_some {kind : Verbatim} (hline : Unindented line)
    (h : String.ofList (keyword line) = kind.keyword) : opened? line = some kind := by
  cases kind <;> simp [opened?, hline, h, Verbatim.keyword]

theorem opened?_eq_none (h : ¬OpensVerbatim line) : opened? line = none := by
  refine List.find?_eq_none.mpr fun kind _ hkind => h ?_
  obtain ⟨hline, hkeyword⟩ := of_decide_eq_true hkind
  exact ⟨hline, kind, hkeyword⟩

theorem announcesPrice_of_blank (h : trim line = []) : announcesPrice line = false := by
  cases line with
  | nil => rfl
  | cons c rest =>
    refine announcesPrice_of_ne ?_ rest
    rintro rfl
    exact (unindented_cons (by decide) rest).1 h

theorem announcesPrice_of_indented (h : Indented line) : announcesPrice line = false := by
  cases line with
  | nil => rfl
  | cons c rest =>
    refine announcesPrice_of_ne ?_ rest
    rintro rfl
    exact Bool.false_ne_true h.2

end Line

def Block.unread? : Block → Option Verbatim
  | .verbatim kind .. => some kind
  | _ => none

namespace Journal

/-- The number of prices among the items. -/
def priceCount (ds : List (Spanned Directive)) : Nat := ds.countP (·.value.isPrice)

namespace Reading

variable {r r' : Reading} {n : Nat} {line : List Char}

theorem priceCount_close (r : Reading) :
    priceCount r.close.directives = priceCount r.directives := by
  have hitem : priceCount r.block.item?.toList = 0 := by
    cases r.block with
    | verbatim kind => cases kind <;> rfl
    | _ => rfl
  rw [close_eq, priceCount, List.countP_append]
  exact (congrArg (· + _) hitem).trans (Nat.zero_add _)

theorem priceCount_emit (r : Reading) (d : Directive) (span : Span) :
    priceCount (r.close.emit d span).directives =
      priceCount r.directives + d.isPrice.toNat := by
  rw [← priceCount_close r]
  exact List.countP_cons.trans (by cases d.isPrice <;> rfl)

theorem Step.priceCount (h : Step r n line r') (hfaults : r'.faults = []) :
    priceCount r'.directives = priceCount r.directives +
      (!r.block.isVerbatim && Line.announcesPrice line).toNat := by
  cases h with
  | unread hblock => rw [hblock]; rfl
  | ended hblock =>
    rw [priceCount_close, hblock]
    rfl
  | blank hblock hline => rw [priceCount_close, hblock, Line.announcesPrice_of_blank hline]; rfl
  | stray | refused | failed => cases hfaults
  | passed hblock hline | continued hblock hline =>
    rw [Line.announcesPrice_of_indented hline, Bool.and_false]
    rfl
  | opened hblock _ _ hprice =>
    rw [hblock, hprice]
    exact priceCount_close r
  | emitted hblock _ _ _ hprice =>
    rw [priceCount_emit, hblock, hprice]
    rfl
  | dated hblock _ _ hprice =>
    rw [hblock, hprice]
    exact priceCount_emit r _ _

theorem unread?_step (hread : r.block.isVerbatim = false) :
    (r.step n line).block.unread? = Line.opened? line := by
  by_cases hopens : Line.OpensVerbatim line
  · obtain ⟨hline, kind, hkind⟩ := hopens
    rw [step_of_unindented hread hline, unindented_of_opensVerbatim ⟨hline, kind, hkind⟩,
      directive_of_keyword hkind, Line.opened?_eq_some hline hkind]
    rfl
  · have hblock := mt (isVerbatim_step_iff hread (n := n)).mp hopens
    rw [Line.opened?_eq_none hopens]
    cases hafter : (r.step n line).block with
    | verbatim => exact absurd (by rw [hafter]; rfl) hblock
    | _ => rfl

theorem faults_steps_mono {lines : List (List Char)} (h : (r.steps n lines).finish.faults = []) :
    r.faults = [] := by
  induction lines generalizing r n with
  | nil =>
    cases hread : r.block.isVerbatim with
    | true =>
      obtain ⟨kind, opening, body, span, hblock⟩ := Block.isVerbatim_iff.mp hread
      rw [steps, finish_of_verbatim hblock] at h
      simp at h
    | false =>
      rw [steps, finish_of_read hread, faults_close] at h
      exact List.reverse_eq_nil_iff.mp h
  | cons line rest ih =>
    rcases (step_moves r n line).faults with hfaults | ⟨fault, hfaults⟩
    · rw [← hfaults]
      exact ih h
    · rw [ih h] at hfaults
      cases hfaults

theorem priceCount_finish (r : Reading) :
    priceCount r.finish.directives = priceCount r.directives := by
  have hreverse : ∀ ds : List (Spanned Directive), priceCount ds.reverse = priceCount ds :=
    fun ds => List.countP_reverse
  rcases r.finish_directives with hitems | hitems <;> rw [hitems, hreverse]
  exact priceCount_close r

theorem priceCount_steps {lines : List (List Char)} (h : (r.steps n lines).finish.faults = []) :
    priceCount (r.steps n lines).finish.directives =
      priceCount r.directives + (Line.readAmong r.block.unread? lines).countP Line.announcesPrice := by
  induction lines generalizing r n with
  | nil => rw [steps, priceCount_finish, Line.readAmong, List.countP_nil, Nat.add_zero]
  | cons line rest ih =>
    have hstep := (step_moves r n line).priceCount (faults_steps_mono (n := n + 1) h)
    rw [steps, ih h, hstep]
    cases hread : r.block.isVerbatim with
    | true =>
      obtain ⟨kind, opening, body, span, hblock⟩ := Block.isVerbatim_iff.mp hread
      have hafter : (r.step n line).block.unread? =
          if trim line = kind.ending then none else some kind := by
        rw [step_of_verbatim hblock]
        split
        · rw [close_eq]
          rfl
        · rfl
      rw [hafter, hblock]
      rfl
    | false =>
      have hunread : r.block.unread? = none := by
        cases hblock : r.block with
        | verbatim => rw [hblock] at hread; cases hread
        | _ => rfl
      rw [unread?_step hread, hunread, Line.readAmong, List.countP_cons]
      cases Line.announcesPrice line
      · rfl
      · exact Nat.add_right_comm ..

end Reading

/-- Where no line has a fault, each line that is read and announces a price enters one, and no other
line does. -/
theorem countP_isPrice_ofLines {year : Int} {lines : List (List Char)}
    (h : (ofLines year lines).faults = []) :
    (ofLines year lines).directives.countP (·.value.isPrice) =
      (Line.readAmong none lines).countP Line.announcesPrice :=
  (Reading.priceCount_steps h).trans (Nat.zero_add _)

/-- Of two such lines, the one in a long comment is not read. -/
example : let lines := ["comment", "P 1/2 EUR $2", "end comment", "P 1/3 EUR $3"].map String.toList
    (Line.readAmong none lines).countP Line.announcesPrice = 1 ∧
      (ofLines 2024 lines).directives.length = 2 := by
  decide +kernel

end Journal

end Daybook
