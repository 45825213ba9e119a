import Daybook.Proofs.Journal.Steps

/-!
# Lines further down

Reading the same lines further down, behind other items and faults, gives the same items and faults
with other line numbers (`steps_behind`, `finish_behind`).
-/

namespace Daybook

open Daybook.Text

/-! ## Other line numbers -/

/-- The range of lines, `k` lines further down. -/
def Span.shift (k : Nat) (s : Span) : Span := ⟨s.first + k, s.last + k⟩

/-- The directive, `k` lines further down: a transaction knows its lines. -/
def Directive.shift (k : Nat) : Directive → Directive
  | .transaction t => .transaction { t with lines := (t.lines.1 + k, t.lines.2 + k) }
  | d => d

/-- The item, `k` lines further down. -/
def Spanned.shift (k : Nat) (d : Spanned Directive) : Spanned Directive :=
  ⟨d.value.shift k, d.span.shift k⟩

/-- The fault, `k` lines further down. -/
def JournalFault.shift (k : Nat) (f : JournalFault) : JournalFault :=
  { f with span := f.span.shift k }

/-- The open item, `k` lines further down. -/
def Block.shift (k : Nat) : Block → Block
  | .closed => .closed
  | .skipped => .skipped
  | .transaction t span lines => .transaction t (span.shift k) lines
  | .account d span => .account d (span.shift k)
  | .commodity d span => .commodity d (span.shift k)
  | .payee d span => .payee d (span.shift k)
  | .verbatim kind opening body span => .verbatim kind opening body (span.shift k)

theorem Span.extendTo_shift (k n : Nat) (s : Span) :
    (s.shift k).extendTo (n + k) = (s.extendTo n).shift k := by
  simp only [Span.shift, Span.extendTo, Span.mk.injEq, true_and]
  omega

theorem Directive.shift_eq {d : Directive} (h : ∀ t, d ≠ .transaction t) (k : Nat) :
    d.shift k = d := by
  cases d with
  | transaction t => exact absurd rfl (h t)
  | _ => rfl

namespace Journal

/-- The journal, `k` lines further down. -/
def shift (k : Nat) (j : Journal) : Journal :=
  ⟨j.directives.map (Spanned.shift k), j.faults.map (JournalFault.shift k)⟩

def append (j j' : Journal) : Journal := ⟨j.directives ++ j'.directives, j.faults ++ j'.faults⟩

instance : Append Journal := ⟨append⟩

theorem directives_append (j j' : Journal) :
    (j ++ j').directives = j.directives ++ j'.directives := rfl

namespace Reading

/-- The reading, `k` lines further down, behind other items and faults, the last ones first. -/
def behind (k : Nat) (ds : List (Spanned Directive)) (fs : List JournalFault) (r : Reading) :
    Reading :=
  ⟨r.year, r.block.shift k, r.directives.map (Spanned.shift k) ++ ds,
    r.faults.map (JournalFault.shift k) ++ fs⟩

variable (k : Nat) (ds : List (Spanned Directive)) (fs : List JournalFault) (r : Reading) (n : Nat)
  (line : List Char)

theorem close_behind : (r.behind k ds fs).close = r.close.behind k ds fs := by
  obtain ⟨year, block, directives, faults⟩ := r
  cases block with
  | verbatim kind => cases kind <;> rfl
  | _ => rfl

variable {r} in
theorem continueWith_behind {α : Type} {unchanged : α} {result : Line.Result α}
    {block block' : α → Block} (h : ∀ a, block' a = (block a).shift k) :
    (r.behind k ds fs).continueWith (n + k) line unchanged result block' =
      (r.continueWith n line unchanged result block).behind k ds fs := by
  cases result with
  | ok a => simp [continueWith, behind, h]
  | error fault => simp [continueWith, behind, report, h, JournalFault.shift, Span.shift, Span.line]

theorem indented_behind :
    (r.behind k ds fs).indented (n + k) line = (r.indented n line).behind k ds fs := by
  obtain ⟨year, block, directives, faults⟩ := r
  cases block with
  | closed | skipped | verbatim => rfl
  | _ =>
    refine continueWith_behind k ds fs n line fun a => ?_
    simp [Block.shift, ← Span.extendTo_shift]

theorem directive_behind : (r.behind k ds fs).directive (n + k) line =
    (r.directive n line).map (behind k ds fs) := by
  simp only [directive]
  split
  case h_1 | h_2 | h_3 =>
    cases Line.required _ _ with
    | ok name => rfl
    | error fault => rfl
  case h_4 | h_5 => rfl
  case h_6 =>
    rcases hd : Line.readDirective _ _ with fault | d
    · rfl
    · have htransaction := (Line.readDirective_keyworded hd).ne_transaction
      have hshift := Directive.shift_eq htransaction k
      cases d with
      | transaction t => exact absurd rfl (htransaction t)
      | _ => rfl

theorem unindented_behind : (r.behind k ds fs).unindented (n + k) line =
    (r.unindented n line).map (behind k ds fs) := by
  have hyear : (r.behind k ds fs).year = r.year := rfl
  unfold unindented
  cases line with
  | nil => exact directive_behind k ds fs r n []
  | cons c rest =>
    dsimp only
    rw [hyear]
    by_cases hdigit : isDigit c = true
    · rw [if_pos hdigit, if_pos hdigit]
      cases Line.readHead (c :: rest) r.year <;> rfl
    rw [if_neg hdigit, if_neg hdigit]
    by_cases hmark : [';', '#', '|', '*', '%'].contains c = true
    · rw [if_pos hmark, if_pos hmark]
      rfl
    rw [if_neg hmark, if_neg hmark]
    split
    · cases Line.readPrice rest r.year <;> rfl
    · exact directive_behind k ds fs r n (c :: rest)

theorem isVerbatim_behind : (r.behind k ds fs).block.isVerbatim = r.block.isVerbatim := by
  obtain ⟨year, block, directives, faults⟩ := r
  cases block <;> rfl

theorem step_behind :
    (r.behind k ds fs).step (n + k) line = (r.step n line).behind k ds fs := by
  have hkept := isVerbatim_behind k ds fs r
  cases hblock : r.block.isVerbatim with
  | true =>
    obtain ⟨kind, opening, body, span, hverbatim⟩ := Block.isVerbatim_iff.mp hblock
    have hbehind : (r.behind k ds fs).block = .verbatim kind opening body (span.shift k) :=
      congrArg (Block.shift k) hverbatim
    rw [step_of_verbatim hverbatim, step_of_verbatim hbehind, Span.extendTo_shift]
    split
    · rw [← close_behind]
      rfl
    · rfl
  | false =>
    rw [step_of_read hblock, step_of_read (hkept.trans hblock), close_behind, indented_behind,
      unindented_behind]
    split
    · rfl
    split
    · rfl
    · cases r.close.unindented n line <;> rfl

theorem steps_behind (lines : List (List Char)) :
    (r.behind k ds fs).steps (n + k) lines = (r.steps n lines).behind k ds fs := by
  induction lines generalizing r n with
  | nil => rfl
  | cons line rest ih =>
    rw [steps, steps, step_behind, Nat.add_right_comm, ih]

theorem finish_behind :
    (r.behind k ds fs).finish = (⟨ds.reverse, fs.reverse⟩ : Journal) ++ r.finish.shift k := by
  have hkept := isVerbatim_behind k ds fs r
  change _ = (⟨ds.reverse ++ (r.finish.shift k).directives,
    fs.reverse ++ (r.finish.shift k).faults⟩ : Journal)
  cases hblock : r.block.isVerbatim with
  | true =>
    obtain ⟨kind, opening, body, span, hverbatim⟩ := Block.isVerbatim_iff.mp hblock
    have hbehind : (r.behind k ds fs).block = .verbatim kind opening body (span.shift k) :=
      congrArg (Block.shift k) hverbatim
    rw [finish_of_verbatim hverbatim, finish_of_verbatim hbehind]
    simp [behind, shift, JournalFault.shift, Span.shift, Span.line]
  | false =>
    rw [finish_of_read hblock, finish_of_read (hkept.trans hblock), close_behind]
    simp [behind, shift]

end Reading

end Journal

end Daybook
