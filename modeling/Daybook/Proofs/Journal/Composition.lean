import Daybook.Proofs.Journal.Shift
import Daybook.Proofs.Text.Lines

/-!
# Texts one behind the other

All that reading hands on from one item to the next is the year in force. Main statement: the journal
of two texts, one behind the other, is that of the first and, further down, that of the second, which
is read with the year that the first one leaves in force (`ofText_append`). The digest of a
transaction is that of the lines that it covers, wherever they stand (`ofLines_recorded`).
-/

namespace Daybook

open Daybook.Text

theorem Block.value_of_item? {b : Block} {d : Spanned Directive} (h : d ∈ b.item?) :
    (∀ n, d.value ≠ .year n) ∧ ∀ path, d.value ≠ .includeFile path := by
  cases b with
  | closed | skipped => cases h
  | verbatim kind =>
    obtain rfl := Option.some.inj h
    cases kind <;> exact ⟨nofun, nofun⟩
  | _ =>
    obtain rfl := Option.some.inj h
    exact ⟨nofun, nofun⟩

namespace Journal

/-- The year in force after the items, where `year` is in force before them. -/
def yearAfter (year : Int) (ds : List (Spanned Directive)) : Int :=
  ds.foldl (fun year d => match d.value with | .year n => n | _ => year) year

/-- Before the first line, with the year in force. -/
def Reading.fresh (year : Int) : Reading := ⟨year, .closed, [], []⟩

/-- The journal that the lines write, where `year` is in force before them. -/
def ofLines (year : Int) (lines : List (List Char)) : Journal :=
  ((Reading.fresh year).steps 1 lines).finish

/-- A block whose lines are not read is reported as never closed. -/
def EndsUnclosed (j : Journal) : Prop :=
  ∃ f ∈ j.faults, ∃ keyword, f.fault = .unterminatedBlock keyword

/-- The lines from the first to the last one of the range. -/
def within (lines : List (List Char)) (span : Span) : List (List Char) :=
  (lines.drop (span.first - 1)).take span.size

/-- A transaction knows the lines that it covers, and its digest is that of these lines. -/
def Recorded (lines : List (List Char)) (d : Spanned Directive) : Prop :=
  ∀ t, d.value = .transaction t →
    (1 ≤ d.span.first ∧ d.span.first ≤ d.span.last ∧ d.span.last ≤ lines.length) ∧
      t.lines = (d.span.first, d.span.last) ∧
      t.digest = Reading.digestOf (within lines d.span)

theorem not_endsUnclosed_of_faults {j : Journal} (h : j.faults = []) : ¬ j.EndsUnclosed := by
  rintro ⟨f, hf, -⟩
  rw [h] at hf
  cases hf

theorem yearAfter_append (year : Int) (ds ds' : List (Spanned Directive)) :
    yearAfter year (ds ++ ds') = yearAfter (yearAfter year ds) ds' := List.foldl_append

theorem yearAfter_singleton {d : Spanned Directive} (h : ∀ n, d.value ≠ .year n) (year : Int) :
    yearAfter year [d] = year := by
  simp only [yearAfter, List.foldl_cons, List.foldl_nil]

theorem within_append {lines : List (List Char)} {span : Span} (hfirst : 1 ≤ span.first)
    (hspan : span.first ≤ span.last) (hlast : span.last ≤ lines.length)
    (rest : List (List Char)) : within (lines ++ rest) span = within lines span := by
  have hdrop : span.first - 1 ≤ lines.length := by omega
  have htake : span.size ≤ (lines.drop (span.first - 1)).length := by
    rw [Span.size, List.length_drop]
    omega
  rw [within, List.drop_append_of_le_length hdrop, List.take_append_of_le_length htake, within]

theorem recorded_of_ne {lines : List (List Char)} {d : Spanned Directive}
    (h : ∀ t, d.value ≠ .transaction t) : Recorded lines d := fun t ht => absurd ht (h t)

theorem Recorded.append {lines : List (List Char)} {d : Spanned Directive} (h : Recorded lines d)
    (rest : List (List Char)) : Recorded (lines ++ rest) d := by
  intro t ht
  obtain ⟨⟨hfirst, hspan, hlast⟩, hlines, hdigest⟩ := h t ht
  refine ⟨⟨hfirst, hspan, ?_⟩, hlines, ?_⟩
  · rw [List.length_append]
    omega
  · rw [within_append hfirst hspan hlast, hdigest]

namespace Reading

variable {r r' : Reading} {n : Nat} {line : List Char} {year : Int} {lines : List (List Char)}

/-! ## The year in force -/

/-- The year in force is that of the items so far. -/
def Dated (year : Int) (r : Reading) : Prop := r.year = yearAfter year r.directives.reverse

theorem Dated.emit (h : Dated year r) {d : Directive} (hd : ∀ n, d ≠ .year n) (span : Span) :
    Dated year (r.emit d span) := by
  have hyear : r.year = yearAfter year r.directives.reverse := h
  change r.year = yearAfter year (⟨d, span⟩ :: r.directives).reverse
  rw [List.reverse_cons, yearAfter_append, yearAfter_singleton hd, hyear]

theorem Dated.close (h : Dated year r) : Dated year r.close := by
  have hyear : r.year = yearAfter year r.directives.reverse := h
  rw [close_eq]
  change r.year = yearAfter year (r.block.item?.toList ++ r.directives).reverse
  cases hitem : r.block.item? with
  | none => exact h
  | some d =>
    rw [Option.toList_some, List.singleton_append, List.reverse_cons, yearAfter_append,
      yearAfter_singleton (Block.value_of_item? hitem).1, hyear]

theorem Step.dated_in (h : Step r n line r') (hr : Dated year r) : Dated year r' := by
  cases h with
  | unread | stray | passed | continued | refused => exact hr
  | ended hblock _ =>
    refine Dated.close ?_
    exact hr
  | blank => exact hr.close
  | opened | failed => exact hr.close
  | emitted _ _ _ hyear => exact hr.close.emit hyear _
  | dated =>
    change _ = yearAfter year (⟨_, _⟩ :: r.close.directives).reverse
    rw [List.reverse_cons, yearAfter_append]
    rfl

theorem dated_steps (year : Int) (lines : List (List Char)) :
    Dated year ((fresh year).steps 1 lines) := by
  refine steps_induction (P := fun _ r => Dated year r) ?_ ?_ lines
  · intro _ _ _ _ hr hstep
    exact hstep.dated_in hr
  · rfl

theorem Dated.finish (h : Dated year r) : r.year = yearAfter year r.finish.directives := by
  have hyear : r.close.year = r.year := by rw [close_eq]
  rcases r.finish_directives with hitems | hitems <;> rw [hitems]
  · exact h
  · exact hyear.symm.trans h.close

/-! ## Digests -/

/-- An open transaction reaches to the last line and has kept the lines that it covers. -/
def Kept (lines : List (List Char)) : Block → Prop
  | .transaction _ span kept =>
    (1 ≤ span.first ∧ span.first ≤ span.last ∧ span.last = lines.length) ∧
      kept.reverse = lines.drop (span.first - 1)
  | _ => True

theorem Kept.continues {b b' : Block} (h : Kept lines b)
    (hb : b.Continues (lines.length + 1) line b') : Kept (lines ++ [line]) b' := by
  cases hb with
  | transaction t t' span kept =>
    obtain ⟨⟨hfirst, hspan, hlast⟩, hkept⟩ := h
    refine ⟨⟨hfirst, ?_, ?_⟩, ?_⟩
    · exact Nat.le_trans hspan (Nat.le_max_left _ _)
    · rw [List.length_append]
      exact Nat.max_eq_right (by omega)
    · change (line :: kept).reverse = (lines ++ [line]).drop (span.first - 1)
      rw [List.reverse_cons, hkept, List.drop_append_of_le_length (by omega)]
  | account | commodity | payee => trivial

theorem Kept.opens {b : Block} (hb : b.Opens (lines.length + 1) line) :
    Kept (lines ++ [line]) b := by
  cases hb with
  | transaction t =>
    refine ⟨⟨Nat.succ_le_succ (Nat.zero_le _), Nat.le_refl _, ?_⟩, ?_⟩
    · simp [Span.line]
    · simp [Span.line]
  | account | commodity | payee | verbatim => trivial

theorem Kept.item {b : Block} (h : Kept lines b) {d : Spanned Directive} (hd : d ∈ b.item?) :
    Recorded lines d := by
  cases b with
  | transaction t span kept =>
    obtain ⟨⟨hfirst, hspan, hlast⟩, hkept⟩ := h
    obtain rfl := Option.some.inj hd
    rintro _ ⟨rfl⟩
    refine ⟨⟨hfirst, hspan, Nat.le_of_eq hlast⟩, rfl, ?_⟩
    have hsize : (lines.drop (span.first - 1)).length ≤ span.size := by
      rw [Span.size, List.length_drop]
      omega
    change digestOf kept.reverse = digestOf (within lines span)
    rw [hkept, within, List.take_of_length_le hsize]
  | closed | skipped => cases hd
  | verbatim kind =>
    obtain rfl := Option.some.inj hd
    refine recorded_of_ne ?_
    cases kind <;> simp [Verbatim.directive]
  | account | commodity | payee =>
    obtain rfl := Option.some.inj hd
    exact recorded_of_ne (by simp)

/-- The transactions so far know their lines, and an open one has kept its own. -/
def Records (lines : List (List Char)) (r : Reading) : Prop :=
  (∀ d ∈ r.directives, Recorded lines d) ∧ Kept lines r.block

theorem Records.close (h : Records lines r) : ∀ d ∈ r.close.directives, Recorded lines d := by
  intro d hd
  rw [close_eq] at hd
  rcases List.mem_append.mp hd with hd | hd
  · exact h.2.item (Option.mem_toList.mp hd)
  · exact h.1 d hd

theorem Step.records (h : Step r (lines.length + 1) line r') (hr : Records lines r) :
    Records (lines ++ [line]) r' := by
  have hdone : ∀ d ∈ r.directives, Recorded (lines ++ [line]) d :=
    fun d hd => (hr.1 d hd).append [line]
  have hclose : ∀ d ∈ r.close.directives, Recorded (lines ++ [line]) d :=
    fun d hd => (hr.close d hd).append [line]
  have hclosed : Kept (lines ++ [line]) r.close.block := by
    rw [close_eq]
    trivial
  cases h with
  | unread => exact ⟨hdone, trivial⟩
  | ended => exact ⟨Records.close ⟨hdone, trivial⟩, by rw [close_eq]; trivial⟩
  | blank => exact ⟨hclose, hclosed⟩
  | stray hblock _ | passed hblock _ => exact ⟨hdone, by simp only [report, hblock, Kept]⟩
  | continued hblock _ | refused hblock _ => exact ⟨hdone, hr.2.continues hblock⟩
  | opened _ _ hopens => exact ⟨hclose, Kept.opens hopens⟩
  | emitted _ _ htransaction _ =>
    exact ⟨List.forall_mem_cons.mpr ⟨recorded_of_ne htransaction, hclose⟩, hclosed⟩
  | dated =>
    exact ⟨List.forall_mem_cons.mpr ⟨recorded_of_ne (by simp), hclose⟩, hclosed⟩
  | failed => exact ⟨hclose, trivial⟩

theorem records_steps (year : Int) (lines : List (List Char)) :
    Records lines ((fresh year).steps 1 lines) := by
  refine steps_induction (P := Records) ?_ ?_ lines
  · intro _ _ _ _ hr hstep
    exact hstep.records hr
  · exact ⟨fun _ hd => absurd hd List.not_mem_nil, trivial⟩

/-! ## Lines behind lines -/

theorem finish_steps_close (hblock : r.block.isVerbatim = false)
    (hhead : ∀ line ∈ lines.head?, ¬ Line.Indented line) (n : Nat) :
    (r.close.steps n lines).finish = (r.steps n lines).finish := by
  have hclosed : r.close.block.isVerbatim = false := by
    rw [close_eq]
    rfl
  have hclose : r.close.close = r.close := by
    rw [close_eq r, close_eq]
    rfl
  cases lines with
  | nil =>
    change r.close.finish = r.finish
    rw [finish_of_read hblock, finish_of_read hclosed, hclose]
  | cons line rest =>
    have hstep : r.close.step n line = r.step n line := by
      rw [step_of_read hblock, step_of_read hclosed, hclose]
      by_cases hblank : trim line = []
      · rw [if_pos hblank, if_pos hblank]
      · have hunindented : ¬ line.head?.any isSpacing = true :=
          fun hspacing => hhead line rfl ⟨hblank, hspacing⟩
        rw [if_neg hblank, if_neg hblank, if_neg hunindented, if_neg hunindented]
    rw [steps, steps, hstep]

theorem finish_steps_of_closed (hblock : r.block = .closed) (n : Nat)
    (lines : List (List Char)) : (r.steps (1 + n) lines).finish =
      (⟨r.directives.reverse, r.faults.reverse⟩ : Journal) ++ (ofLines r.year lines).shift n := by
  have hbehind : r = (fresh r.year).behind n r.directives r.faults := by
    obtain ⟨year, block, directives, faults⟩ := r
    cases hblock
    rfl
  rw [congrArg (fun r : Reading => r.steps (1 + n) lines) hbehind, steps_behind, finish_behind]
  rfl

end Reading

theorem isVerbatim_of_not_endsUnclosed {r : Reading} (h : ¬ r.finish.EndsUnclosed) :
    r.block.isVerbatim = false := by
  cases hblock : r.block.isVerbatim with
  | false => rfl
  | true =>
    obtain ⟨kind, opening, body, span, hverbatim⟩ := Block.isVerbatim_iff.mp hblock
    refine absurd ⟨⟨.unterminatedBlock kind.keyword, .line span.first, opening⟩, ?_, _, rfl⟩ h
    rw [Reading.finish_of_verbatim hverbatim]
    exact List.mem_append_right _ List.mem_cons_self

/-- Lines behind others are read on their own, with the year that the others leave in force. -/
theorem ofLines_append {year : Int} {a b : List (List Char)} (ha : ¬ (ofLines year a).EndsUnclosed)
    (hb : ∀ line ∈ b.head?, ¬ Line.Indented line) :
    ofLines year (a ++ b) = ofLines year a ++
      (ofLines (yearAfter year (ofLines year a).directives) b).shift a.length := by
  generalize hr : (Reading.fresh year).steps 1 a = r
  have hfinish : ofLines year a = r.finish := congrArg Reading.finish hr
  have hblock : r.block.isVerbatim = false := isVerbatim_of_not_endsUnclosed (hfinish ▸ ha)
  have hdated : r.year = yearAfter year r.finish.directives :=
    (hr ▸ Reading.dated_steps year a : r.Dated year).finish
  have hyear : r.close.year = r.year := by rw [Reading.close_eq]
  calc ofLines year (a ++ b)
      = (r.steps (1 + a.length) b).finish := by rw [ofLines, Reading.steps_append, hr]
    _ = (r.close.steps (1 + a.length) b).finish := (Reading.finish_steps_close hblock hb _).symm
    _ = r.finish ++ (ofLines r.close.year b).shift a.length := by
      rw [Reading.finish_of_read hblock]
      exact Reading.finish_steps_of_closed (congrArg Reading.block r.close_eq) _ _
    _ = _ := by rw [hyear, hdated, hfinish]

theorem ofLines_recorded (year : Int) (lines : List (List Char)) :
    ∀ d ∈ (ofLines year lines).directives, Recorded lines d := by
  have hrecords := Reading.records_steps year lines
  rcases ((Reading.fresh year).steps 1 lines).finish_directives with hitems | hitems <;>
    rw [ofLines, hitems]
  · exact fun d hd => hrecords.1 d (List.mem_reverse.mp hd)
  · exact fun d hd => hrecords.close d (List.mem_reverse.mp hd)

/-! ## Texts behind texts -/

theorem ofText_eq (source : String) (today : Date) :
    ofText source today = ofLines today.year (lines source.toList) := rfl

/-- The journal of two texts, one behind the other. The first one is made of whole lines and leaves no
block open that would take in the lines behind it; the second one does not go on with an item of the
first. -/
theorem ofText_append {a b : String} {today today' : Date} (ha : WholeLines a.toList)
    (hclosed : ¬ (ofText a today).EndsUnclosed)
    (hb : ∀ line ∈ (lines b.toList).head?, ¬ Line.Indented line)
    (hyear : today'.year = yearAfter today.year (ofText a today).directives) :
    ofText (a ++ b) today =
        ofText a today ++ (ofText b today').shift (lines a.toList).length ∧
      ∀ d ∈ (ofText (a ++ b) today).directives, Recorded (lines (a ++ b).toList) d := by
  rw [ofText_eq] at hclosed hyear
  refine ⟨?_, ofLines_recorded _ _⟩
  rw [ofText_eq, String.toList_append, lines_append ha, ofLines_append hclosed hb, ← hyear]
  rfl

/-- A transaction at the end of the first text, in a year that the first text sets. -/
theorem ofText_append_dated :
    let a := "year 2011\n01/02 Rent\n    Home  $5\n    Cash\n"
    let b := "01/15 Tea\n    Food  $2\n    Cash\n"
    let today : Date := ⟨2024, 6, 1, by decide⟩
    let today' : Date := ⟨2011, 1, 1, by decide⟩
    WholeLines a.toList ∧ ¬ (ofText a today).EndsUnclosed ∧
      (∀ line ∈ (lines b.toList).head?, ¬ Line.Indented line) ∧
      today'.year = yearAfter today.year (ofText a today).directives ∧
      ofText (a ++ b) today =
        ofText a today ++ (ofText b today').shift (lines a.toList).length ∧
      ∀ d ∈ (ofText (a ++ b) today).directives, Recorded (lines (a ++ b).toList) d := by
  intro a b today today'
  have ha : WholeLines a.toList := by decide +kernel
  have hclosed : ¬ (ofText a today).EndsUnclosed :=
    not_endsUnclosed_of_faults (by decide +kernel)
  have hb : ∀ line ∈ (lines b.toList).head?, ¬ Line.Indented line := by decide +kernel
  have hyear : today'.year = yearAfter today.year (ofText a today).directives := by
    decide +kernel
  exact ⟨ha, hclosed, hb, hyear, ofText_append ha hclosed hb hyear⟩

end Journal

end Daybook
