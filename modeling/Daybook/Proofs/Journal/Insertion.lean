import Mathlib.Data.List.Induction
import Daybook.Proofs.Journal.Composition
import Daybook.Proofs.Text.Words

/-!
# Text in place of a line

A line that includes a file stands on its own: the lines before it and those behind it are read as if
it were not there (`exists_around_include`). Main statement: text without faults may be written in its
place, if it leaves the year in force that it finds (`ofText_inPlaceOf`). Any text does so between
two lines that set the year (`writes_between_years`).
-/

namespace Daybook

open Daybook.Text

/-- The directive, wherever it stands: a transaction is not asked for its lines. -/
def Directive.unplaced : Directive → Directive
  | .transaction t => .transaction { t with lines := (0, 0) }
  | d => d

theorem Directive.unplaced_shift (d : Directive) (k : Nat) : (d.shift k).unplaced = d.unplaced := by
  cases d <;> rfl

namespace Journal

/-- What the items say, wherever they stand. -/
def values (ds : List (Spanned Directive)) : List Directive := ds.map (·.value.unplaced)

theorem values_append (ds ds' : List (Spanned Directive)) :
    values (ds ++ ds') = values ds ++ values ds' := List.map_append

theorem values_shift (k : Nat) (ds : List (Spanned Directive)) :
    values (ds.map (Spanned.shift k)) = values ds := by
  simp only [values, List.map_map]
  exact List.map_congr_left fun d _ => d.value.unplaced_shift k

theorem yearAfter_shift (year : Int) (k : Nat) (ds : List (Spanned Directive)) :
    yearAfter year (ds.map (Spanned.shift k)) = yearAfter year ds := by
  induction ds generalizing year with
  | nil => rfl
  | cons d ds ih =>
    have hd : yearAfter year [d.shift k] = yearAfter year [d] := by
      obtain ⟨value, span⟩ := d
      cases value <;> rfl
    rw [List.map_cons, ← List.singleton_append, ← List.singleton_append (l := ds),
      yearAfter_append, yearAfter_append, hd, ih]

/-! ## Lines without faults -/

/-- The lines have no fault and say what the values are; `next` is the year in force after them if
`year` is in force before them. -/
structure Writes (year : Int) (lines : List (List Char)) (said : List Directive) (next : Int) :
    Prop where
  faults : (ofLines year lines).faults = []
  values : values (ofLines year lines).directives = said
  next : yearAfter year (ofLines year lines).directives = next

theorem writes_of_faults {year : Int} {lines : List (List Char)}
    (h : (ofLines year lines).faults = []) :
    Writes year lines (values (ofLines year lines).directives)
      (yearAfter year (ofLines year lines).directives) := ⟨h, rfl, rfl⟩

theorem faults_of_indented {year : Int} {line : List Char} {rest : List (List Char)}
    (h : Line.Indented line) : (ofLines year (line :: rest)).faults ≠ [] := by
  have hstep : (Reading.fresh year).step 1 line =
      ⟨year, .closed, [], [⟨.unexpectedIndent, .line 1, String.ofList line⟩]⟩ := by
    rw [Reading.step_of_read rfl, if_neg h.1, if_pos h.2]
    rfl
  have hsteps := Reading.finish_steps_of_closed (r := ⟨year, .closed, [],
    [⟨.unexpectedIndent, .line 1, String.ofList line⟩]⟩) rfl 1 rest
  rw [ofLines, Reading.steps, hstep, hsteps]
  exact List.append_ne_nil_of_left_ne_nil (by simp) _

theorem Writes.not_indented {year next : Int} {lines : List (List Char)} {said : List Directive}
    (h : Writes year lines said next) : ∀ line ∈ lines.head?, ¬ Line.Indented line := by
  intro line hline hindented
  obtain ⟨rest, rfl⟩ := List.head?_eq_some_iff.mp hline
  exact faults_of_indented hindented h.faults

theorem Writes.append {year next last : Int} {a b : List (List Char)} {said said' : List Directive}
    (ha : Writes year a said next) (hb : Writes next b said' last) :
    Writes year (a ++ b) (said ++ said') last := by
  have hclosed := not_endsUnclosed_of_faults ha.faults
  have happend := ofLines_append hclosed hb.not_indented
  rw [ha.next] at happend
  have hdirectives : (ofLines year (a ++ b)).directives = (ofLines year a).directives ++
      (ofLines next b).directives.map (Spanned.shift a.length) := congrArg Journal.directives happend
  have hfaults : (ofLines year (a ++ b)).faults = (ofLines year a).faults ++
      (ofLines next b).faults.map (JournalFault.shift a.length) := congrArg Journal.faults happend
  refine ⟨?_, ?_, ?_⟩
  · rw [hfaults, ha.faults, hb.faults]
    rfl
  · rw [hdirectives, values_append, values_shift, ha.values, hb.values]
  · rw [hdirectives, yearAfter_append, yearAfter_shift, ha.next, hb.next]

/-! ## Lines that set the year -/

/-- The word that begins a line that sets the year. -/
def yearWord : List Char := ['y', 'e', 'a', 'r']

def yearLine (year : Int) : String := "year " ++ toString year ++ "\n"

/-- Part of a word that no comment follows. -/
def Plain (c : Char) : Prop := isBlank c = false ∧ c ≠ ';'

instance (c : Char) : Decidable (Plain c) := inferInstanceAs (Decidable (_ ∧ _))

theorem Plain.ne_lineFeed {c : Char} (h : Plain c) : decide (c = '\n') = false := by
  refine decide_eq_false ?_
  rintro rfl
  exact absurd h.1 (by decide)

theorem plain_of_all {cs : List Char} (h : cs.all (fun c => decide (Plain c)) = true) :
    ∀ c ∈ cs, Plain c :=
  fun c hc => of_decide_eq_true (List.all_eq_true.mp h c hc)

theorem plain_yearWord : ∀ c ∈ yearWord, Plain c := plain_of_all (by decide)

theorem plain_toString (year : Int) : ∀ c ∈ (toString year).toList, Plain c := by
  intro c hc
  refine ⟨isBlank_eq_false_of_mem_toString hc, ?_⟩
  rintro rfl
  exact absurd (isDigit_or_eq_minus hc) (by decide)

theorem cutComment_word {word arg : List Char} (hword : ∀ c ∈ word, Plain c) (hne : arg ≠ [])
    (harg : trim arg = arg) (hsemicolon : ';' ∉ arg) :
    Line.cutComment (word ++ ' ' :: arg) = (word ++ ' ' :: arg, none) := by
  have hcut : cut? (· = ';') (word ++ ' ' :: arg) = none := by
    refine cut?_eq_none (List.forall_mem_append.mpr ⟨?_, List.forall_mem_cons.mpr ⟨rfl, ?_⟩⟩)
    · exact fun c hc => decide_eq_false (hword c hc).2
    · exact fun c hc => decide_eq_false fun heq => hsemicolon (heq ▸ hc)
  have hend : trimEnd arg = arg := trimEnd_of_trim_eq harg
  have htrim := trimEnd_append_of_ne_nil (hend.symm ▸ hne) (word ++ [' '])
  rw [hend, List.append_assoc, List.singleton_append] at htrim
  rw [Line.cutComment, hcut, htrim]

namespace Reading

variable {r r' : Reading} {n : Nat} {line : List Char} {year : Int}

theorem Step.fits (h : Step r n line r') (hr : fitsInt32 r.year = true) :
    fitsInt32 r'.year = true := by
  have hclose : fitsInt32 r.close.year = true := by
    rw [close_eq]
    exact hr
  cases h with
  | unread | stray | passed | continued | refused => exact hr
  | ended =>
    rw [close_eq]
    exact hr
  | blank | opened | emitted | failed => exact hclose
  | dated _ _ hfits => exact hfits

theorem fits_steps (h : fitsInt32 year = true) (lines : List (List Char)) :
    fitsInt32 ((fresh year).steps 1 lines).year = true := by
  refine steps_induction (P := fun _ r => fitsInt32 r.year = true) ?_ h lines
  intro _ _ _ _ hr hstep
  exact hstep.fits hr

theorem directive_year {cs : List Char} (hne : cs ≠ []) (hcs : ∀ c ∈ cs, Plain c)
    (hyear : readInt32? cs = some year) :
    r.directive n (yearWord ++ ' ' :: cs) =
      .ok ({ r with year }.emit (.year year) (.line n)) := by
  have hblank : ∀ c ∈ cs, isBlank c = false := fun c hc => (hcs c hc).1
  have hcomment := cutComment_word plain_yearWord hne (trim_eq hne hblank)
    fun hmem => (hcs ';' hmem).2 rfl
  have hword : firstWord (yearWord ++ ' ' :: cs) = (yearWord, cs) :=
    firstWord_append (by decide) (fun c hc => (plain_yearWord c hc).1)
      fun c hc => hblank c (List.mem_of_mem_head? hc)
  have hkeyword : String.ofList yearWord = "year" := rfl
  have hread : Line.readDirective "year" cs = .ok (.year year) := by
    simp only [Line.readDirective, Line.readYear, hyear]
  simp only [directive, hcomment, hword, hkeyword, trim_eq hne hblank]
  simp [hread]
  rfl

theorem step_year {cs : List Char} (hne : cs ≠ []) (hcs : ∀ c ∈ cs, Plain c)
    (hyear : readInt32? cs = some year) (hblock : r.block.isVerbatim = false) :
    r.step n (yearWord ++ ' ' :: cs) = { r.close with year }.emit (.year year) (.line n) :=
  step_directive hblock (by decide) (by decide) (directive_year hne hcs hyear)

end Reading

theorem toList_yearLine (year : Int) :
    (yearLine year).toList = (yearWord ++ ' ' :: (toString year).toList) ++ ['\n'] := by
  rw [yearLine, String.toList_append, String.toList_append]
  rfl

theorem wholeLines_yearLine (year : Int) : WholeLines (yearLine year).toList := by
  rw [toList_yearLine]
  exact .inr (List.getLast?_concat ..)

theorem wholeLines_between_years (first last : Int) (text : String) :
    WholeLines (yearLine first ++ text ++ yearLine last).toList := by
  rw [String.toList_append, toList_yearLine last, ← List.append_assoc]
  exact .inr (List.getLast?_concat ..)

theorem lines_yearLine (year : Int) :
    lines (yearLine year).toList = [yearWord ++ ' ' :: (toString year).toList] := by
  have hline : ∀ c ∈ yearWord ++ ' ' :: (toString year).toList, decide (c = '\n') = false := by
    refine List.forall_mem_append.mpr ⟨?_, List.forall_mem_cons.mpr ⟨rfl, ?_⟩⟩
    · exact fun c hc => (plain_yearWord c hc).ne_lineFeed
    · exact fun c hc => (plain_toString year c hc).ne_lineFeed
  have hreturn := dropReturn_append (toString_ne_nil year)
    (fun c hc => (plain_toString year c hc).1) (yearWord ++ [' '])
  rw [List.append_assoc, List.singleton_append] at hreturn
  rw [toList_yearLine, lines_cons hline, hreturn, lines_nil]

theorem writes_yearLine {year : Int} (hfits : fitsInt32 year = true) (before : Int) :
    Writes before (lines (yearLine year).toList) [.year year] year := by
  have hread : ofLines before (lines (yearLine year).toList) =
      ⟨[⟨.year year, .line 1⟩], []⟩ := by
    rw [lines_yearLine, ofLines, Reading.steps, Reading.step_year (toString_ne_nil year)
      (plain_toString year) (readInt32?_toString hfits) rfl]
    rfl
  refine ⟨?_, ?_, ?_⟩ <;> rw [hread] <;> rfl

theorem Writes.fits {year next : Int} {lines : List (List Char)} {said : List Directive}
    (h : Writes year lines said next) (hfits : fitsInt32 year = true) : fitsInt32 next = true := by
  have hdated := (Reading.dated_steps year lines).finish
  rw [← h.next]
  exact hdated ▸ Reading.fits_steps hfits lines

theorem fitsInt32_year (d : Date) : fitsInt32 d.year = true := by
  obtain ⟨⟨hfirst, hlast⟩, -⟩ := d.isDay
  simp only [firstYear, lastYear] at hfirst hlast
  simp only [fitsInt32, Bool.and_eq_true, decide_eq_true_eq]
  omega

/-- Between two lines that set the year, text says what it says on its own. -/
theorem writes_between_years {first last : Int} {text : String} {said : List Directive} {next : Int}
    (hfirst : fitsInt32 first = true) (hlast : fitsInt32 last = true)
    (hwhole : WholeLines text.toList) (h : Writes first (lines text.toList) said next)
    (before : Int) :
    Writes before (lines (yearLine first ++ text ++ yearLine last).toList)
      (.year first :: said ++ [.year last]) last := by
  have hbegin := (writes_yearLine hfirst before).append h
  have hend := hbegin.append (writes_yearLine hlast next)
  rw [String.toList_append, String.toList_append, List.append_assoc,
    lines_append (wholeLines_yearLine first), lines_append hwhole, ← List.append_assoc]
  exact hend

/-! ## A line that includes a file -/

namespace Reading

variable {r r' : Reading} {n : Nat} {line : List Char} {year : Int} {d : Spanned Directive}
  {before : List (Spanned Directive)} {path : String}

theorem suffix_of_close (hd : d.value = .includeFile path)
    (h : d :: before <:+ r.close.directives) : d :: before <:+ r.directives := by
  rw [close_eq] at h
  cases hitem : r.block.item? with
  | none => simpa [hitem] using h
  | some item =>
    rw [hitem] at h
    rcases List.suffix_cons_iff.mp h with heq | hsuffix
    · obtain ⟨rfl, -⟩ := List.cons.inj heq
      exact absurd hd ((Block.value_of_item? hitem).2 path)
    · exact hsuffix

/-- The step that adds a directive that includes a file has ended the item before it, and leaves none
open. -/
theorem Step.includes (h : Step r n line r') (hd : d.value = .includeFile path)
    (hsuffix : d :: before <:+ r'.directives) :
    d :: before <:+ r.directives ∨
      r.block.isVerbatim = false ∧ r.close.directives = before ∧ d.span = .line n ∧
        r' = r.close.emit d.value d.span := by
  cases h with
  | unread | stray | passed | continued | refused => exact .inl hsuffix
  | ended =>
    have hopen := suffix_of_close hd hsuffix
    exact .inl hopen
  | blank | opened | failed => exact .inl (suffix_of_close hd hsuffix)
  | emitted hblock =>
    rcases List.suffix_cons_iff.mp hsuffix with heq | hsuffix
    · obtain ⟨rfl, rfl⟩ := List.cons.inj heq
      exact .inr ⟨hblock, rfl, rfl, rfl⟩
    · exact .inl (suffix_of_close hd hsuffix)
  | dated =>
    rcases List.suffix_cons_iff.mp hsuffix with heq | hsuffix
    · obtain ⟨rfl, -⟩ := List.cons.inj heq
      cases hd
    · exact .inl (suffix_of_close hd hsuffix)

theorem exists_include (hd : d.value = .includeFile path) {lines : List (List Char)}
    (hsuffix : d :: before <:+ ((fresh year).steps 1 lines).directives) :
    ∃ (above : List (List Char)) (line : List Char) (below : List (List Char)) (r : Reading),
      lines = above ++ line :: below ∧ d.span = .line (above.length + 1) ∧
      (fresh year).steps 1 above = r ∧
      r.block.isVerbatim = false ∧ r.close.directives = before ∧
      r.step (above.length + 1) line = r.close.emit d.value d.span := by
  induction lines using List.reverseRecOn with
  | nil => exact absurd (List.suffix_nil.mp hsuffix) (List.cons_ne_nil _ _)
  | append_singleton lines line ih =>
    generalize hr : (Reading.fresh year).steps 1 lines = r at ih
    have hlast : (fresh year).steps 1 (lines ++ [line]) =
        r.step (lines.length + 1) line := by
      rw [steps_append, hr, Nat.add_comm 1]
      rfl
    rw [hlast] at hsuffix
    rcases (step_moves r (lines.length + 1) line).includes hd hsuffix with hbefore | hhere
    · obtain ⟨above, line', below, r', rfl, hrest⟩ := ih hbefore
      exact ⟨above, line', below ++ [line], r', by simp, hrest⟩
    · obtain ⟨hblock, hdirectives, hspan, hstep⟩ := hhere
      exact ⟨lines, line, [], r, rfl, hspan, hr, hblock, hdirectives, hstep⟩

end Reading

/-- Behind a line that adds an item of its own, the other lines are read on their own. -/
theorem ofLines_of_emit {year : Int} {above below : List (List Char)} {line : List Char}
    {r : Reading} {d : Spanned Directive} (hr : (Reading.fresh year).steps 1 above = r)
    (hstep : r.step (above.length + 1) line = r.close.emit d.value d.span) :
    ofLines year (above ++ line :: below) =
      ⟨r.close.directives.reverse ++ [d], r.close.faults.reverse⟩ ++
        (ofLines r.close.year below).shift (above.length + 1) := by
  have hclosed : (r.close.emit d.value d.span).block = .closed := by
    rw [Reading.close_eq]
    rfl
  have hsteps := Reading.finish_steps_of_closed hclosed (above.length + 1) below
  have hdone : (r.close.emit d.value d.span).directives.reverse =
      r.close.directives.reverse ++ [d] := List.reverse_cons
  rw [hdone] at hsteps
  rw [ofLines, Reading.steps_append, hr, Reading.steps, Nat.add_comm 1 above.length, hstep,
    Nat.add_comm (above.length + 1) 1]
  exact hsteps

/-- The lines around one that includes a file are read as if it were not there. -/
theorem exists_around_include {year : Int} {lines : List (List Char)} {d : Spanned Directive}
    {before after : List (Spanned Directive)} {path : String}
    (h : ofLines year lines = ⟨before ++ d :: after, []⟩) (hd : d.value = .includeFile path) :
    ∃ (above : List (List Char)) (line : List Char) (below : List (List Char)) (next : Int),
      lines = above ++ line :: below ∧ d.span = .line (above.length + 1) ∧
      Writes year above (values before) (yearAfter year before) ∧
      Writes (yearAfter year before) below (values after) next := by
  generalize hr : (Reading.fresh year).steps 1 lines = r
  have hfinish : r.finish = ⟨before ++ d :: after, []⟩ := by rw [← hr, ← h, ofLines]
  have hread : r.block.isVerbatim = false :=
    isVerbatim_of_not_endsUnclosed (not_endsUnclosed_of_faults (congrArg Journal.faults hfinish))
  have hclose : r.close.directives = after.reverse ++ d :: before.reverse := by
    rw [Reading.finish_of_read hread] at hfinish
    simpa using congrArg List.reverse (congrArg Journal.directives hfinish)
  have hsuffix : d :: before.reverse <:+ r.directives :=
    Reading.suffix_of_close hd ⟨after.reverse, hclose.symm⟩
  obtain ⟨above, line, below, r', rfl, hspan, habove, hblock, hbefore, hstep⟩ :=
    Reading.exists_include hd (hr.symm ▸ hsuffix)
  have hyear : r'.close.year = yearAfter year before := by
    have hdated : r'.close.year = yearAfter year r'.close.directives.reverse :=
      (habove ▸ Reading.dated_steps year above : r'.Dated year).close
    rw [hdated, hbefore, List.reverse_reverse]
  have hread' : ofLines year above = ⟨before, r'.close.faults.reverse⟩ := by
    rw [ofLines, habove, Reading.finish_of_read hblock, hbefore, List.reverse_reverse]
  have hall := h.symm.trans (ofLines_of_emit habove hstep)
  rw [hbefore, List.reverse_reverse, hyear] at hall
  have hafter : after = (ofLines (yearAfter year before) below).directives.map
      (Spanned.shift (above.length + 1)) := by
    have hdirectives := congrArg Journal.directives hall
    rw [directives_append, List.append_assoc] at hdirectives
    exact (List.cons.inj (List.append_cancel_left hdirectives)).2
  obtain ⟨hfaults, hbelow⟩ := List.append_eq_nil_iff.mp (congrArg Journal.faults hall).symm
  refine ⟨above, line, below, _, rfl, hspan, ⟨?_, ?_, ?_⟩, ⟨?_, ?_, rfl⟩⟩
  · rw [hread', hfaults]
  · rw [hread']
  · rw [hread']
  · exact List.map_eq_nil_iff.mp hbelow
  · rw [hafter, values_shift]

/-- The text with another one in place of the line on which the item stands. -/
def inPlaceOf (d : Spanned Directive) (text new : String) : String :=
  String.ofList (replaceLine new.toList (d.span.first - 1) text.toList)

/-- Whole lines in the place of one that includes a file, if they leave the year in force that they
find. -/
theorem ofText_inPlaceOf {text new : String} {today : Date} {d : Spanned Directive}
    {before after : List (Spanned Directive)} {path : String} {said : List Directive}
    (h : ofText text today = ⟨before ++ d :: after, []⟩) (hd : d.value = .includeFile path)
    (hnew : WholeLines new.toList)
    (hwrites : Writes (yearAfter today.year before) (lines new.toList) said
      (yearAfter today.year before)) :
    (ofText (inPlaceOf d text new) today).faults = [] ∧
      values (ofText (inPlaceOf d text new) today).directives =
        values before ++ said ++ values after := by
  obtain ⟨above, line, below, next, hlines, hspan, habove, hbelow⟩ := exists_around_include h hd
  have hn : d.span.first - 1 = above.length := by
    rw [hspan]
    rfl
  have hlength : above.length < (lines text.toList).length := by
    rw [hlines, List.length_append, List.length_cons]
    omega
  have hreplaced : lines (inPlaceOf d text new).toList = above ++ lines new.toList ++ below := by
    rw [inPlaceOf, String.toList_ofList, hn, lines_replaceLine hnew hlength, hlines]
    simp
  have hall := (habove.append hwrites).append hbelow
  rw [ofText_eq, hreplaced]
  exact ⟨hall.faults, hall.values⟩

end Journal

end Daybook
