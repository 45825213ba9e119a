import Daybook.Proofs.Journal.Steps

/-!
# Every line is accounted for

The items of a journal cover ranges of lines, one behind the other, and its faults stand on lines of
their own order, with the text of the line. Main statement: no line is lost (`ofText_accountsFor`). A
line that is not blank is covered by an item or has a fault, belongs to an item whose first line had
a fault, or lies in a block that is never closed.
-/

namespace Daybook.Journal

open Daybook.Text

/-! ## What is said of a line -/

def Covers (j : Journal) (n : Nat) : Prop :=
  ∃ d ∈ j.directives, d.span.first ≤ n ∧ n ≤ d.span.last

def HasFault (faults : List JournalFault) (n : Nat) : Prop := ∃ f ∈ faults, f.span = .line n

/-- The line at position `m` begins an item and has a fault, and all lines behind it up to the one at
position `k` are indented. -/
def Orphaned (lines : List (List Char)) (faults : List JournalFault) (k : Nat) : Prop :=
  ∃ m line, m < k ∧ lines[m]? = some line ∧ Line.Unindented line ∧ HasFault faults (m + 1) ∧
    ∀ i line, m < i → i ≤ k → lines[i]? = some line → Line.Indented line

/-- The line at position `k` lies in a block that begins at position `m`, whose lines are not read.
The block is never closed, and this is reported. -/
def Unclosed (lines : List (List Char)) (faults : List JournalFault) (k : Nat) : Prop :=
  ∃ (kind : Verbatim) (m : Nat) (opening : List Char), m ≤ k ∧ lines[m]? = some opening ∧
    ⟨.unterminatedBlock kind.keyword, .line (m + 1), String.ofList opening⟩ ∈ faults ∧
    ∀ i line, m < i → lines[i]? = some line → trim line ≠ kind.ending

theorem getElem?_concat_eq_some_iff {α : Type} {l : List α} {a b : α} {k : Nat} :
    (l ++ [a])[k]? = some b ↔ l[k]? = some b ∨ k = l.length ∧ b = a := by
  grind

theorem HasFault.cons {faults : List JournalFault} {n : Nat} (h : HasFault faults n)
    (f : JournalFault) : HasFault (f :: faults) n := by
  obtain ⟨g, hg, hspan⟩ := h
  exact ⟨g, List.mem_cons_of_mem f hg, hspan⟩

/-- The ranges lie among the first `n` lines, each one behind those that follow it in the list. -/
def Laid (n : Nat) (spans : List Span) : Prop :=
  (∀ s ∈ spans, 1 ≤ s.first ∧ s.first ≤ s.last ∧ s.last ≤ n) ∧
    spans.Pairwise fun s s' => s'.last < s.first

theorem Laid.mono {n : Nat} {spans : List Span} (h : Laid n spans) : Laid (n + 1) spans :=
  ⟨fun s hs => ⟨(h.1 s hs).1, (h.1 s hs).2.1, Nat.le_succ_of_le (h.1 s hs).2.2⟩, h.2⟩

theorem Laid.cons {n : Nat} {spans : List Span} (h : Laid n spans) :
    Laid (n + 1) (.line (n + 1) :: spans) := by
  refine ⟨List.forall_mem_cons.mpr ⟨⟨?_, Nat.le_refl _, Nat.le_refl _⟩, h.mono.1⟩, ?_⟩
  · exact Nat.succ_le_succ n.zero_le
  · refine List.pairwise_cons.mpr ⟨fun s hs => ?_, h.2⟩
    exact Nat.lt_succ_of_le (h.1 s hs).2.2

theorem Laid.extend {n : Nat} {span : Span} {spans : List Span} (h : Laid n (span :: spans)) :
    Laid (n + 1) (span.extendTo (n + 1) :: spans) := by
  obtain ⟨hbounds, hsorted⟩ := h
  obtain ⟨hspan, hspans⟩ := List.forall_mem_cons.mp hbounds
  have hlast : (span.extendTo (n + 1)).last = max span.last (n + 1) := rfl
  refine ⟨List.forall_mem_cons.mpr ⟨⟨hspan.1, ?_, ?_⟩, ?_⟩, ?_⟩
  · rw [hlast]
    exact Nat.le_trans hspan.2.1 (Nat.le_max_left _ _)
  · rw [hlast]
    omega
  · exact (Laid.mono ⟨hspans, (List.pairwise_cons.mp hsorted).2⟩).1
  · exact List.pairwise_cons.mpr (List.pairwise_cons.mp hsorted)

namespace Reading

variable {r r' : Reading} {n k : Nat} {line : List Char} {lines : List (List Char)}

/-! ## What a step does to ranges and faults -/

/-- The ranges of lines of the items and of the open one, the last one first. -/
def spans (r : Reading) : List Span := r.block.span?.toList ++ r.directives.map (·.span)

theorem spans_eq_cons {span : Span} (h : r.block.span? = some span) :
    r.spans = span :: r.directives.map (·.span) := by
  simp [spans, h]

theorem spans_eq_of_none (h : r.block.span? = none) : r.spans = r.directives.map (·.span) := by
  simp [spans, h]

theorem spans_close (r : Reading) : r.close.spans = r.spans := by
  have hitem : r.block.item?.toList.map (·.span) = r.block.span?.toList := by
    rw [← Block.map_span_item?]
    cases r.block.item? <;> rfl
  rw [close_eq]
  simp [spans, Block.span?, hitem]

theorem map_span_close (r : Reading) : r.close.directives.map (·.span) = r.spans := by
  rw [← spans_close]
  exact (spans_eq_of_none (by rw [close_eq]; rfl)).symm

theorem faults_close (r : Reading) : r.close.faults = r.faults := by rw [close_eq]

theorem hasFault_report (r : Reading) (fault : LineFault) (n : Nat) (text : String) :
    HasFault (r.report fault n text).faults n := ⟨_, List.mem_cons_self, rfl⟩

/-- The line is blank or has a fault, or it belongs to an item whose first line had one. -/
def Idle (r : Reading) (n : Nat) (line : List Char) (r' : Reading) : Prop :=
  trim line = [] ∨ HasFault r'.faults n ∨ r.block = .skipped ∧ Line.Indented line ∧ r' = r

/-- A step adds the range of its line, or makes that of the open item longer; or else it leaves the
ranges as they are, and nothing open. -/
theorem Step.spans (h : Step r n line r') :
    r'.spans = .line n :: r.spans ∨
      (∃ span rest, r.block.span? = some span ∧ r.spans = span :: rest ∧
        r'.spans = span.extendTo n :: rest) ∨
      r'.spans = r.spans ∧ r'.block.span? = none ∧ Idle r n line r' := by
  cases h with
  | unread hblock _ =>
    have hspan := congrArg Block.span? hblock
    exact .inr (.inl ⟨_, _, hspan, spans_eq_cons hspan, spans_eq_cons rfl⟩)
  | ended hblock _ =>
    have hspan := congrArg Block.span? hblock
    exact .inr (.inl ⟨_, _, hspan, spans_eq_cons hspan, (spans_close _).trans (spans_eq_cons rfl)⟩)
  | continued hblock _ | refused hblock _ =>
    obtain ⟨span, hspan, hspan'⟩ := hblock.exists_span
    exact .inr (.inl ⟨span, _, hspan, spans_eq_cons hspan, spans_eq_cons hspan'⟩)
  | opened _ _ hopens =>
    refine .inl ?_
    rw [spans_eq_cons hopens.span?_eq, map_span_close]
  | emitted | dated =>
    refine .inl ?_
    rw [spans_eq_of_none (by rw [close_eq]; rfl), ← map_span_close]
    rfl
  | blank _ hline => exact .inr (.inr ⟨spans_close r, by rw [close_eq]; rfl, .inl hline⟩)
  | stray hblock _ =>
    exact .inr (.inr ⟨rfl, congrArg Block.span? hblock, .inr (.inl (hasFault_report _ _ _ _))⟩)
  | passed hblock hline =>
    exact .inr (.inr ⟨rfl, congrArg Block.span? hblock, .inr (.inr ⟨hblock, hline, rfl⟩)⟩)
  | failed =>
    refine .inr (.inr ⟨?_, rfl, .inr (.inl (hasFault_report _ _ _ _))⟩)
    rw [spans_eq_of_none rfl, ← map_span_close]
    rfl

theorem Step.faults (h : Step r n line r') :
    r'.faults = r.faults ∨
      ∃ fault, r'.faults = ⟨fault, .line n, String.ofList line⟩ :: r.faults := by
  cases h with
  | unread | passed | continued => exact .inl rfl
  | ended => exact .inl (faults_close _)
  | blank | opened | emitted | dated => exact .inl (faults_close r)
  | stray | refused => exact .inr ⟨_, rfl⟩
  | failed => exact .inr ⟨_, congrArg (_ :: ·) (faults_close r)⟩

/-- Line `n` lies in the range of an item or of the open one, or has a fault. -/
def Marked (r : Reading) (n : Nat) : Prop :=
  (∃ s ∈ r.spans, s.first ≤ n ∧ n ≤ s.last) ∨ HasFault r.faults n

theorem Step.marked_mono (h : Step r n line r') (hk : Marked r k) : Marked r' k := by
  rcases hk with ⟨s, hs, hfirst, hlast⟩ | hfault
  · refine .inl ?_
    rcases h.spans with heq | ⟨span, rest, -, heq, heq'⟩ | ⟨heq, -⟩
    · exact ⟨s, heq ▸ List.mem_cons_of_mem _ hs, hfirst, hlast⟩
    · rw [heq] at hs
      rw [heq']
      rcases List.mem_cons.mp hs with rfl | hs
      · exact ⟨s.extendTo n, List.mem_cons_self, hfirst,
          Nat.le_trans hlast (Nat.le_max_left _ _)⟩
      · exact ⟨s, List.mem_cons_of_mem _ hs, hfirst, hlast⟩
    · exact ⟨s, heq ▸ hs, hfirst, hlast⟩
  · refine .inr ?_
    rcases h.faults with heq | ⟨fault, heq⟩
    · exact heq ▸ hfault
    · exact heq ▸ hfault.cons _

/-- The line that a step reads is marked, unless it is blank or belongs to an item whose first line
had a fault. -/
theorem Step.marked (h : Step r n line r') (hline : trim line ≠ [])
    (hopen : ∀ span, r.block.span? = some span → span.first ≤ n) :
    Marked r' n ∨ r.block = .skipped ∧ Line.Indented line ∧ r' = r := by
  rcases h.spans with heq | ⟨span, rest, hspan, -, heq⟩ | ⟨-, -, hidle⟩
  · exact .inl (.inl ⟨.line n, heq ▸ List.mem_cons_self, Nat.le_refl n, Nat.le_refl n⟩)
  · exact .inl (.inl ⟨span.extendTo n, heq ▸ List.mem_cons_self, hopen span hspan,
      Nat.le_max_right _ _⟩)
  · rcases hidle with hblank | hfault | hpassed
    · exact absurd hblank hline
    · exact .inl (.inr hfault)
    · exact .inr hpassed

theorem Step.skipped (h : Step r n line r') (hskipped : r'.block = .skipped) :
    Line.Unindented line ∧ HasFault r'.faults n ∨
      r.block = .skipped ∧ Line.Indented line ∧ r' = r := by
  cases h with
  | passed hblock hline => exact .inr ⟨hblock, hline, rfl⟩
  | failed _ hline => exact .inl ⟨hline, hasFault_report _ _ _ _⟩
  | unread => cases hskipped
  | ended | blank => simp [close_eq] at hskipped
  | stray hblock => exact absurd (hblock.symm.trans hskipped) nofun
  | continued hblock | refused hblock =>
    obtain ⟨span, -, hspan⟩ := hblock.exists_span
    exact absurd (hspan.symm.trans (congrArg Block.span? hskipped)) nofun
  | opened _ _ hopens =>
    exact absurd (hopens.span?_eq.symm.trans (congrArg Block.span? hskipped)) nofun
  | emitted | dated => simp [close_eq, emit] at hskipped

/-- Where a block is open whose lines are not read, the line has opened it, or it was open before and
the line is not its end. -/
theorem Step.unread_eq {kind : Verbatim} {opening : String} {body : List String} {span : Span}
    (h : Step r n line r') (hblock : r'.block = .verbatim kind opening body span) :
    r'.faults = r.faults ∧ (opening = String.ofList line ∧ span = .line n ∨
      ∃ body' span', r.block = .verbatim kind opening body' span' ∧ span = span'.extendTo n ∧
        trim line ≠ kind.ending) := by
  cases h with
  | unread hr hline =>
    cases hblock
    exact ⟨rfl, .inr ⟨_, _, hr, rfl, hline⟩⟩
  | opened _ _ hopens =>
    obtain rfl := hblock
    cases hopens
    exact ⟨faults_close r, .inl ⟨rfl, rfl⟩⟩
  | ended | blank => simp [close_eq] at hblock
  | stray hr => exact absurd (hr.symm.trans hblock) nofun
  | passed hr => exact absurd (hr.symm.trans hblock) nofun
  | continued hcontinues | refused hcontinues =>
    have hread := hcontinues.isVerbatim_eq_false.2
    exact absurd (hread.symm.trans (congrArg Block.isVerbatim hblock)) nofun
  | emitted | dated => simp [close_eq, emit] at hblock
  | failed => cases hblock

/-! ## What all lines come to -/

/-- What is true of a reading of the lines. -/
structure Accounts (lines : List (List Char)) (r : Reading) : Prop where
  laid : Laid lines.length r.spans
  reaches : ∀ span, r.block.span? = some span → span.last = lines.length
  noted : ∀ f ∈ r.faults, ∃ k line, lines[k]? = some line ∧ f.span = .line (k + 1) ∧
    f.text = String.ofList line
  descending : r.faults.Pairwise fun f g => g.span.first < f.span.first
  orphans : r.block = .skipped → ∃ m line, lines[m]? = some line ∧ Line.Unindented line ∧
    HasFault r.faults (m + 1) ∧ ∀ i line, m < i → lines[i]? = some line → Line.Indented line
  unread : ∀ kind opening body span, r.block = .verbatim kind opening body span →
    ∃ m line, lines[m]? = some line ∧ span.first = m + 1 ∧ opening = String.ofList line ∧
      (∀ f ∈ r.faults, f.span.first < span.first) ∧
      ∀ i line, m < i → lines[i]? = some line → trim line ≠ kind.ending
  covers : ∀ k line, lines[k]? = some line → trim line ≠ [] →
    Marked r (k + 1) ∨ Orphaned lines r.faults k

theorem Accounts.fault_le (h : Accounts lines r) : ∀ f ∈ r.faults, f.span.first ≤ lines.length := by
  intro f hf
  obtain ⟨k, line, hline, hspan, -⟩ := h.noted f hf
  obtain ⟨hk, -⟩ := List.getElem?_eq_some_iff.mp hline
  rw [hspan]
  exact hk

theorem accounts_start (today : Date) : Accounts [] (start today) where
  laid := ⟨by simp [start, spans, Block.span?], by simp [start, spans, Block.span?]⟩
  reaches := nofun
  noted := nofun
  descending := .nil
  orphans := nofun
  unread := nofun
  covers := by simp

variable (h : Accounts lines r) (hs : Step r (lines.length + 1) line r')

include h hs

theorem Accounts.laid_step : Laid (lines.length + 1) r'.spans := by
  rcases hs.spans with heq | ⟨span, rest, -, heq, heq'⟩ | ⟨heq, -⟩
  · exact heq ▸ h.laid.cons
  · exact heq' ▸ (heq ▸ h.laid).extend
  · exact heq ▸ h.laid.mono

theorem Accounts.reaches_step {span : Span} (hspan : r'.block.span? = some span) :
    span.last = lines.length + 1 := by
  have hhead := spans_eq_cons hspan
  rcases hs.spans with heq | ⟨span', rest, hspan', -, heq⟩ | ⟨-, hnone, -⟩
  · obtain ⟨rfl, -⟩ := List.cons.inj (hhead.symm.trans heq)
    rfl
  · obtain ⟨rfl, -⟩ := List.cons.inj (hhead.symm.trans heq)
    have hlast := h.reaches span' hspan'
    simp only [Span.extendTo]
    omega
  · exact absurd (hspan.symm.trans hnone) nofun

theorem Accounts.noted_step : ∀ f ∈ r'.faults, ∃ k line', (lines ++ [line])[k]? = some line' ∧
    f.span = .line (k + 1) ∧ f.text = String.ofList line' := by
  have hbefore : ∀ f ∈ r.faults, ∃ k line', (lines ++ [line])[k]? = some line' ∧
      f.span = .line (k + 1) ∧ f.text = String.ofList line' := by
    intro f hf
    obtain ⟨k, line', hline', hf⟩ := h.noted f hf
    exact ⟨k, line', getElem?_concat_eq_some_iff.mpr (.inl hline'), hf⟩
  rcases hs.faults with heq | ⟨fault, heq⟩
  · exact heq ▸ hbefore
  · rw [heq]
    exact List.forall_mem_cons.mpr
      ⟨⟨lines.length, line, getElem?_concat_eq_some_iff.mpr (.inr ⟨rfl, rfl⟩), rfl, rfl⟩, hbefore⟩

theorem Accounts.descending_step : r'.faults.Pairwise fun f g => g.span.first < f.span.first := by
  rcases hs.faults with heq | ⟨fault, heq⟩
  · exact heq ▸ h.descending
  · rw [heq]
    refine List.pairwise_cons.mpr ⟨fun f hf => ?_, h.descending⟩
    exact Nat.lt_succ_of_le (h.fault_le f hf)

theorem Accounts.orphans_step (hskipped : r'.block = .skipped) :
    ∃ m line', (lines ++ [line])[m]? = some line' ∧ Line.Unindented line' ∧
      HasFault r'.faults (m + 1) ∧
      ∀ i line', m < i → (lines ++ [line])[i]? = some line' → Line.Indented line' := by
  rcases hs.skipped hskipped with ⟨hline, hfault⟩ | ⟨hblock, hindented, rfl⟩
  · refine ⟨lines.length, line, getElem?_concat_eq_some_iff.mpr (.inr ⟨rfl, rfl⟩), hline, hfault, ?_⟩
    intro i line' hi hline'
    obtain ⟨hlt, -⟩ := List.getElem?_eq_some_iff.mp hline'
    rw [List.length_append, List.length_singleton] at hlt
    omega
  · obtain ⟨m, first, hfirst, hunindented, hfault, hrest⟩ := h.orphans hblock
    refine ⟨m, first, getElem?_concat_eq_some_iff.mpr (.inl hfirst), hunindented, hfault, ?_⟩
    intro i line' hi hline'
    rcases getElem?_concat_eq_some_iff.mp hline' with hline' | ⟨-, rfl⟩
    · exact hrest i line' hi hline'
    · exact hindented

theorem Accounts.unread_step {kind : Verbatim} {opening : String} {body : List String}
    {span : Span} (hblock : r'.block = .verbatim kind opening body span) :
    ∃ m line', (lines ++ [line])[m]? = some line' ∧ span.first = m + 1 ∧
      opening = String.ofList line' ∧ (∀ f ∈ r'.faults, f.span.first < span.first) ∧
      ∀ i line', m < i → (lines ++ [line])[i]? = some line' → trim line' ≠ kind.ending := by
  obtain ⟨heq, ⟨rfl, rfl⟩ | ⟨body', span', hopen, rfl, hline⟩⟩ := hs.unread_eq hblock
  · refine ⟨lines.length, line, getElem?_concat_eq_some_iff.mpr (.inr ⟨rfl, rfl⟩), rfl, rfl, ?_, ?_⟩
    · intro f hf
      exact Nat.lt_succ_of_le (h.fault_le f (heq ▸ hf))
    · intro i line' hi hline'
      obtain ⟨hlt, -⟩ := List.getElem?_eq_some_iff.mp hline'
      rw [List.length_append, List.length_singleton] at hlt
      omega
  · obtain ⟨m, first, hfirst, hspan, hopening, hbefore, hrest⟩ := h.unread _ _ _ _ hopen
    refine ⟨m, first, getElem?_concat_eq_some_iff.mpr (.inl hfirst), hspan, hopening,
      heq ▸ hbefore, ?_⟩
    intro i line' hi hline'
    rcases getElem?_concat_eq_some_iff.mp hline' with hline' | ⟨-, rfl⟩
    · exact hrest i line' hi hline'
    · exact hline

theorem Accounts.covers_step {k : Nat} {line' : List Char}
    (hk : (lines ++ [line])[k]? = some line') (hline' : trim line' ≠ []) :
    Marked r' (k + 1) ∨ Orphaned (lines ++ [line]) r'.faults k := by
  rcases getElem?_concat_eq_some_iff.mp hk with hk | ⟨rfl, rfl⟩
  · rcases h.covers k line' hk hline' with hmarked | ⟨m, first, hm, hfirst, hunindented, hfault, hrest⟩
    · exact .inl (hs.marked_mono hmarked)
    · refine .inr ⟨m, first, hm, getElem?_concat_eq_some_iff.mpr (.inl hfirst), hunindented, ?_, ?_⟩
      · rcases hs.faults with heq | ⟨fault, heq⟩
        · exact heq ▸ hfault
        · exact heq ▸ hfault.cons _
      · intro i other hi hik hother
        refine hrest i other hi hik ?_
        obtain ⟨hlt, -⟩ := List.getElem?_eq_some_iff.mp hk
        rwa [List.getElem?_append_left (by omega)] at hother
  · have hopen : ∀ span, r.block.span? = some span → span.first ≤ lines.length + 1 := by
      intro span hspan
      have hbounds := h.laid.1 span (by rw [spans_eq_cons hspan]; exact List.mem_cons_self)
      omega
    rcases hs.marked hline' hopen with hmarked | ⟨hblock, hindented, rfl⟩
    · exact .inl hmarked
    · obtain ⟨m, first, hfirst, hunindented, hfault, hrest⟩ := h.orphans hblock
      obtain ⟨hm, -⟩ := List.getElem?_eq_some_iff.mp hfirst
      refine .inr ⟨m, first, hm, getElem?_concat_eq_some_iff.mpr (.inl hfirst), hunindented,
        hfault, ?_⟩
      intro i other hi _ hother
      rcases getElem?_concat_eq_some_iff.mp hother with hother | ⟨-, rfl⟩
      · exact hrest i other hi hother
      · exact hindented

theorem Accounts.step : Accounts (lines ++ [line]) r' where
  laid := by
    rw [List.length_append]
    exact h.laid_step hs
  reaches _ hspan := by
    rw [List.length_append]
    exact h.reaches_step hs hspan
  noted := h.noted_step hs
  descending := h.descending_step hs
  orphans := h.orphans_step hs
  unread _ _ _ _ hblock := h.unread_step hs hblock
  covers _ _ := h.covers_step hs

omit h hs

theorem accounts_steps (today : Date) (lines : List (List Char)) :
    Accounts lines ((start today).steps 1 lines) :=
  steps_induction (fun _ _ _ _ h hs => h.step hs) (accounts_start today) lines

end Reading

theorem Laid.directives {n : Nat} {ds : List (Spanned Directive)} (h : Laid n (ds.map (·.span))) :
    (∀ d ∈ ds.reverse, 1 ≤ d.span.first ∧ d.span.first ≤ d.span.last ∧ d.span.last ≤ n) ∧
      ds.reverse.Pairwise fun d d' => d.span.last < d'.span.first := by
  refine ⟨fun d hd => h.1 _ (List.mem_map_of_mem (List.mem_reverse.mp hd)), ?_⟩
  exact List.pairwise_reverse.mpr (List.pairwise_map.mp h.2)

theorem Laid.tail {n : Nat} {span : Span} {spans : List Span} (h : Laid n (span :: spans)) :
    Laid n spans :=
  ⟨fun s hs => h.1 s (List.mem_cons_of_mem _ hs), (List.pairwise_cons.mp h.2).2⟩

theorem HasFault.mono {faults faults' : List JournalFault} {n : Nat} (h : HasFault faults n)
    (hmem : ∀ f ∈ faults, f ∈ faults') : HasFault faults' n := by
  obtain ⟨f, hf, hspan⟩ := h
  exact ⟨f, hmem f hf, hspan⟩

theorem Orphaned.mono {lines : List (List Char)} {faults faults' : List JournalFault} {k : Nat}
    (h : Orphaned lines faults k) (hmem : ∀ f ∈ faults, f ∈ faults') :
    Orphaned lines faults' k := by
  obtain ⟨m, line, hm, hline, hunindented, hfault, hrest⟩ := h
  exact ⟨m, line, hm, hline, hunindented, hfault.mono hmem, hrest⟩

/-- The journal accounts for the lines: the items cover ranges of them, each behind the one before,
and the faults stand on lines of their own in the same order, with the texts of these lines. Each
line that is not blank is covered or has a fault, is indented below the first line of an item that
has one, or lies in a block that is never closed. -/
structure AccountsFor (j : Journal) (lines : List (List Char)) : Prop where
  within : ∀ d ∈ j.directives,
    1 ≤ d.span.first ∧ d.span.first ≤ d.span.last ∧ d.span.last ≤ lines.length
  apart : j.directives.Pairwise fun d d' => d.span.last < d'.span.first
  ascending : j.faults.Pairwise fun f f' => f.span.first < f'.span.first
  noted : ∀ f ∈ j.faults, ∃ k line, lines[k]? = some line ∧ f.span = .line (k + 1) ∧
    f.text = String.ofList line
  covers : ∀ k line, lines[k]? = some line → trim line ≠ [] →
    j.Covers (k + 1) ∨ HasFault j.faults (k + 1) ∨ Orphaned lines j.faults k ∨
      Unclosed lines j.faults k

namespace Reading

variable {r : Reading} {lines : List (List Char)}

theorem Accounts.finish_of_read (h : Accounts lines r) (hread : r.block.isVerbatim = false) :
    r.finish.AccountsFor lines := by
  have hspans := map_span_close r
  obtain ⟨hwithin, hapart⟩ := Laid.directives (hspans ▸ h.laid)
  have hmem : ∀ f ∈ r.faults, f ∈ r.faults.reverse := fun f hf => List.mem_reverse.mpr hf
  rw [Reading.finish_of_read hread, faults_close]
  refine ⟨hwithin, hapart, List.pairwise_reverse.mpr h.descending, ?_, ?_⟩
  · intro f hf
    exact h.noted f (List.mem_reverse.mp hf)
  · intro k line hline htrim
    rcases h.covers k line hline htrim with (⟨s, hs, hrange⟩ | hfault) | horphaned
    · obtain ⟨d, hd, rfl⟩ := List.mem_map.mp (hspans ▸ hs)
      exact .inl ⟨d, List.mem_reverse.mpr hd, hrange⟩
    · exact .inr (.inl (hfault.mono hmem))
    · exact .inr (.inr (.inl (horphaned.mono hmem)))

theorem Accounts.finish_of_verbatim (h : Accounts lines r) {kind : Verbatim} {opening : String}
    {body : List String} {span : Span} (hblock : r.block = .verbatim kind opening body span) :
    r.finish.AccountsFor lines := by
  obtain ⟨m, first, hfirst, hspan, rfl, hbefore, hunread⟩ := h.unread _ _ _ _ hblock
  have hspans := spans_eq_cons (congrArg Block.span? hblock)
  have hlaid := h.laid
  rw [hspans] at hlaid
  obtain ⟨hwithin, hapart⟩ := hlaid.tail.directives
  have hmem : ∀ f ∈ r.faults, f ∈ r.faults.reverse ++
      [⟨.unterminatedBlock kind.keyword, .line span.first, String.ofList first⟩] :=
    fun f hf => List.mem_append_left _ (List.mem_reverse.mpr hf)
  rw [Reading.finish_of_verbatim hblock]
  refine ⟨hwithin, hapart, ?_, ?_, ?_⟩
  · refine List.pairwise_append.mpr
      ⟨List.pairwise_reverse.mpr h.descending, List.pairwise_singleton _ _, ?_⟩
    intro f hf f' hf'
    obtain rfl := List.mem_singleton.mp hf'
    exact hbefore f (List.mem_reverse.mp hf)
  · intro f hf
    rcases List.mem_append.mp hf with hf | hf
    · exact h.noted f (List.mem_reverse.mp hf)
    · obtain rfl := List.mem_singleton.mp hf
      exact ⟨m, first, hfirst, by rw [hspan], rfl⟩
  · intro k line hline htrim
    rcases h.covers k line hline htrim with (⟨s, hs, hlow, hhigh⟩ | hfault) | horphaned
    · -- A line of the open block lies behind the one that opened it.
      rw [hspans] at hs
      rcases List.mem_cons.mp hs with rfl | hs
      · refine .inr (.inr (.inr ⟨kind, m, first, by omega, hfirst, ?_, hunread⟩))
        rw [← hspan]
        exact List.mem_append_right _ List.mem_cons_self
      · obtain ⟨d, hd, rfl⟩ := List.mem_map.mp hs
        exact .inl ⟨d, List.mem_reverse.mpr hd, hlow, hhigh⟩
    · exact .inr (.inl (hfault.mono hmem))
    · exact .inr (.inr (.inl (horphaned.mono hmem)))

end Reading

/-- Every text is read to a journal that accounts for its lines. -/
theorem ofText_accountsFor (source : String) (today : Date) :
    (ofText source today).AccountsFor (lines source.toList) := by
  have h := Reading.accounts_steps today (lines source.toList)
  unfold ofText
  cases hblock : ((Reading.start today).steps 1 (lines source.toList)).block.isVerbatim with
  | true =>
    obtain ⟨kind, opening, body, span, hverbatim⟩ := Block.isVerbatim_iff.mp hblock
    exact h.finish_of_verbatim hverbatim
  | false => exact h.finish_of_read hblock

end Daybook.Journal
