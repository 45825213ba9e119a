import Daybook.Proofs.Journal.Coverage
import Daybook.Proofs.Journal.Notes

/-!
# What comes of a line

A line is read in the state that the lines above it leave (`Reaches`). The items and the faults that
are there after it stay to the end. An item that is open after it is there in the end as well, with
what indented lines have added to it: a declared commodity keeps its name
(`exists_commodity_of_open`), and a posting keeps its amounts (`Reaches.exists_posting`).
-/

namespace Daybook

open Daybook.Text

namespace Journal

/-- Line `k` of the lines, which is read in the state `r`. -/
def Reaches (year : Int) (lines : List (List Char)) (k : Nat) (line : List Char) (r : Reading) :
    Prop :=
  ∃ above below, lines = above ++ line :: below ∧ k = above.length + 1 ∧
    (Reading.fresh year).steps 1 above = r

namespace Reading

variable {r r' : Reading} {n : Nat} {line : List Char} {d : Spanned Directive} {f : JournalFault}

/-! ## What stays -/

theorem mem_close (h : d ∈ r.directives) : d ∈ r.close.directives := by
  rw [close_eq]
  exact List.mem_append_right _ h

theorem mem_close_of_item (h : r.block.item? = some d) : d ∈ r.close.directives := by
  rw [close_eq, h]
  exact List.mem_cons_self

theorem Step.mem_directives (h : Step r n line r') (hd : d ∈ r.directives) : d ∈ r'.directives := by
  cases h with
  | unread | stray | passed | continued | refused => exact hd
  | ended => exact mem_close hd
  | blank | opened | failed => exact mem_close hd
  | emitted | dated => exact List.mem_cons_of_mem _ (mem_close hd)

theorem Step.mem_faults (h : Step r n line r') (hf : f ∈ r.faults) : f ∈ r'.faults := by
  rcases h.faults with hsame | ⟨fault, hmore⟩
  · exact hsame ▸ hf
  · exact hmore ▸ List.mem_cons_of_mem _ hf

theorem Step.mem_of_item (h : Step r n line r') (hline : ¬Line.Indented line)
    (hblock : r.block.isVerbatim = false) (hitem : r.block.item? = some d) : d ∈ r'.directives := by
  have hclose := mem_close_of_item hitem
  cases h with
  | unread hverbatim | ended hverbatim =>
    rw [hverbatim] at hblock
    cases hblock
  | stray _ hindented | passed _ hindented | continued _ hindented | refused _ hindented =>
    exact absurd hindented hline
  | blank | opened | failed => exact hclose
  | emitted | dated => exact List.mem_cons_of_mem _ hclose

theorem mem_directives_finish (h : d ∈ r.directives) : d ∈ r.finish.directives := by
  rcases r.finish_directives with hitems | hitems <;> rw [hitems]
  · exact List.mem_reverse.mpr h
  · exact List.mem_reverse.mpr (mem_close h)

theorem mem_faults_finish (h : f ∈ r.faults) : f ∈ r.finish.faults := by
  cases hblock : r.block.isVerbatim with
  | true =>
    obtain ⟨kind, opening, body, span, hverbatim⟩ := Block.isVerbatim_iff.mp hblock
    rw [finish_of_verbatim hverbatim]
    exact List.mem_append_left _ (List.mem_reverse.mpr h)
  | false =>
    rw [finish_of_read hblock, faults_close]
    exact List.mem_reverse.mpr h

theorem mem_directives_finish_steps (h : d ∈ r.directives) (n : Nat) (lines : List (List Char)) :
    d ∈ (r.steps n lines).finish.directives := by
  induction lines generalizing r n with
  | nil => exact mem_directives_finish h
  | cons line rest ih => exact ih ((step_moves r n line).mem_directives h) (n + 1)

theorem mem_faults_finish_steps (h : f ∈ r.faults) (n : Nat) (lines : List (List Char)) :
    f ∈ (r.steps n lines).finish.faults := by
  induction lines generalizing r n with
  | nil => exact mem_faults_finish h
  | cons line rest ih => exact ih ((step_moves r n line).mem_faults h) (n + 1)

/-- What holds of the open item after each indented line holds of it where it ends. -/
theorem exists_item_of_open {P : Block → Prop}
    (hitem : ∀ {block}, P block → block.isVerbatim = false ∧ ∃ d, block.item? = some d)
    (hstep : ∀ {r : Reading} {n line}, P r.block → Line.Indented line → P (r.step n line).block)
    (hopen : P r.block) (n : Nat) (lines : List (List Char)) :
    ∃ block d, P block ∧ block.item? = some d ∧ d ∈ (r.steps n lines).finish.directives := by
  induction lines generalizing r n with
  | nil =>
    obtain ⟨hread, d, hd⟩ := hitem hopen
    refine ⟨r.block, d, hopen, hd, ?_⟩
    rw [steps, finish_of_read hread]
    exact List.mem_reverse.mpr (mem_close_of_item hd)
  | cons line rest ih =>
    by_cases hline : Line.Indented line
    · exact ih (hstep hopen hline) (n + 1)
    · obtain ⟨hread, d, hd⟩ := hitem hopen
      exact ⟨r.block, d, hopen, hd, mem_directives_finish_steps
        ((step_moves r n line).mem_of_item hline hread hd) (n + 1) rest⟩

/-! ## Declared commodities -/

theorem name_addToCommodity {c c' : CommodityDeclaration} {body : List Char}
    (h : Line.addToCommodity c body = .ok c') : c'.name = c.name := by
  simp only [Line.addToCommodity] at h
  split at h
  case h_2 =>
    obtain ⟨format, -, h⟩ := Result.bind_eq_ok_iff.mp h
    rw [← Result.pure_eq_ok_iff.mp h]
  case h_6 =>
    rw [Line.otherwise] at h
    split at h
    · rw [Except.ok.inj h]
    · cases h
  all_goals
    obtain rfl := Except.ok.inj h
    rfl

theorem exists_commodity_of_open {c : CommodityDeclaration} {span : Span}
    (hopen : r.block = .commodity c span) (n : Nat) (lines : List (List Char)) :
    ∃ c' span', ⟨.commodity c', span'⟩ ∈ (r.steps n lines).finish.directives ∧
      c'.name = c.name := by
  let Names (block : Block) : Prop := ∃ c' span', block = .commodity c' span' ∧ c'.name = c.name
  have hitem : ∀ {block}, Names block → block.isVerbatim = false ∧ ∃ d, block.item? = some d := by
    rintro _ ⟨c', span', rfl, -⟩
    exact ⟨rfl, _, rfl⟩
  have hstep : ∀ {r : Reading} {n line}, Names r.block → Line.Indented line →
      Names (r.step n line).block := by
    rintro r n line ⟨c', span', hblock, hname⟩ hline
    have hread : r.block.isVerbatim = false := by
      rw [hblock]
      rfl
    rw [step_of_read hread, if_neg hline.1, if_pos hline.2]
    simp only [indented, hblock]
    cases hadd : Line.addToCommodity c' (trim line) with
    | error fault => exact ⟨c', _, rfl, hname⟩
    | ok c'' => exact ⟨c'', _, rfl, (name_addToCommodity hadd).trans hname⟩
  have hnames : Names r.block := ⟨c, span, hopen, rfl⟩
  obtain ⟨_, d, ⟨c', span', rfl, hname⟩, hd, hmem⟩ := exists_item_of_open hitem hstep hnames n lines
  obtain rfl := Option.some.inj hd
  exact ⟨c', span', hmem, hname⟩

end Reading

end Journal

/-! ## Postings -/

/-- The amounts and the prices of the posting are those of the text behind its account. -/
def Posting.Says (p : Posting) (tail : PostingTail) : Prop :=
  p.amount = tail.amount ∧ p.lotPrice = tail.lotPrice ∧ p.costPrice = tail.costPrice ∧
    p.balancePrice = tail.balancePrice

theorem Transaction.exists_says_withLine {t : Transaction} {p : Posting} {tail : PostingTail}
    (hp : p ∈ t.postings) (h : p.Says tail) (year : Int) (line : List Char) :
    ∃ q ∈ (t.withLine year line).postings, q.Says tail := by
  by_cases hnote : (trim line).head? = some ';'
  · obtain ⟨text, htext⟩ := List.head?_eq_some_iff.mp hnote
    rcases List.eq_nil_or_concat t.postings with hnil | ⟨ps, last, hps⟩
    · rw [hnil] at hp
      cases hp
    rw [List.concat_eq_append] at hps
    rw [withLine_note htext hps]
    rw [hps] at hp
    rcases List.mem_append.mp hp with hp | hp
    · exact ⟨p, List.mem_append_left _ hp, h⟩
    · obtain rfl := List.mem_singleton.mp hp
      exact ⟨p.annotate text, by simp, h⟩
  · rw [withLine_body hnote]
    cases Line.readPosting (trim line) year with
    | error fault => exact ⟨p, hp, h⟩
    | ok q => exact ⟨p, List.mem_append_left _ hp, h⟩

namespace Journal

variable {year : Int} {lines : List (List Char)} {k : Nat} {line : List Char} {r : Reading}
  {d : Spanned Directive} {f : JournalFault}

theorem reaches_of_getElem? (h : lines[k]? = some line) :
    Reaches year lines (k + 1) line ((Reading.fresh year).steps 1 (lines.take k)) := by
  obtain ⟨hk, hline⟩ := List.getElem?_eq_some_iff.mp h
  refine ⟨lines.take k, lines.drop (k + 1), ?_, ?_, rfl⟩
  · rw [← hline, ← List.drop_eq_getElem_cons hk, List.take_append_drop]
  · rw [List.length_take_of_le hk.le]

theorem Reaches.exists_rest (h : Reaches year lines k line r) :
    ∃ below, ofLines year lines = ((r.step k line).steps (k + 1) below).finish := by
  obtain ⟨above, below, rfl, rfl, rfl⟩ := h
  refine ⟨below, ?_⟩
  rw [ofLines, Reading.steps_append, Reading.steps, Nat.add_comm 1 above.length]

theorem Reaches.mem_directives (h : Reaches year lines k line r)
    (hd : d ∈ (r.step k line).directives) : d ∈ (ofLines year lines).directives := by
  obtain ⟨below, hlines⟩ := h.exists_rest
  rw [hlines]
  exact Reading.mem_directives_finish_steps hd _ _

theorem Reaches.mem_faults (h : Reaches year lines k line r) (hf : f ∈ (r.step k line).faults) :
    f ∈ (ofLines year lines).faults := by
  obtain ⟨below, hlines⟩ := h.exists_rest
  rw [hlines]
  exact Reading.mem_faults_finish_steps hf _ _

/-- A line that is read as a posting of the open transaction is one in the journal. -/
theorem Reaches.exists_posting (h : Reaches year lines k line r) {t : Transaction} {span : Span}
    {kept : List (List Char)} (hblock : r.block = .transaction t span kept)
    (hline : Line.Indented line) {p : Posting} (hread : Line.readPosting (trim line) r.year = .ok p)
    {tail : PostingTail} (hp : p.Says tail) :
    ∃ t' span', ⟨.transaction t', span'⟩ ∈ (ofLines year lines).directives ∧
      ∃ q ∈ t'.postings, q.Says tail := by
  let Has (block : Block) : Prop := ∃ t' span' kept', block = .transaction t' span' kept' ∧
    ∃ q ∈ t'.postings, q.Says tail
  have hitem : ∀ {block}, Has block → block.isVerbatim = false ∧ ∃ d, block.item? = some d := by
    rintro _ ⟨t', span', kept', rfl, -⟩
    exact ⟨rfl, _, rfl⟩
  have hstep : ∀ {r : Reading} {n line}, Has r.block → Line.Indented line →
      Has (r.step n line).block := by
    rintro r n line ⟨t', span', kept', hblock, q, hq, hsays⟩ hline
    obtain ⟨span'', kept'', faults, hnext⟩ := Reading.step_member hblock hline n
    rw [hnext]
    exact ⟨_, span'', kept'', rfl, Transaction.exists_says_withLine hq hsays r.year line⟩
  have hopen : Has (r.step k line).block := by
    obtain ⟨span', kept', faults, hnext⟩ := Reading.step_member hblock hline k
    rw [hnext]
    refine ⟨_, span', kept', rfl, p, ?_, hp⟩
    rw [Transaction.withLine_body (Transaction.head?_ne_of_readPosting hread), hread]
    simp
  obtain ⟨below, hlines⟩ := h.exists_rest
  obtain ⟨_, d, ⟨t', span', kept', rfl, hsays⟩, hd, hmem⟩ :=
    Reading.exists_item_of_open hitem hstep hopen (k + 1) below
  obtain rfl := Option.some.inj hd
  rw [hlines]
  exact ⟨_, span', hmem, hsays⟩

end Journal

end Daybook
