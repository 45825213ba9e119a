import Daybook.Proofs.Journal.Coverage
import Daybook.Proofs.Journal.PrintsBack
import Daybook.Proofs.Journal.ReadTransaction
import Mathlib.Data.List.Forall2

/-!
# Transactions that come back as they were

A transaction that has been read writes its lines. These are read as one transaction, with what is
read from the line of each posting, or with a fault (`steps_postings`). Main statement: it is the
same transaction exactly if each of its postings prints back (`ofText_text_iff`).
-/

namespace Daybook

open Daybook.Text Daybook.Result

/-- What the transaction says can be written on its lines: they have no tags and no metadata, no
note has several lines, and the years have four digits. -/
structure Transaction.IsPlain (t : Transaction) : Prop where
  head : t.HeadIsPlain
  postings : ∀ p ∈ t.postings, p.IsPlain

def Posting.ReadsAs (year : Int) (p q : Posting) : Prop :=
  Line.readPosting (trim p.text.toList) year = .ok q

/-! ## The lines of a transaction -/

namespace Posting

variable {p : Posting}

theorem lineFeed_not_mem_text (h : p.IsRead) (hplain : p.IsPlain) : '\n' ∉ p.text.toList := by
  have hmark : '\n' ∉ p.writtenMark := by
    rw [writtenMark]
    cases p.clearing with
    | none => exact List.not_mem_nil
    | some state => cases state <;> decide
  have haccount : '\n' ∉ p.writtenAccount := by
    have hname := h.account.oneLine
    rw [writtenAccount]
    cases p.kind <;> simp [Line.enclosed, hname]
  have htail : '\n' ∉ { p with note := none }.writtenTail.toList :=
    not_mem_writtenTail (fun c hc => (h.amounts c hc).exact)
      (fun c hc => (h.amounts c hc).named.isPlainName.2) hplain.lotDate (by decide) (by decide)
  have hnote : '\n' ∉ (writtenPart "  ; " p.note "").toList := by
    have hline := hplain.note
    cases hvalue : p.note with
    | none => simp [writtenPart]
    | some s => simp [writtenPart, hline s hvalue]
  rw [toList_text, writtenTail_eq_append]
  simp [hmark, haccount, htail, hnote]

theorem line_written (h : p.IsRead) :
    Line.Indented (dropReturn p.text.toList) ∧ (trim p.text.toList).head? ≠ some ';' := by
  have hname := isAccountName_writtenAccount h
  obtain ⟨c, cs, hc⟩ := List.exists_cons_of_ne_nil hname.ne_nil
  have hsemicolon : c ≠ ';' := by
    rintro rfl
    exact hname.solid.semicolon (hc ▸ List.mem_cons_self)
  obtain ⟨x, xs, hx, hne⟩ : ∃ x xs, trim p.text.toList = x :: xs ∧ x ≠ ';' := by
    rw [trim_text h, writtenMark, hc]
    cases p.clearing with
    | none => exact ⟨c, _, rfl, hsemicolon⟩
    | some state => exact ⟨state.char, _, rfl, by cases state <;> decide⟩
  have hhead : (dropReturn p.text.toList).head? = some ' ' := by
    rw [toList_text, dropReturn]
    split
    · rw [List.dropLast_append_of_ne_nil]
      · rfl
      · exact List.append_ne_nil_of_right_ne_nil _
          (List.append_ne_nil_of_left_ne_nil hname.ne_nil _)
    · rfl
  refine ⟨⟨?_, ?_⟩, ?_⟩
  · rw [trim_dropReturn, hx]
    exact List.cons_ne_nil x xs
  · rw [hhead]
    rfl
  · rw [hx]
    exact fun heq => hne (Option.some.inj heq)

end Posting

namespace Transaction

variable {t : Transaction}

theorem lineFeed_not_mem_headLine (h : t.HeadIsRead) (hplain : t.HeadIsPlain) :
    '\n' ∉ t.headLine := by
  have hhead : '\n' ∉ t.writtenDates ++ (t.writtenMark ++ t.writtenPayee) :=
    not_mem_head hplain (by decide) (by decide) (fun s hs => (h.codeChars s hs).2.2) h.payeeChars.2
  have hnote : '\n' ∉ t.writtenNote := by
    rw [writtenNote]
    cases hnote : t.note with
    | none => exact List.not_mem_nil
    | some s => simp [hplain.note s hnote]
  rw [headLine]
  exact fun hmem => (List.mem_append.mp hmem).elim hhead hnote

theorem exists_headLine_eq_cons (h : t.HeadIsPlain) :
    ∃ c cs, t.headLine = c :: cs ∧ isDigit c = true := by
  obtain ⟨c, cs, hdate, hc⟩ := Date.exists_text_eq_cons h.date
  obtain ⟨cs', hcs'⟩ : ∃ cs', t.headLine = c :: cs' := by simp [headLine, writtenDates, hdate]
  exact ⟨c, cs', hcs', hc⟩

theorem dropReturn_headLine (h : t.HeadIsRead) (hplain : t.HeadIsPlain) :
    dropReturn t.headLine = t.headLine := by
  refine if_neg fun hlast => ?_
  have hreturn : ∀ s : String, trim s.toList = s.toList → s.toList.getLast? ≠ some '\r' :=
    fun s hs hr => by cases trimEnd_eq_self_iff.mp (trimEnd_of_trim_eq hs) _ hr
  rw [headLine, writtenNote] at hlast
  cases hnote : t.note with
  | none =>
    rw [hnote] at hlast
    by_cases hempty : t.payee.toList = []
    · simp [writtenPayee, hempty] at hlast
    · refine hreturn t.payee h.payee ?_
      obtain ⟨front, last, hpayee⟩ := List.eq_nil_or_concat t.payee.toList |>.resolve_left hempty
      simpa [writtenPayee, hpayee, List.getLast?_cons] using hlast
  | some s =>
    have hread := (h.note s hnote).resolve_left (hplain.note s hnote)
    obtain ⟨front, last, hs⟩ := List.eq_nil_or_concat s.toList |>.resolve_left hread.ne_nil
    refine hreturn s hread.trimmed ?_
    rw [hnote] at hlast
    simpa [hs, List.getLast?_cons] using hlast

theorem lines_text (h : t.IsRead) (hplain : t.IsPlain) : Text.lines (t.text ++ "\n").toList =
    t.headLine :: t.postings.map fun p => dropReturn p.text.toList := by
  have hlines : ∀ (line : List Char) (ps : List Posting), '\n' ∉ line →
      (∀ p ∈ ps, '\n' ∉ p.text.toList) →
      Text.lines (line ++ (ps.flatMap fun p => '\n' :: p.text.toList) ++ ['\n']) =
        dropReturn line :: ps.map fun p => dropReturn p.text.toList := by
    intro line ps hline hps
    have hends : ∀ c ∈ line, decide (c = '\n') = false := fun c hc =>
      decide_eq_false fun heq => hline (heq ▸ hc)
    induction ps generalizing line with
    | nil =>
      rw [List.flatMap_nil, List.append_nil, lines_cons hends]
      rfl
    | cons p ps ih =>
      obtain ⟨hp, hrest⟩ := List.forall_mem_cons.mp hps
      have hnext := ih p.text.toList hp hrest fun c hc => decide_eq_false fun heq => hp (heq ▸ hc)
      rw [List.flatMap_cons, List.cons_append, List.append_assoc, List.cons_append,
        lines_cons hends, hnext, List.map_cons]
  rw [String.toList_append, toList_text]
  have htext := hlines t.headLine t.postings (lineFeed_not_mem_headLine h.head hplain.head)
    fun p hp => p.lineFeed_not_mem_text (h.postings p hp) (hplain.postings p hp)
  rw [dropReturn_headLine h.head hplain.head] at htext
  exact htext

end Transaction

/-! ## Reading the lines -/

namespace Journal.Reading

variable {r : Reading} {p : Posting} {ps : List Posting} {t : Transaction} {span : Span}
  {kept : List (List Char)}

theorem faults_steps (h : r.faults ≠ []) (n : Nat) (lines : List (List Char)) :
    (r.steps n lines).faults ≠ [] := by
  induction lines generalizing r n with
  | nil => exact h
  | cons line rest ih =>
    refine ih ?_ (n + 1)
    rcases (step_moves r n line).faults with hsame | ⟨fault, hmore⟩
    · exact hsame ▸ h
    · simp [hmore]

theorem faults_finish (h : r.faults ≠ []) : r.finish.faults ≠ [] := by
  cases hblock : r.block.isVerbatim with
  | true =>
    obtain ⟨kind, opening, body, span, hverbatim⟩ := Block.isVerbatim_iff.mp hblock
    rw [finish_of_verbatim hverbatim]
    simp
  | false =>
    rw [finish_of_read hblock, close_eq]
    simpa using h

theorem step_headLine (h : t.IsRead) (hplain : t.IsPlain) (hblock : r.block = .closed) (n : Nat) :
    r.step n t.headLine = { r with block := .transaction t.headOnly (.line n) [t.headLine] } := by
  obtain ⟨c, cs, hline, hc⟩ := Transaction.exists_headLine_eq_cons hplain.head
  have hclose : r.close = r := by
    rw [close_eq, hblock]
    obtain ⟨year, block, directives, faults⟩ := r
    obtain rfl : block = .closed := hblock
    rfl
  have hread : Line.readHead t.headLine r.year = .ok t.headOnly :=
    Transaction.readHead_headLine h.head hplain.head
  rw [hline] at hread ⊢
  rw [step_head (by rw [hblock]; rfl) hc, hread, hclose]

theorem step_posting (hp : p.IsRead) (hblock : r.block = .transaction t span kept) (n : Nat) :
    (∃ q span' kept', p.ReadsAs r.year q ∧ r.step n (dropReturn p.text.toList) =
      { r with block := .transaction { t with postings := t.postings ++ [q] } span' kept' }) ∨
    (∀ q, ¬ p.ReadsAs r.year q) ∧ (r.step n (dropReturn p.text.toList)).faults ≠ [] := by
  obtain ⟨⟨hblank, hspacing⟩, hsemicolon⟩ := p.line_written hp
  have hadd : addToTransaction t (trim p.text.toList) r.year = do
      return { t with postings :=
        t.postings ++ [← Line.readPosting (trim p.text.toList) r.year] } := by
    unfold addToTransaction
    split
    case h_1 text heq => exact absurd (heq ▸ rfl) hsemicolon
    case h_2 => rfl
  have hstep : r.step n (dropReturn p.text.toList) =
      r.continueWith n (dropReturn p.text.toList) t
        (addToTransaction t (trim p.text.toList) r.year)
        (.transaction · (span.extendTo n) (dropReturn p.text.toList :: kept)) := by
    rw [step_of_read (by rw [hblock]; rfl), if_neg hblank, if_pos hspacing]
    simp only [indented, hblock, trim_dropReturn]
  rw [hstep, hadd]
  cases hread : Line.readPosting (trim p.text.toList) r.year with
  | ok q => exact .inl ⟨q, _, _, hread, rfl⟩
  | error fault =>
    refine .inr ⟨fun q hq => ?_, List.cons_ne_nil _ _⟩
    cases hread.symm.trans hq

/-- The lines of postings add what is read from them, or one of them has a fault. -/
theorem steps_postings (hps : ∀ p ∈ ps, p.IsRead) (hblock : r.block = .transaction t span kept)
    (n : Nat) :
    (∃ qs span' kept', List.Forall₂ (Posting.ReadsAs r.year) ps qs ∧
      r.steps n (ps.map fun p => dropReturn p.text.toList) =
        { r with block := .transaction { t with postings := t.postings ++ qs } span' kept' }) ∨
    (∃ p ∈ ps, ∀ q, ¬ p.ReadsAs r.year q) ∧
      (r.steps n (ps.map fun p => dropReturn p.text.toList)).faults ≠ [] := by
  induction ps generalizing r t span kept n with
  | nil =>
    refine .inl ⟨[], span, kept, .nil, ?_⟩
    rw [List.append_nil, ← hblock]
    rfl
  | cons p ps ih =>
    obtain ⟨hp, hrest⟩ := List.forall_mem_cons.mp hps
    rw [List.map_cons, steps]
    rcases step_posting hp hblock n with ⟨q, span', kept', hq, hstep⟩ | ⟨hnone, hfaults⟩
    · rw [hstep]
      rcases ih hrest (r := { r with block := _ }) rfl (n + 1) with
        ⟨qs, span'', kept'', hqs, hsteps⟩ | ⟨⟨p', hp', hnone⟩, hfaults⟩
      · refine .inl ⟨q :: qs, span'', kept'', .cons hq hqs, ?_⟩
        rw [hsteps, List.append_assoc]
        rfl
      · exact .inr ⟨⟨p', List.mem_cons_of_mem p hp', hnone⟩, hfaults⟩
    · exact .inr ⟨⟨p, List.mem_cons_self, hnone⟩, faults_steps hfaults (n + 1) _⟩

end Journal.Reading

/-! ## Round trips -/

/-- The text of the transaction is read without a fault, as the transaction and nothing else, on its
own lines. -/
def Transaction.ReadsBack (t : Transaction) (today : Date) : Prop :=
  ∃ span lines digest, Journal.ofText (t.text ++ "\n") today =
    ⟨[⟨.transaction { t with lines, digest }, span⟩], []⟩

namespace Journal

theorem transaction_inj {t t' : Transaction} {span span' : Span}
    {faults faults' : List JournalFault}
    (h : (⟨[⟨.transaction t, span⟩], faults⟩ : Journal) =
      ⟨[⟨.transaction t', span'⟩], faults'⟩) : t = t' :=
  Directive.transaction.inj (Spanned.mk.inj (List.cons.inj (mk.inj h).1).1).1

/-- A transaction that is read anywhere is read back from the text that it writes exactly if each of
its postings prints back, whatever year it is read in. -/
theorem ofText_text_iff {source : String} {today : Date} {t : Transaction} {span : Span}
    (hread : ⟨.transaction t, span⟩ ∈ (ofText source today).directives) (hplain : t.IsPlain)
    (today' : Date) : t.ReadsBack today' ↔ ∀ p ∈ t.postings, p.PrintsBack := by
  have h := ofText_isRead hread
  have hback : ∀ p ∈ t.postings, p.ReadsAs today'.year p ↔ p.PrintsBack := fun p hp =>
    Posting.readPosting_text_iff (h.postings p hp) (hplain.postings p hp)
  have htext : ofText (t.text ++ "\n") today' =
      (({ Reading.start today' with
        block := .transaction t.headOnly (.line 1) [t.headLine] } : Reading).steps 2
          (t.postings.map fun p => dropReturn p.text.toList)).finish := by
    rw [ofText, Transaction.lines_text h hplain, Reading.steps,
      Reading.step_headLine h hplain rfl]
  rw [Transaction.ReadsBack, htext]
  rcases Reading.steps_postings h.postings (r := { Reading.start today' with block := _ }) rfl 2
    with ⟨qs, span', kept, hqs, hsteps⟩ | ⟨⟨p, hp, hnone⟩, hfaults⟩
  · have hfinish : ({ Reading.start today' with
          block := .transaction { t.headOnly with postings := qs } span' kept } : Reading).finish =
        ⟨[⟨.transaction { t with
            postings := qs
            lines := (span'.first, span'.last)
            digest := Reading.digestOf kept.reverse }, span'⟩], []⟩ := rfl
    rw [hsteps]
    refine Iff.trans ⟨?same, ?_⟩ (forall₂_congr hback)
    case same =>
      rintro ⟨span'', lines, digest, heq⟩
      obtain rfl : qs = t.postings := congrArg Transaction.postings (transaction_inj heq)
      exact List.forall₂_same.mp hqs
    · intro hall
      obtain rfl : qs = t.postings := List.right_unique_forall₂'
        (fun p q q' hq hq' => Except.ok.inj (hq.symm.trans hq')) hqs (List.forall₂_same.mpr hall)
      exact ⟨span', _, _, hfinish⟩
  · refine iff_of_false ?_ fun hall => ?_
    · rintro ⟨span', lines, digest, heq⟩
      have hnonempty := Reading.faults_finish hfaults
      rw [heq] at hnonempty
      exact hnonempty rfl
    · exact hnone p ((hback p hp).mpr (hall p hp))

theorem ofText_text_shares :
    let today : Date := ⟨2024, 6, 1, by decide⟩
    let source := "2024/01/01=2024/01/05 * (42) Buy  ; lot\n" ++
      "    Shares  10 ACME \x7b\x7b$50\x7d\x7d [2023/12/31] @ $6 = 20 ACME  ; kept\n" ++
      "    ! (Cash)\n"
    ∃ t span, ⟨.transaction t, span⟩ ∈ (ofText source today).directives ∧ t.IsPlain ∧
      (∀ p ∈ t.postings, p.PrintsBack) ∧ t.ReadsBack today := by
  intro today source
  let shares (n : Decimal) : Commodity := .plain "ACME" n
  let t : Transaction := {
    Transaction.ofPayee ⟨2024, 1, 1, by decide⟩ "Buy" with
    effective := some ⟨2024, 1, 5, by decide⟩
    clearing := some .cleared
    code := some "42"
    note := some "lot"
    postings := [
      { Posting.ofAmount "Shares" (shares ⟨false, 10, 0, by decide, by decide⟩) with
        lotPrice := some { Commodity.ofCurrency "$" ⟨false, 50, 0, by decide, by decide⟩ with
          total := true }
        lotDate := some ⟨2023, 12, 31, by decide⟩
        costPrice := some (.ofCurrency "$" ⟨false, 6, 0, by decide, by decide⟩)
        balancePrice := some (shares ⟨false, 20, 0, by decide, by decide⟩)
        note := some "kept" },
      { Posting.tally "Cash" with kind := .virtual, clearing := some .pending }]
    lines := (1, 3)
    digest := "54d0db6f453e27500a641efd6069c4c4facfd206a7cafa5e70a8ee0cbc3c7788" }
  have hread : ⟨.transaction t, ⟨1, 3⟩⟩ ∈ (ofText source today).directives := by decide +kernel
  have hplain : t.IsPlain :=
    ⟨⟨by decide, by decide, by decide +kernel, rfl, rfl⟩, by decide +kernel⟩
  have hback : ∀ p ∈ t.postings, p.PrintsBack := by decide +kernel
  exact ⟨t, ⟨1, 3⟩, hread, hplain, hback, (ofText_text_iff hread hplain today).mpr hback⟩

/-- Neither the quotes of a name nor the equals sign of a fixed price are written. -/
theorem quotes_and_fixedPrice_not_written :
    let today : Date := ⟨2024, 6, 1, by decide⟩
    let differs (source : String) : Prop := ∃ t span,
      ofText source today = ⟨[⟨.transaction t, span⟩], []⟩ ∧ t.IsPlain ∧ ¬ t.ReadsBack today
    differs "2024/01/01 x\n    A  3 \"BTC2\"\n    B\n" ∧
      differs "2024/01/01 x\n    A  5 EUR \x7b=$1.10\x7d\n    B\n" := by
  intro today differs
  let written (p : Posting) (digest : String) : Transaction :=
    { Transaction.ofPayee ⟨2024, 1, 1, by decide⟩ "x" with
      postings := [p, .tally "B"], lines := (1, 3), digest }
  refine ⟨?quotes, ?fixedPrice⟩
  case quotes =>
    let t := written (.ofAmount "A" (.plain "BTC2" ⟨false, 3, 0, by decide, by decide⟩))
      "212ec980aeab833badbe1daf0680a06066f334114f193f015011199cfe208aaa"
    refine ⟨t, ⟨1, 3⟩, by decide +kernel,
      ⟨⟨by decide, by decide, by decide, rfl, rfl⟩, by decide +kernel⟩, ?_⟩
    rintro ⟨span, lines, digest, heq⟩
    have hfaults : (ofText (t.text ++ "\n") today).faults ≠ [] := by decide +kernel
    exact hfaults (heq ▸ rfl)
  case fixedPrice =>
    let lot (fixprice : Bool) : Posting :=
      { Posting.ofAmount "A" (.plain "EUR" ⟨false, 5, 0, by decide, by decide⟩) with
        lotPrice := some { Commodity.ofCurrency "$" ⟨false, 110, 2, by decide, by decide⟩ with
          fixprice } }
    let t := written (lot true) "c3c5759eaee308925c14aa1cbd6e099f066770d7c0e73dc9da19b8f535b6e46b"
    let t' := written (lot false) "7cf46727dd92d2f64a077c609d773250202b94d050e0e23a5aec72228f4c6e66"
    have hback : ofText (t.text ++ "\n") today = ⟨[⟨.transaction t', ⟨1, 3⟩⟩], []⟩ := by
      decide +kernel
    refine ⟨t, ⟨1, 3⟩, by decide +kernel,
      ⟨⟨by decide, by decide, by decide, rfl, rfl⟩, by decide +kernel⟩, ?_⟩
    rintro ⟨span, lines, digest, heq⟩
    have heq := transaction_inj (hback.symm.trans heq)
    have hpostings : t'.postings = t.postings := by rw [heq]
    exact absurd hpostings (by decide)

end Journal

end Daybook
