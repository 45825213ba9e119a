import Daybook.Proofs.Journal.ReadPosting

/-!
# Postings as they are written

Which postings print back: those that have an amount wherever they have an annotation of it, no fixed
price, no name that needs quotes or ends in a blank, and no account that is taken for a mark. Main
statement: these are read back from the line that they write (`readPosting_of_printsBack`).
-/

namespace Daybook

open Daybook.Text Daybook.Result

namespace Posting

variable {p : Posting} {behind : List Char} {year : Int}

def writtenMark (p : Posting) : List Char :=
  match p.clearing with
  | some state => [state.char, ' ']
  | none => []

def writtenAccount (p : Posting) : List Char := Line.enclosed p.kind p.account.text.toList

/-- The posting has an amount, if it has any annotation of one. -/
def IsComplete (p : Posting) : Prop := p.amount = none →
  p.lotPrice = none ∧ p.lotDate = none ∧ p.costPrice = none ∧ p.balancePrice = none

instance (p : Posting) : Decidable p.IsComplete := inferInstanceAs (Decidable (_ → _))

/-- What makes a posting come back as it was when its text is read. -/
structure PrintsBack (p : Posting) : Prop where
  /-- Without an amount, annotations are read as part of the account. -/
  complete : p.IsComplete
  /-- The sign of a fixed price is not written. -/
  loose : ∀ c ∈ p.lotPrice, c.fixprice = false
  /-- Names are written without quotes. -/
  bare : ∀ c ∈ p.amounts, c.IsBare
  /-- A blank at the end of the last name is lost with the end of the line. -/
  ending : trimEnd p.text.toList = p.text.toList
  /-- An account that is a mark and nothing else is read as one. -/
  unmarked : p.clearing = none → ¬ Line.IsMark p.writtenAccount

instance (p : Posting) : Decidable p.PrintsBack :=
  decidable_of_iff (p.IsComplete ∧ (∀ c ∈ p.lotPrice, c.fixprice = false) ∧
      (∀ c ∈ p.amounts, c.IsBare) ∧ trimEnd p.text.toList = p.text.toList ∧
      (p.clearing = none → ¬ Line.IsMark p.writtenAccount))
    ⟨fun ⟨complete, loose, bare, ending, unmarked⟩ => ⟨complete, loose, bare, ending, unmarked⟩,
      fun h => ⟨h.complete, h.loose, h.bare, h.ending, h.unmarked⟩⟩

/-- The posting is written on a line, without tags and metadata, and the year of the date that it
names has four digits. -/
structure IsPlain (p : Posting) : Prop where
  lotDate : ∀ d ∈ p.lotDate, d.HasPlainYear
  note : ∀ s ∈ p.note, '\n' ∉ s.toList
  tags : p.tags = []
  metadata : p.metadata = .empty

instance (p : Posting) : Decidable p.IsPlain :=
  decidable_of_iff ((∀ d ∈ p.lotDate, d.HasPlainYear) ∧ (∀ s ∈ p.note, '\n' ∉ s.toList) ∧
      p.tags = [] ∧ p.metadata = .empty)
    ⟨fun ⟨lotDate, note, tags, metadata⟩ => ⟨lotDate, note, tags, metadata⟩,
      fun h => ⟨h.lotDate, h.note, h.tags, h.metadata⟩⟩

/-! ## The text -/

theorem toList_text (p : Posting) : p.text.toList =
    [' ', ' ', ' ', ' '] ++ (p.writtenMark ++ (p.writtenAccount ++ p.writtenTail.toList)) := by
  have hmark : (writtenPart "" (p.clearing.map (·.char.toString)) " ").toList = p.writtenMark := by
    rw [writtenMark]
    cases p.clearing <;> simp [writtenPart]
  simp only [text, writtenTail, String.toList_append, hmark, Line.toList_enclose, writtenAccount,
    String.append_assoc]
  rfl

theorem isAccountName_writtenAccount (h : p.IsRead) : Line.IsAccountName p.writtenAccount :=
  h.account.name.enclosed p.kind

theorem trimEnd_text (h : p.IsRead) : trimEnd p.text.toList = [' ', ' ', ' ', ' '] ++
    (p.writtenMark ++ (p.writtenAccount ++ trimEnd p.writtenTail.toList)) := by
  have hname := isAccountName_writtenAccount h
  have hbehind : trimEnd (p.writtenAccount ++ p.writtenTail.toList) =
      p.writtenAccount ++ trimEnd p.writtenTail.toList :=
    trimEnd_append_of_trimEnd_eq (trimEnd_of_trim_eq hname.trimmed) _
  have hne : trimEnd (p.writtenAccount ++ p.writtenTail.toList) ≠ [] := by
    rw [hbehind]
    exact List.append_ne_nil_of_left_ne_nil hname.ne_nil _
  rw [toList_text, ← List.append_assoc _ p.writtenMark, trimEnd_append_of_ne_nil hne, hbehind,
    List.append_assoc]

theorem trim_text (h : p.IsRead) : trim p.text.toList =
    p.writtenMark ++ (p.writtenAccount ++ trimEnd p.writtenTail.toList) := by
  have hname := isAccountName_writtenAccount h
  have hstart : trimStart (p.writtenMark ++ (p.writtenAccount ++ trimEnd p.writtenTail.toList)) =
      p.writtenMark ++ (p.writtenAccount ++ trimEnd p.writtenTail.toList) := by
    rw [writtenMark]
    cases p.clearing with
    | none => exact hname.trimStart_append _
    | some state => cases state <;> rfl
  have hspaces : ∀ cs, trimStart ([' ', ' ', ' ', ' '] ++ cs) = trimStart cs := fun cs => rfl
  rw [trim, trimEnd_trimStart, trimEnd_text h, hspaces, hstart]

theorem trimEnd_text_eq_iff (h : p.IsRead) : trimEnd p.text.toList = p.text.toList ↔
    trimEnd p.writtenTail.toList = p.writtenTail.toList := by
  rw [trimEnd_text h, toList_text, List.append_cancel_left_eq, List.append_cancel_left_eq,
    List.append_cancel_left_eq]

/-! ## The account -/

theorem takeClearing_written (h : p.IsRead)
    (hmark : p.clearing = none → ¬ Line.IsMark p.writtenAccount) (behind : List Char) :
    Line.takeClearing (p.writtenMark ++ (p.writtenAccount ++ behind)) =
      (p.clearing, p.writtenAccount ++ behind) := by
  have hname := isAccountName_writtenAccount h
  rw [writtenMark]
  cases hclearing : p.clearing with
  | none =>
    exact Line.takeClearing_unmarked (h.account.unmarked hclearing) hname.ne_nil
      (trimStart_of_trim_eq hname.trimmed) (hmark hclearing) behind
  | some state =>
    change Line.takeClearing (state.char :: ' ' :: (p.writtenAccount ++ behind)) = _
    rw [Line.takeClearing_mark, hname.trimStart_append]

/-- The mark and the account are read from what is written, and then what is behind them. -/
theorem readPosting_written (h : p.IsRead)
    (hmark : p.clearing = none → ¬ Line.IsMark p.writtenAccount) (hends : Line.Ends behind) :
    Line.readPosting (p.writtenMark ++ (p.writtenAccount ++ behind)) year = (do
      let tail ← (Amount.readTail behind).mapError .invalidAmount
      let lotDate ← Line.readLotDate tail.lotDate year
      return Line.postingOf p.clearing p.kind p.account.text.toList tail lotDate) := by
  have hname := isAccountName_writtenAccount h
  have hkind : Line.readAccount (trim p.writtenAccount) = (p.kind, p.account.text.toList) := by
    rw [hname.trimmed]
    exact Line.readAccount_enclosed h.account.brackets
  have hcut : Line.cutAccount (p.writtenAccount ++ behind) = (p.writtenAccount, behind) := by
    rw [hname.cutAccount, hends.cutAccount, List.append_nil]
  rw [Line.readPosting_eq (takeClearing_written h hmark behind) hcut hkind,
    if_neg (hname.trimmed.symm ▸ hname.ne_nil),
    if_neg (h.account.name.trimmed.symm ▸ h.account.name.ne_nil)]

/-! ## Behind the account -/

theorem exists_not_blank_of_isExact {c : Commodity} (h : c.IsExact) :
    ∃ x ∈ c.text.toList, isBlank x = false := by
  obtain ⟨x, xs, hdigits, hx⟩ := c.amount.exists_digits_eq_cons
  refine ⟨x, ?_, isBlank_eq_false_of_isDigit hx⟩
  have hmem : x ∈ c.unsignedText := by
    rw [Commodity.unsignedText, hdigits]
    split
    · simp
    · split <;> simp
  rw [Commodity.toList_text h]
  split
  · exact List.mem_cons_of_mem _ hmem
  · exact hmem

theorem ends_trimEnd (hexact : ∀ c ∈ p.amounts, c.IsExact) (hcomplete : p.IsComplete) :
    Line.Ends (trimEnd p.writtenTail.toList) ∧ Line.Ends p.writtenTail.toList := by
  have hspaces : ∀ cs : List Char, (∃ x ∈ cs, isBlank x = false) →
      Line.Ends (trimEnd ([' ', ' '] ++ cs)) ∧ Line.Ends ([' ', ' '] ++ cs) := by
    rintro cs ⟨x, hx, hblank⟩
    rw [trimEnd_append_of_ne_nil (trimEnd_ne_nil hx hblank)]
    exact ⟨.inr (List.prefix_append _ _), .inr (List.prefix_append _ _)⟩
  cases hamount : p.amount with
  | none =>
    obtain ⟨hlot, hdate, hcost, hbalance⟩ := hcomplete hamount
    cases hnote : p.note with
    | none =>
      have htail : p.writtenTail.toList = [] := by
        simp [writtenTail, hamount, hlot, hdate, hcost, hbalance, hnote, writtenPart]
      rw [htail]
      exact ⟨.inl rfl, .inl rfl⟩
    | some s =>
      have htail : p.writtenTail.toList = [' ', ' '] ++ (';' :: ' ' :: s.toList) := by
        simp [writtenTail, hamount, hlot, hdate, hcost, hbalance, hnote, writtenPart]
      rw [htail]
      exact hspaces _ ⟨';', List.mem_cons_self, by decide⟩
  | some c =>
    have hc : c.IsExact := hexact c (mem_amounts.mpr (.inl hamount))
    obtain ⟨x, hx, hblank⟩ := exists_not_blank_of_isExact hc
    obtain ⟨rest, htail⟩ :
        ∃ rest, p.writtenTail.toList = [' ', ' '] ++ (c.text.toList ++ rest) := by
      rw [writtenTail, hamount]
      simp [writtenPart]
    rw [htail]
    exact hspaces _ ⟨x, List.mem_append_left _ hx, hblank⟩

/-- What is read from what the posting writes. -/
def asRead (p : Posting) : Posting :=
  { p with
    amount := p.amount.map (·.unqualified)
    lotPrice := p.lotPrice.map (·.loosened)
    costPrice := p.costPrice.map (·.loosened)
    balancePrice := p.balancePrice.map (·.unqualified) }

theorem readLotDate_tail (h : p.IsPlain) :
    Line.readLotDate p.tail.lotDate year = .ok p.lotDate := by
  rw [tail]
  cases hdate : p.lotDate with
  | none => rfl
  | some d =>
    have hread := DateSpec.readJournalDate_text (h.lotDate d hdate) year
    rw [← String.ofList_toList (s := d.text)] at hread
    change (do return some (← Line.readDate d.text.toList year)) = _
    rw [Line.readDate, hread]
    rfl

theorem postingOf_tail (h : p.IsRead) (hplain : p.IsPlain) :
    Line.postingOf p.clearing p.kind p.account.text.toList p.tail p.lotDate = p.asRead := by
  have haccount : AccountRef.ofText (String.ofList (trim p.account.text.toList)) = p.account := by
    rw [h.account.name.trimmed, String.ofList_toList, h.account.ofText]
  obtain ⟨account, kind, clearing, amount, lotPrice, lotDate, costPrice, balancePrice, note, tags,
    metadata⟩ := p
  obtain ⟨-, hnote, rfl, rfl⟩ := hplain
  cases note with
  | none =>
    simp only [Line.postingOf, tail, tally, asRead, Option.map_none, haccount]
  | some s =>
    have hs : Annotations.IsNote s.toList := (h.note s rfl).resolve_left (hnote s rfl)
    have hcomment : trim (Amount.commentText (';' :: ' ' :: s.toList)).toList = s.toList := by
      rw [Amount.commentText, String.toList_ofList, trim_trim, List.drop_one, List.tail_cons, trim,
        trimStart_space]
      exact hs.trimmed
    have hadd := Annotations.add_isNote hs hcomment
    simp only [Line.postingOf, tail, tally, asRead, Option.map_some, haccount, annotate, hadd]

theorem readTail_tail (h : p.IsRead) (hplain : p.IsPlain) (hbare : ∀ c ∈ p.amounts, c.IsBare) :
    Amount.readTail p.writtenTail.toList = .ok p.tail :=
  readTail_writtenTail hbare (fun c hc => (h.amounts c hc).exact) hplain.lotDate hplain.note

theorem asRead_eq (h : p.IsRead) (hloose : ∀ c ∈ p.lotPrice, c.fixprice = false) :
    p.asRead = p := by
  have hmap : ∀ {f : Commodity → Commodity} {value : Option Commodity},
      (∀ c ∈ value, f c = c) → value.map f = value := by
    intro f value hf
    cases value with
    | none => rfl
    | some c => exact congrArg some (hf c rfl)
  have hlot : ∀ c ∈ p.lotPrice, c.loosened = c := fun c hc => by
    rw [Commodity.loosened, ← hloose c hc]
  rw [asRead, hmap h.amount, hmap hlot, hmap h.cost, hmap h.balance]

theorem readPosting_of_printsBack (h : p.IsRead) (hplain : p.IsPlain) (hback : p.PrintsBack) :
    Line.readPosting (trim p.text.toList) year = .ok p := by
  have hexact : ∀ c ∈ p.amounts, c.IsExact := fun c hc => (h.amounts c hc).exact
  rw [trim_text h, (trimEnd_text_eq_iff h).mp hback.ending,
    readPosting_written h hback.unmarked (ends_trimEnd hexact hback.complete).2,
    readTail_tail h hplain hback.bare]
  change (do
    let lotDate ← Line.readLotDate p.tail.lotDate year
    return Line.postingOf p.clearing p.kind p.account.text.toList p.tail lotDate) = _
  rw [readLotDate_tail hplain]
  change Except.ok (Line.postingOf p.clearing p.kind p.account.text.toList p.tail p.lotDate) = _
  rw [postingOf_tail h hplain, asRead_eq h hback.loose]

end Posting

end Daybook
