import Daybook.Proofs.Journal.ReadTail
import Daybook.Proofs.Journal.WrittenAccount

/-!
# What is read as a posting

A line is read as a posting if its parts are (`readPosting_eq_ok_iff`). What has been read satisfies
`Posting.IsRead`: its account, its amounts and its note are such as a line can give.
-/

namespace Daybook

open Daybook.Text Daybook.Result

/-! ## Notes -/

namespace Annotations

variable {a : Annotations} {s : String} {text : List Char}

/-- The text is taken for a note when it stands alone behind a semicolon. -/
structure IsNote (cs : List Char) : Prop where
  trimmed : trim cs = cs
  ne_nil : cs ≠ []
  tags : tags? cs = none
  entry : keyed? cs = none

/-- What is read as a note: it has several lines, or it is taken for a note when it is read
again. -/
def IsReadNote (s : String) : Prop := '\n' ∈ s.toList ∨ IsNote s.toList

theorem add_isNote (h : IsNote s.toList) (htext : trim text = s.toList) :
    (⟨none, [], .empty⟩ : Annotations).add text = ⟨some s, [], .empty⟩ := by
  rw [add, htext]
  simp only [if_neg h.ne_nil, h.tags, h.entry, String.ofList_toList]

theorem add_isReadNote (h : ∀ s ∈ a.note, IsReadNote s) (text : List Char) :
    ∀ s ∈ (a.add text).note, IsReadNote s := by
  rw [add]
  split
  case isTrue => exact h
  case isFalse hne =>
    split
    case h_1 => exact h
    case h_2 htags =>
      split
      case h_1 => exact h
      case h_2 hentry =>
        intro s hs
        obtain rfl := Option.some.inj hs
        split
        case h_1 => exact .inl (by simp)
        case h_2 =>
          rw [IsReadNote, String.toList_ofList]
          exact .inr ⟨trim_trim text, hne, htags, hentry⟩

end Annotations

/-- The account of a posting, its kind and its mark are such as a line can give. -/
structure Line.IsReadAccount (account : AccountRef) (kind : PostingKind)
    (clearing : Option Clearing) : Prop where
  ofText : AccountRef.ofText account.text = account
  name : IsAccountName account.text.toList
  oneLine : '\n' ∉ account.text.toList
  brackets : kind = .real → readAccount account.text.toList = (.real, account.text.toList)
  unmarked : clearing = none → Unmarked (enclosed kind account.text.toList)

namespace Posting

variable {p : Posting}

/-- The posting is such as a line can give. -/
structure IsRead (p : Posting) : Prop where
  account : Line.IsReadAccount p.account p.kind p.clearing
  amounts : ∀ c ∈ p.amounts, c.IsRead IsPlainName
  amount : ∀ c ∈ p.amount, c.unqualified = c
  cost : ∀ c ∈ p.costPrice, c.loosened = c
  balance : ∀ c ∈ p.balancePrice, c.unqualified = c
  note : ∀ s ∈ p.note, Annotations.IsReadNote s

theorem IsRead.annotate (h : p.IsRead) (text : List Char) : (p.annotate text).IsRead :=
  { h with note := Annotations.add_isReadNote h.note text }

end Posting

/-! ## The parts of a line -/

namespace Line

variable {cs written behind name : List Char} {clearing : Option Clearing} {kind : PostingKind}
  {year : Int} {p : Posting}

/-- The text is a mark, an account and what follows it. -/
def Splits (cs : List Char) (clearing : Option Clearing) (written behind : List Char) : Prop :=
  ∃ rest account, takeClearing cs = (clearing, rest) ∧ cutAccount rest = (account, behind) ∧
    trim account = written

def readLotDate (raw : Option String) (year : Int) : Result (Option Date) :=
  match raw with
  | some raw => return some (← readDate raw.toList year)
  | none => return none

/-- The posting that the parts of a line make up. -/
def postingOf (clearing : Option Clearing) (kind : PostingKind) (name : List Char)
    (tail : PostingTail) (lotDate : Option Date) : Posting :=
  let p : Posting :=
    { Posting.tally (String.ofList (trim name)) with
      kind, clearing, amount := tail.amount, lotPrice := tail.lotPrice, lotDate,
      costPrice := tail.costPrice, balancePrice := tail.balancePrice }
  match tail.comment with
  | some text => p.annotate text.toList
  | none => p

theorem readPosting_eq {rest account : List Char} (hclearing : takeClearing cs = (clearing, rest))
    (haccount : cutAccount rest = (account, behind))
    (hkind : readAccount (trim account) = (kind, name)) :
    readPosting cs year =
      if trim account = [] then .error .missingAccount
      else if trim name = [] then .error .missingAccount
      else do
        let tail ← (Amount.readTail behind).mapError .invalidAmount
        let lotDate ← readLotDate tail.lotDate year
        return postingOf clearing kind name tail lotDate := by
  simp only [readPosting, hclearing, haccount, hkind]
  by_cases hempty : trim account = []
  · rw [if_pos hempty, if_pos hempty]
    rfl
  by_cases hname : trim name = []
  · rw [if_neg hempty, if_neg hempty, if_pos hname, if_pos hname]
    rfl
  rw [if_neg hempty, if_neg hempty, if_neg hname, if_neg hname]
  congr 1
  funext tail
  unfold readLotDate
  cases tail.lotDate with
  | none => rfl
  | some raw =>
    dsimp only
    cases readDate raw.toList year <;> rfl

/-- A line is read as a posting exactly if its parts are. -/
theorem readPosting_eq_ok_iff : readPosting cs year = .ok p ↔
    ∃ clearing written behind kind name tail lotDate, Splits cs clearing written behind ∧
      written ≠ [] ∧ readAccount written = (kind, name) ∧ trim name ≠ [] ∧
      Amount.readTail behind = .ok tail ∧ readLotDate tail.lotDate year = .ok lotDate ∧
      postingOf clearing kind name tail lotDate = p := by
  constructor
  · intro h
    rcases hclearing : takeClearing cs with ⟨clearing, rest⟩
    rcases haccount : cutAccount rest with ⟨account, behind⟩
    rcases hkind : readAccount (trim account) with ⟨kind, name⟩
    rw [readPosting_eq hclearing haccount hkind] at h
    by_cases hempty : trim account = []
    · rw [if_pos hempty] at h
      cases h
    by_cases hname : trim name = []
    · rw [if_neg hempty, if_pos hname] at h
      cases h
    rw [if_neg hempty, if_neg hname] at h
    obtain ⟨tail, htail, h⟩ := bind_eq_ok_iff.mp h
    obtain ⟨lotDate, hdate, h⟩ := bind_eq_ok_iff.mp h
    exact ⟨clearing, _, behind, kind, name, tail, lotDate,
      ⟨rest, account, hclearing, haccount, rfl⟩, hempty, hkind, hname,
      mapError_eq_ok_iff.mp htail, hdate, pure_eq_ok_iff.mp h⟩
  · rintro ⟨clearing, written, behind, kind, name, tail, lotDate,
      ⟨rest, account, hclearing, haccount, rfl⟩, hempty, hkind, hname, htail, hdate, rfl⟩
    rw [readPosting_eq hclearing haccount hkind, if_neg hempty, if_neg hname, htail]
    change (do
      let lotDate ← readLotDate tail.lotDate year
      return postingOf clearing kind name tail lotDate) = _
    rw [hdate]
    rfl

theorem trim_prefix_of_trimStart {cs ds : List Char} (hcs : trimStart cs = cs) (hds : ds <+: cs) :
    trim ds <+: cs := by
  have hstart : trimStart ds = ds := by
    refine trimStart_eq_self_iff.mpr fun c hc => trimStart_eq_self_iff.mp hcs c ?_
    obtain ⟨more, rfl⟩ := hds
    obtain ⟨rest, rfl⟩ := List.head?_eq_some_iff.mp hc
    rfl
  rw [trim, hstart]
  exact (trimEnd_isPrefix ds).trans hds

theorem isReadAccount_of_splits (hline : '\n' ∉ cs) (h : Splits cs clearing written behind)
    (hkind : readAccount written = (kind, name)) (hname : trim name ≠ []) :
    IsReadAccount (.ofText (String.ofList (trim name))) kind clearing := by
  obtain ⟨rest, account, hclearing, haccount, rfl⟩ := h
  have hrest : trimStart rest = rest := by
    have hstart := trimStart_takeClearing cs
    rwa [hclearing] at hstart
  have hfront : account <+: rest := by
    have happend := cutAccount_append rest
    rw [haccount] at happend
    exact ⟨behind, happend⟩
  have henclosed := enclosed_of_readAccount hkind
  have hwithin : trim name <:+: account := by
    have hname' := infix_enclosed kind name
    rw [henclosed] at hname'
    exact (trim_isInfix name).trans (hname'.trans (trim_isInfix account))
  have hsolid : Solid account := by
    have hcut := solid_cutAccount rest
    rwa [haccount] at hcut
  have hlineEnd : '\n' ∉ trim name := by
    have hsuffix := takeClearing_suffix cs
    rw [hclearing] at hsuffix
    exact fun hmem => hline (hsuffix.subset (hfront.subset (hwithin.subset hmem)))
  have hreal : kind = .real → name = trim account ∧ trim name = name := by
    rintro rfl
    have hwritten : name = trim account := henclosed
    exact ⟨hwritten, by rw [hwritten, trim_trim]⟩
  have htext : (AccountRef.ofText (String.ofList (trim name))).text.toList = trim name := by
    rw [AccountRef.text_ofText, String.toList_ofList]
  refine ⟨by rw [AccountRef.text_ofText], ?name, htext.symm ▸ hlineEnd, ?kind, ?unmarked⟩
  case name => exact htext.symm ▸ ⟨hsolid.within hwithin, trim_trim name, hname⟩
  case kind =>
    intro hkind'
    obtain ⟨hwritten, htrim⟩ := hreal hkind'
    rw [← hwritten, hkind'] at hkind
    rw [htext, htrim, hkind]
  case unmarked =>
    rintro rfl
    rw [htext]
    by_cases hkind' : kind = .real
    · obtain ⟨hwritten, htrim⟩ := hreal hkind'
      rw [hkind', htrim, hwritten]
      exact (unmarked_of_takeClearing hclearing).front (trim_prefix_of_trimStart hrest hfront)
    · exact unmarked_of_ne_real hkind' _

theorem readPosting_isRead (hline : '\n' ∉ cs) (h : readPosting cs year = .ok p) : p.IsRead := by
  obtain ⟨clearing, written, behind, kind, name, tail, lotDate, hsplits, -, hkind, hname, htail, -,
    rfl⟩ := readPosting_eq_ok_iff.mp h
  have haccount := isReadAccount_of_splits hline hsplits hkind hname
  have hnames := Amount.readTail_isRead (fun ts hts => (Token.names_ofChars hts).1) htail
  have hread : ({ Posting.tally (String.ofList (trim name)) with
      kind, clearing, amount := tail.amount, lotPrice := tail.lotPrice, lotDate,
      costPrice := tail.costPrice, balancePrice := tail.balancePrice } : Posting).IsRead := by
    exact ⟨haccount, Posting.forall_mem_amounts.mpr ⟨fun c hc => (hnames.amount c hc).1,
      hnames.lotPrice, fun c hc => (hnames.costPrice c hc).1,
      fun c hc => (hnames.balancePrice c hc).1⟩, fun c hc => (hnames.amount c hc).2,
      fun c hc => (hnames.costPrice c hc).2, fun c hc => (hnames.balancePrice c hc).2,
      fun s hs => by cases hs⟩
  rw [postingOf]
  cases tail.comment with
  | none => exact hread
  | some text => exact hread.annotate text.toList

end Line

end Daybook
