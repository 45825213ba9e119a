import Daybook.Proofs.Journal.WrittenPosting

/-!
# Postings that come back as they were

A posting is read back from the line that it writes exactly if it prints back
(`readPosting_text_iff`): each condition is lost in the reading if it does not hold.
-/

namespace Daybook

open Daybook.Text Daybook.Result

namespace Line

variable {cs : List Char} {year : Int} {p : Posting}

/-- Where the parts of a posting are found on its line. -/
theorem parts_of_readPosting (h : readPosting cs year = .ok p) :
    (takeClearing cs).1 = p.clearing ∧
    (∃ name, readAccount (trim (cutAccount (takeClearing cs).2).1) = (p.kind, name) ∧
      trim name = p.account.text.toList) ∧
    ∃ tail, Amount.readTail (cutAccount (takeClearing cs).2).2 = .ok tail ∧
      p.amount = tail.amount ∧ p.lotPrice = tail.lotPrice ∧ p.costPrice = tail.costPrice ∧
      p.balancePrice = tail.balancePrice := by
  obtain ⟨clearing, written, behind, kind, name, tail, lotDate,
    ⟨rest, account, hclearing, haccount, rfl⟩, -, hkind, -, htail, -, rfl⟩ :=
    readPosting_eq_ok_iff.mp h
  have htext : (AccountRef.ofText (String.ofList (trim name))).text.toList = trim name := by
    rw [AccountRef.text_ofText, String.toList_ofList]
  rw [hclearing, haccount]
  rw [postingOf]
  cases tail.comment <;>
    exact ⟨rfl, ⟨name, hkind, htext.symm⟩, tail, htail, rfl, rfl, rfl, rfl⟩

end Line

namespace Commodity

variable {c : Commodity}

/-- The amount as it is written where blanks are lost at the end of its text. -/
def trimmed (c : Commodity) : Commodity :=
  if c.currency then c else { c with name := String.ofList (trimEnd c.name.toList) }

theorem trimmed_total (c : Commodity) : c.trimmed.total = c.total := by
  rw [trimmed]
  split <;> rfl

theorem trimmed_isExact (h : c.IsExact) : c.trimmed.IsExact := by
  rw [trimmed]
  split <;> exact h

theorem trimmed_isBare (h : c.IsBare) : c.trimmed.IsBare := by
  rw [trimmed]
  split
  case isTrue => exact h
  case isFalse hcurrency =>
    refine ⟨fun x hx => h.1 x ((trimEnd_isPrefix _).subset ?_), fun htrue => absurd htrue hcurrency⟩
    simpa using hx

theorem trimEnd_digits (a : Decimal) : trimEnd a.digits = a.digits := by
  refine trimEnd_eq_self_iff.mpr fun c hc => ?_
  rcases Decimal.mem_digits (List.mem_of_getLast? hc) with hdigit | rfl
  · exact isBlank_eq_false_of_isDigit hdigit
  · decide

theorem trimEnd_unsignedText (c : Commodity) : trimEnd c.unsignedText = c.trimmed.unsignedText := by
  have hdigits := trimEnd_digits c.amount
  have hne : trimEnd c.amount.digits ≠ [] := by
    obtain ⟨x, xs, hcons, -⟩ := c.amount.exists_digits_eq_cons
    rw [hdigits, hcons]
    exact List.cons_ne_nil x xs
  by_cases hcurrency : c.currency = true
  · rw [unsignedText, if_pos hcurrency, trimEnd_append_of_ne_nil hne, hdigits, trimmed,
      if_pos hcurrency, unsignedText, if_pos hcurrency]
  · have htrimmed : c.trimmed.unsignedText =
        if trimEnd c.name.toList = [] then c.amount.digits
        else c.amount.digits ++ ' ' :: trimEnd c.name.toList := by
      rw [trimmed, if_neg hcurrency, unsignedText]
      simp [hcurrency]
    have hspace : trimEnd (' ' :: c.name.toList) =
        if trimEnd c.name.toList = [] then [] else ' ' :: trimEnd c.name.toList := by
      split
      case isTrue hnil =>
        refine trimEnd_eq_nil_iff.mpr (List.forall_mem_cons.mpr ⟨by decide, ?_⟩)
        exact trimEnd_eq_nil_iff.mp hnil
      case isFalse hname => exact trimEnd_append_of_ne_nil hname [' ']
    rw [htrimmed, unsignedText, if_neg hcurrency]
    by_cases hname : c.name = ""
    · have hempty : trimEnd c.name.toList = [] := by
        rw [hname]
        rfl
      rw [if_pos hname, if_pos hempty, hdigits]
    · rw [if_neg hname, trimEnd_append_of_trimEnd_eq hdigits, hspace]
      split <;> simp

theorem trimEnd_text (h : c.IsExact) : trimEnd c.text.toList = c.trimmed.text.toList := by
  have hsign : c.trimmed.amount.negative = c.amount.negative := by
    rw [trimmed]
    split <;> rfl
  have hminus : trimEnd ['-'] = ['-'] := trimEnd_concat (by decide) []
  rw [toList_text h, toList_text (trimmed_isExact h), hsign]
  split
  · rw [← List.singleton_append, trimEnd_append_of_trimEnd_eq hminus, trimEnd_unsignedText]
    rfl
  · exact trimEnd_unsignedText c

end Commodity

namespace Posting

variable {p : Posting} {cs : List Char} {year : Int}

/-! ## Without an amount -/

/-- The text begins with a single space, behind which an account goes on. -/
def GoesOn (cs : List Char) : Prop :=
  ∃ x rest, cs = [' ', x] ++ rest ∧ isBlank x = false ∧ x ≠ ';'

theorem GoesOn.append (h : GoesOn cs) (ds : List Char) : GoesOn (cs ++ ds) := by
  obtain ⟨x, rest, rfl, hx⟩ := h
  exact ⟨x, rest ++ ds, List.append_assoc .., hx⟩

theorem goesOn_of_prefix {x : Char} (h : [' ', x] <+: cs) (hblank : isBlank x = false)
    (hx : x ≠ ';') : GoesOn cs := by
  obtain ⟨rest, rfl⟩ := h
  exact ⟨x, rest, rfl, hblank, hx⟩

/-- A part that is there goes on, and where there is none, so does what follows. -/
theorem goesOn_writtenPart {α : Type} {before after rest : String} {value : Option α}
    {text : α → String}
    (hsome : ∀ a ∈ value, GoesOn ((before.toList ++ (text a).toList) ++ after.toList))
    (hnone : value = none → GoesOn rest.toList) :
    GoesOn (writtenPart before (value.map text) after ++ rest).toList := by
  cases value with
  | none => simpa [writtenPart] using hnone rfl
  | some a => simpa [writtenPart] using (hsome a rfl).append rest.toList

theorem goesOn_writtenTail (hamount : p.amount = none)
    (h : ¬ (p.lotPrice = none ∧ p.lotDate = none ∧ p.costPrice = none ∧ p.balancePrice = none)) :
    GoesOn p.writtenTail.toList := by
  rw [writtenTail]
  refine goesOn_writtenPart (fun c hc => ?_) fun _ =>
    goesOn_writtenPart (fun c _ => ?lot) fun hlot =>
      goesOn_writtenPart (fun d _ => ?date) fun hdate =>
        goesOn_writtenPart (fun c _ => ?cost) fun hcost =>
          goesOn_writtenPart (fun c _ => ?balance) fun hbalance => ?none
  case lot =>
    refine goesOn_of_prefix (x := '{') ?_ (by decide) (by decide)
    rw [writtenLot]
    split <;> simp
  case date => exact ⟨'[', _, rfl, by decide, by decide⟩
  case cost =>
    refine goesOn_of_prefix (x := '@') ?_ (by decide) (by decide)
    rw [writtenCost]
    split <;> simp
  case balance => exact ⟨'=', _, rfl, by decide, by decide⟩
  case none => exact absurd ⟨hlot, hdate, hcost, hbalance⟩ h
  · rw [hamount] at hc
    cases hc

theorem GoesOn.trimEnd (h : GoesOn cs) : GoesOn (trimEnd cs) := by
  obtain ⟨x, rest, rfl, hblank, hx⟩ := h
  have hend : Text.trimEnd [' ', x] = [' ', x] := trimEnd_concat hblank [' ']
  exact ⟨x, _, trimEnd_append_of_trimEnd_eq hend _, hblank, hx⟩

theorem GoesOn.cutAccount (h : GoesOn cs) {w : List Char} (hw : Line.IsAccountName w) :
    ∃ x rest, trim (Line.cutAccount (w ++ cs)).1 = w ++ ([' ', x] ++ rest) ∧ isBlank x = false := by
  obtain ⟨x, rest, rfl, hblank, hx⟩ := h
  have hend : Text.trimEnd [' ', x] = [' ', x] := trimEnd_concat hblank [' ']
  have hspacing : x ≠ ' ' ∧ x ≠ '\t' := by
    constructor <;> rintro rfl <;> cases hblank
  have hcut : (Line.cutAccount ([' ', x] ++ rest)).1 = [' ', x] ++ (Line.cutAccount rest).1 := by
    simp [Line.cutAccount, hspacing, hx]
  refine ⟨x, Text.trimEnd (Line.cutAccount rest).1, ?_, hblank⟩
  rw [hw.cutAccount, hcut, trim, hw.trimStart_append,
    trimEnd_append_of_trimEnd_eq (trimEnd_of_trim_eq hw.trimmed), trimEnd_append_of_trimEnd_eq hend]

theorem trim_ne_of_enclosed {kind : PostingKind} {name other rest : List Char} {x : Char}
    (hname : Line.IsAccountName name) (hblank : isBlank x = false)
    (h : Line.enclosed kind other = Line.enclosed kind name ++ ([' ', x] ++ rest)) :
    trim other ≠ name := by
  obtain ⟨ds, rfl, y, hy, hblank'⟩ : ∃ ds, other = name ++ ds ∧ ∃ y ∈ ds, isBlank y = false := by
    have hbrackets : ∀ {opening closing : Char}, isBlank closing = false →
        opening :: (other ++ [closing]) =
          opening :: (name ++ [closing]) ++ ([' ', x] ++ rest) →
        ∃ ds, other = name ++ ds ∧ ∃ y ∈ ds, isBlank y = false := by
      intro opening closing hclosing heq
      refine ⟨closing :: ([' ', x] ++ rest).dropLast, ?_, closing, List.mem_cons_self, hclosing⟩
      have htail : other ++ [closing] = name ++ (closing :: ([' ', x] ++ rest)) :=
        (List.cons.inj heq).2.trans (List.append_assoc ..)
      have hdrop := congrArg List.dropLast htail
      rw [List.dropLast_concat, List.dropLast_append_of_ne_nil (by simp)] at hdrop
      rw [hdrop]
      rfl
    cases kind with
    | real => exact ⟨_, h, x, by simp, hblank⟩
    | virtual => exact hbrackets (by decide) h
    | balancedVirtual => exact hbrackets (by decide) h
  rw [trim, hname.trimStart_append, trimEnd_append_of_trimEnd_eq (trimEnd_of_trim_eq hname.trimmed)]
  exact fun heq => trimEnd_ne_nil hy hblank' (List.append_right_eq_self.mp heq)

theorem goesOn_of_not_isComplete (h : ¬ p.IsComplete) : GoesOn (trimEnd p.writtenTail.toList) := by
  obtain ⟨hamount, hannotations⟩ := Classical.not_imp.mp h
  exact (goesOn_writtenTail hamount hannotations).trimEnd

/-! ## What a line tells -/

theorem unmarked_of_readPosting (h : p.IsRead)
    (hback : Line.readPosting (trim p.text.toList) year = .ok p) (hclearing : p.clearing = none) :
    ¬ Line.IsMark p.writtenAccount := by
  intro hmark
  have hblank : ∀ c ∈ (trimEnd p.writtenTail.toList).head?, isBlank c = true := by
    intro c hc
    by_cases hcomplete : p.IsComplete
    · have hexact : ∀ c ∈ p.amounts, c.IsExact := fun c hc => (h.amounts c hc).exact
      rcases (ends_trimEnd hexact hcomplete).1 with hnil | ⟨rest, hrest⟩
      · rw [hnil] at hc
        cases hc
      · rw [← hrest] at hc
        obtain rfl := Option.some.inj hc
        decide
    · obtain ⟨x, rest, hrest, -⟩ := goesOn_of_not_isComplete hcomplete
      rw [hrest] at hc
      obtain rfl := Option.some.inj hc
      decide
  have hread := (Line.parts_of_readPosting hback).1
  rw [trim_text h, writtenMark, hclearing] at hread
  exact Line.takeClearing_isMark hmark hblank hread

theorem isComplete_of_readPosting (h : p.IsRead)
    (hback : Line.readPosting (trim p.text.toList) year = .ok p) : p.IsComplete := by
  by_contra hcomplete
  have hname := isAccountName_writtenAccount h
  obtain ⟨-, ⟨name, hkind, htrim⟩, -⟩ := Line.parts_of_readPosting hback
  obtain ⟨x, rest, hcut, hblank⟩ := (goesOn_of_not_isComplete hcomplete).cutAccount hname
  rw [trim_text h, takeClearing_written h (unmarked_of_readPosting h hback), hcut] at hkind
  exact trim_ne_of_enclosed h.account.name hblank (Line.enclosed_of_readAccount hkind) htrim

/-- What stands behind the account is read on its own. -/
theorem readTail_of_readPosting (h : p.IsRead)
    (hback : Line.readPosting (trim p.text.toList) year = .ok p) :
    ∃ tail, Amount.readTail (trimEnd p.writtenTail.toList) = .ok tail ∧
      p.amount = tail.amount ∧ p.lotPrice = tail.lotPrice ∧ p.costPrice = tail.costPrice ∧
      p.balancePrice = tail.balancePrice := by
  have hexact : ∀ c ∈ p.amounts, c.IsExact := fun c hc => (h.amounts c hc).exact
  have hends := (ends_trimEnd hexact (isComplete_of_readPosting h hback)).1
  obtain ⟨-, -, tail, htail, hparts⟩ := Line.parts_of_readPosting hback
  rw [trim_text h, takeClearing_written h (unmarked_of_readPosting h hback),
    (isAccountName_writtenAccount h).cutAccount, hends.cutAccount] at htail
  exact ⟨tail, htail, hparts⟩

/-! ## Names -/

theorem quote_not_mem_writtenTail (h : p.IsRead) (hplain : p.IsPlain) :
    '"' ∉ p.writtenTail.toList.takeWhile (· ≠ ';') := by
  have htail : '"' ∉ { p with note := none }.writtenTail.toList :=
    not_mem_writtenTail (fun c hc => (h.amounts c hc).exact)
      (fun c hc => (h.amounts c hc).named.isPlainName.1) hplain.lotDate (by decide) (by decide)
  have hnote : '"' ∉ (writtenPart "  ; " p.note "").toList.takeWhile (· ≠ ';') := by
    cases p.note <;> simp [writtenPart]
  rw [writtenTail_eq_append, String.toList_append, List.takeWhile_append]
  split
  · exact fun hmem => (List.mem_append.mp hmem).elim htail hnote
  · exact fun hmem => htail ((List.takeWhile_prefix _).subset hmem)

/-- A name that needs quotes would not be read, as none are written. -/
theorem isBare_of_readPosting (h : p.IsRead) (hplain : p.IsPlain)
    (hback : Line.readPosting (trim p.text.toList) year = .ok p) : ∀ c ∈ p.amounts, c.IsBare := by
  obtain ⟨tail, htail, hamount, hlot, hcost, hbalance⟩ := readTail_of_readPosting h hback
  have hquote : '"' ∉ (trimEnd p.writtenTail.toList).takeWhile (· ≠ ';') := fun hmem =>
    quote_not_mem_writtenTail h hplain
      ((takeWhile_prefix_takeWhile _ (trimEnd_isPrefix _)).subset hmem)
  have hread := Amount.readTail_isRead (fun ts hts => (Token.names_ofChars hts).2 hquote) htail
  exact forall_mem_amounts.mpr ⟨fun c hc => (hread.amount c (hamount ▸ hc)).1.named.isBare,
    fun c hc => (hread.lotPrice c (hlot ▸ hc)).named.isBare,
    fun c hc => (hread.costPrice c (hcost ▸ hc)).1.named.isBare,
    fun c hc => (hread.balancePrice c (hbalance ▸ hc)).1.named.isBare⟩

/-! ## The end of a line -/

theorem trimEnd_append_text {c : Commodity} (h : c.IsExact) (front : List Char) :
    trimEnd (front ++ c.text.toList) = front ++ c.trimmed.text.toList := by
  obtain ⟨x, hx, hblank⟩ := exists_not_blank_of_isExact h
  rw [trimEnd_append_of_ne_nil (trimEnd_ne_nil hx hblank), Commodity.trimEnd_text h]

/-- The posting `q` writes the line of `p` without the blanks at its end. -/
structure Trims (q p : Posting) : Prop where
  lotDate : q.lotDate = p.lotDate
  note : q.note = p.note
  amounts : ∀ c ∈ q.amounts, c.IsBare ∧ c.IsExact
  writtenTail : q.writtenTail.toList = trimEnd p.writtenTail.toList

theorem trims_self (hamounts : ∀ c ∈ p.amounts, c.IsBare ∧ c.IsExact)
    (h : ∀ x ∈ p.writtenTail.toList.getLast?, isBlank x = false) : p.Trims p :=
  ⟨rfl, rfl, hamounts, (trimEnd_eq_self_iff.mpr h).symm⟩

/-- Where an amount is written last, the line is trimmed by trimming its name. -/
theorem trims_of_last {c : Commodity} (put : Commodity → Posting) (front : List Char)
    (hamounts : ∀ c ∈ p.amounts, c.IsBare ∧ c.IsExact) (hc : c ∈ p.amounts) (hput : put c = p)
    (hlotDate : ∀ c, (put c).lotDate = p.lotDate) (hnote : ∀ c, (put c).note = p.note)
    (hmem : ∀ c, ∀ d ∈ (put c).amounts, d = c ∨ d ∈ p.amounts)
    (htail : ∀ d, d.total = c.total → (put d).writtenTail.toList = front ++ d.text.toList) :
    (put c.trimmed).Trims p := by
  obtain ⟨hbare, hexact⟩ := hamounts c hc
  refine ⟨hlotDate _, hnote _, fun d hd => ?_, ?_⟩
  · rcases hmem _ d hd with rfl | hd
    · exact ⟨Commodity.trimmed_isBare hbare, Commodity.trimmed_isExact hexact⟩
    · exact hamounts d hd
  · rw [htail _ c.trimmed_total, ← hput, htail c rfl, trimEnd_append_text hexact]

theorem trims_of_note {s : String} (hamounts : ∀ c ∈ p.amounts, c.IsBare ∧ c.IsExact)
    (hnote : p.note = some s) (hs : Annotations.IsNote s.toList) : p.Trims p := by
  have hlast : p.writtenTail.toList.getLast? = s.toList.getLast? := by
    obtain ⟨y, hy⟩ := Option.isSome_iff_exists.mp (List.getLast?_isSome.mpr hs.ne_nil)
    simp [writtenTail, hnote, writtenPart, List.getLast?_append, List.getLast?_cons, hy]
  refine trims_self hamounts ?_
  rw [hlast]
  exact trimEnd_eq_self_iff.mp (trimEnd_of_trim_eq hs.trimmed)

theorem trims_of_balance {c : Commodity} (hamounts : ∀ c ∈ p.amounts, c.IsBare ∧ c.IsExact)
    (hnote : p.note = none) (hbalance : p.balancePrice = some c) :
    { p with balancePrice := some c.trimmed }.Trims p := by
  let front := { p with balancePrice := none }.writtenTail ++ " = "
  refine trims_of_last (fun c => { p with balancePrice := some c }) front.toList hamounts
    (mem_amounts.mpr (.inr (.inr (.inr hbalance)))) (by rw [← hbalance]) (fun _ => rfl)
    (fun _ => rfl) (fun c d hd => ?_) fun d _ => ?_
  · rw [mem_amounts] at hd ⊢
    grind
  · simp [writtenTail, front, hnote, writtenPart]

theorem trims_of_cost {c : Commodity} (hamounts : ∀ c ∈ p.amounts, c.IsBare ∧ c.IsExact)
    (hnote : p.note = none) (hbalance : p.balancePrice = none) (hcost : p.costPrice = some c) :
    { p with costPrice := some c.trimmed }.Trims p := by
  let front := { p with costPrice := none }.writtenTail ++ if c.total then " @@ " else " @ "
  refine trims_of_last (fun c => { p with costPrice := some c }) front.toList hamounts
    (mem_amounts.mpr (.inr (.inr (.inl hcost)))) (by rw [← hcost]) (fun _ => rfl)
    (fun _ => rfl) (fun c d hd => ?_) fun d htotal => ?_
  · rw [mem_amounts] at hd ⊢
    grind
  · cases hd : d.total <;>
      simp [writtenTail, front, ← htotal, hnote, hbalance, writtenPart, writtenCost, hd]

theorem exists_trims_of_amount (hamounts : ∀ c ∈ p.amounts, c.IsBare ∧ c.IsExact)
    (hnote : p.note = none) (hbalance : p.balancePrice = none) (hcost : p.costPrice = none) :
    ∃ q : Posting, q.Trims p := by
  have hclosed : ∀ x, p.writtenTail.toList.getLast? = some x → isBlank x = false → p.Trims p := by
    intro x hlast hx
    exact trims_self hamounts fun y hy => Option.some.inj (hlast.symm.trans hy) ▸ hx
  cases hdate : p.lotDate with
  | some d =>
    refine ⟨p, hclosed ']' ?_ (by decide)⟩
    simp [writtenTail, hnote, hbalance, hcost, hdate, writtenPart, List.getLast?_append,
      List.getLast?_cons]
  | none =>
  cases hlot : p.lotPrice with
  | some c =>
    refine ⟨p, hclosed '}' ?_ (by decide)⟩
    cases htotal : c.total <;>
      simp [writtenTail, hnote, hbalance, hcost, hdate, hlot, writtenPart, writtenLot, htotal,
        List.getLast?_append, List.getLast?_cons]
  | none =>
  cases hamount : p.amount with
  | some c =>
    refine ⟨_, trims_of_last (fun c => { p with amount := some c }) [' ', ' '] hamounts
      (mem_amounts.mpr (.inl hamount)) (by rw [← hamount]) (fun _ => rfl)
      (fun _ => rfl) (fun c d hd => ?_) fun d _ => ?_⟩
    · rw [mem_amounts] at hd ⊢
      grind
    · simp [writtenTail, hnote, hbalance, hcost, hdate, hlot, writtenPart]
  | none =>
    have htail : p.writtenTail.toList = [] := by
      simp [writtenTail, hnote, hbalance, hcost, hdate, hlot, hamount, writtenPart]
    exact ⟨p, trims_self hamounts (htail ▸ fun x hx => by cases hx)⟩

theorem exists_trims (h : p.IsRead) (hplain : p.IsPlain) (hbare : ∀ c ∈ p.amounts, c.IsBare) :
    ∃ q : Posting, q.Trims p := by
  have hamounts : ∀ c ∈ p.amounts, c.IsBare ∧ c.IsExact :=
    fun c hc => ⟨hbare c hc, (h.amounts c hc).exact⟩
  cases hnote : p.note with
  | some s =>
    have hs : Annotations.IsNote s.toList := (h.note s hnote).resolve_left (hplain.note s hnote)
    exact ⟨p, trims_of_note hamounts hnote hs⟩
  | none =>
  cases hbalance : p.balancePrice with
  | some c => exact ⟨_, trims_of_balance hamounts hnote hbalance⟩
  | none =>
  cases hcost : p.costPrice with
  | some c => exact ⟨_, trims_of_cost hamounts hnote hbalance hcost⟩
  | none => exact exists_trims_of_amount hamounts hnote hbalance hcost

theorem writtenTail_eq {q : Posting} (hlotDate : q.lotDate = p.lotDate) (hnote : q.note = p.note)
    (hamount : p.amount = q.tail.amount) (hlot : p.lotPrice = q.tail.lotPrice)
    (hcost : p.costPrice = q.tail.costPrice) (hbalance : p.balancePrice = q.tail.balancePrice) :
    p.writtenTail = q.writtenTail := by
  rw [writtenTail, writtenTail, hamount, hlot, hcost, hbalance, hlotDate, hnote]
  simp only [tail, Option.map_map]
  rfl

theorem printsBack_of_readPosting (h : p.IsRead) (hplain : p.IsPlain)
    (hback : Line.readPosting (trim p.text.toList) year = .ok p) : p.PrintsBack := by
  have hbare := isBare_of_readPosting h hplain hback
  obtain ⟨tail, htail, hamount, hlot, hcost, hbalance⟩ := readTail_of_readPosting h hback
  -- The line without blanks at its end is that of a posting whose parts are read from it.
  obtain ⟨q, hq⟩ := exists_trims h hplain hbare
  have hq' : Amount.readTail q.writtenTail.toList = .ok q.tail :=
    readTail_writtenTail (fun c hc => (hq.amounts c hc).1) (fun c hc => (hq.amounts c hc).2)
      (hq.lotDate ▸ hplain.lotDate) (hq.note ▸ hplain.note)
  rw [hq.writtenTail, htail] at hq'
  obtain rfl := Except.ok.inj hq'
  have hwritten := writtenTail_eq hq.lotDate hq.note hamount hlot hcost hbalance
  refine ⟨isComplete_of_readPosting h hback, fun c hc => ?_, hbare, ?_,
    unmarked_of_readPosting h hback⟩
  · rw [hlot] at hc
    obtain ⟨price, -, rfl⟩ := Option.map_eq_some_iff.mp hc
    rfl
  · rw [trimEnd_text_eq_iff h, ← hq.writtenTail, hwritten]

theorem readPosting_text_iff (h : p.IsRead) (hplain : p.IsPlain) :
    Line.readPosting (trim p.text.toList) year = .ok p ↔ p.PrintsBack :=
  ⟨printsBack_of_readPosting h hplain, readPosting_of_printsBack h hplain⟩

end Posting

end Daybook
