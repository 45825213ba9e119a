import Daybook.Proofs.Journal.TailReading

/-!
# What is written behind the account

What a posting writes behind its account are the tokens of a phrase (`tokens_tailPhrase`). It is read
back as it was (`readTail_writtenTail`), if no name in it needs quotes; only the sign of a fixed price
is not written.
-/

namespace Daybook

open Daybook.Text

/-! ## Amounts -/

namespace Commodity

variable {c : Commodity}

/-- The amount without what qualifies it as a price. -/
def unqualified (c : Commodity) : Commodity := { c with fixprice := false, total := false }

/-- The price, which may change. -/
def loosened (c : Commodity) : Commodity := { c with fixprice := false }

def phrase (c : Commodity) : AmountPhrase :=
  if c.currency then .leading c.amount.negative (.bare c.name.toList) false c.amount.digits
  else .trailing c.amount.negative c.amount.digits
    (if c.name = "" then none else some (.bare c.name.toList))

theorem tokens_phrase (c : Commodity) : c.phrase.tokens = c.tokens := by
  rw [phrase, tokens, unsignedTokens]
  cases c.amount.negative <;> cases c.currency <;> by_cases hname : c.name = "" <;>
    simp [AmountPhrase.tokens, signTokens, WrittenName.token, hname]

theorem number?_phrase (c : Commodity) : c.phrase.number? = some c.amount.abs := by
  have hnumeral : c.phrase.numeral = c.amount.digits := by
    rw [phrase]
    split <;> rfl
  have hcommas : c.amount.digits.filter (· ≠ ',') = c.amount.digits := by
    refine List.filter_eq_self.mpr fun x hx => decide_eq_true ?_
    rintro rfl
    rcases Decimal.mem_digits hx with hdigit | hpoint
    · cases hdigit
    · cases hpoint
  rw [AmountPhrase.number?, hnumeral, hcommas, Decimal.read?_digits]

theorem amount?_phrase (hexact : c.IsExact) (total fixprice : Bool) :
    c.phrase.amount? total fixprice = some { c with total, fixprice } := by
  have hname : c.phrase.name = c.name := by
    rw [phrase]
    by_cases hempty : c.name = "" <;> cases c.currency <;>
      simp [AmountPhrase.name, WrittenName.name, hempty]
  have hleading : c.phrase.isLeading = c.currency := by
    rw [phrase]
    cases c.currency <;> rfl
  have hnegative : c.phrase.isNegative = c.amount.negative := by
    rw [phrase]
    split
    · rw [AmountPhrase.isNegative_leading, Bool.bne_false]
    · rw [AmountPhrase.isNegative_trailing]
  rw [AmountPhrase.amount?, number?_phrase, hname, hleading, hnegative, Option.map_some]
  obtain ⟨name, amount, currency, precision, fixprice', total'⟩ := c
  obtain rfl : precision = amount.scale := hexact
  rfl

end Commodity

/-! ## The whole text -/

namespace Posting

variable {p : Posting}

/-- What is read from what a posting writes behind its account. -/
def tail (p : Posting) : PostingTail :=
  ⟨p.amount.map (·.unqualified), p.lotPrice.map (·.loosened), p.lotDate.map (·.text),
    p.costPrice.map (·.loosened), p.balancePrice.map (·.unqualified),
    p.note.map fun s => Amount.commentText (';' :: ' ' :: s.toList)⟩

/-- The phrase that is written behind the account. -/
def tailPhrase (p : Posting) : TailPhrase where
  amount := p.amount.map (·.phrase)
  parts :=
    (p.lotPrice.map fun c => .lot c.total false c.phrase).toList ++
      ((p.lotDate.map fun d => .lotDate d.text.toList).toList ++
        ((p.costPrice.map fun c => .cost c.total c.phrase).toList ++
          ((p.balancePrice.map fun c => .balance c.phrase).toList ++
            (p.note.map fun s => .comment (';' :: ' ' :: s.toList)).toList)))

theorem flatMap_toList {α : Type} (value : Option α) (part : α → TailPart) :
    (value.map part).toList.flatMap (·.tokens) = writtenTokens value fun a => (part a).tokens := by
  cases value with
  | none => rfl
  | some a => exact List.append_nil _

theorem tokens_tailPhrase (p : Posting) :
    p.tailPhrase.tokens = writtenTokens p.amount (·.tokens) ++ p.annotationTokens := by
  have hamount : writtenTokens (p.amount.map (·.phrase)) (·.tokens) =
      writtenTokens p.amount (·.tokens) := by
    cases p.amount with
    | none => rfl
    | some c => exact c.tokens_phrase
  have hlot : ∀ c : Commodity, (TailPart.lot c.total false c.phrase).tokens = c.lotTokens := by
    intro c
    rw [Commodity.lotTokens, ← c.tokens_phrase]
    cases c.total <;> rfl
  have hcost : ∀ c : Commodity, (TailPart.cost c.total c.phrase).tokens = c.costTokens := by
    intro c
    rw [Commodity.costTokens, ← c.tokens_phrase]
    cases c.total <;> rfl
  have hbalance : ∀ c : Commodity, (TailPart.balance c.phrase).tokens = c.balanceTokens := by
    intro c
    rw [Commodity.balanceTokens, ← c.tokens_phrase]
    rfl
  rw [TailPhrase.tokens, tailPhrase, hamount, annotationTokens]
  simp only [List.flatMap_append, flatMap_toList, hlot, hcost, hbalance]
  rfl

theorem isReadable_tailPhrase (p : Posting) : p.tailPhrase.IsReadable := by
  have hphrase : ∀ c : Commodity, c.phrase.number?.isSome := fun c => by
    rw [c.number?_phrase]
    rfl
  have hpart : ∀ {α : Type} {value : Option α} {part : α → TailPart}, (∀ a, (part a).IsReadable) →
      ∀ part' ∈ (value.map part).toList, part'.IsReadable := by
    intro α value part h part' hpart'
    obtain ⟨a, -, rfl⟩ := Option.map_eq_some_iff.mp (Option.mem_toList.mp hpart')
    exact h a
  have hprice : ∀ {part : Commodity → TailPart}, (∀ c, (part c).phrase? = some c.phrase) →
      ∀ c, (part c).IsReadable := by
    intro part h c a ha
    obtain rfl := Option.some.inj ((h c).symm.trans ha)
    exact hphrase c
  refine TailPhrase.isReadable_iff.mpr ⟨fun a ha => ?_, ?_⟩
  · obtain ⟨c, -, rfl⟩ := Option.map_eq_some_iff.mp ha
    exact hphrase c
  · simp only [tailPhrase, List.forall_mem_append]
    exact ⟨hpart (hprice fun _ => rfl), hpart fun _ => nofun, hpart (hprice fun _ => rfl),
      hpart (hprice fun _ => rfl), hpart fun _ => nofun⟩

theorem meaning_tailPhrase (hexact : ∀ c ∈ p.amounts, c.IsExact) :
    p.tailPhrase.meaning = p.tail := by
  have hprice : ∀ {value : Option Commodity} (total : Commodity → Bool), (∀ c ∈ value, c.IsExact) →
      value.bind (fun c => c.phrase.amount? (total c) false) =
        value.map fun c => { c with total := total c, fixprice := false } := by
    intro value total h
    cases value with
    | none => rfl
    | some c => exact c.amount?_phrase (h c rfl) _ _
  obtain ⟨hamount, hlot, hcost, hbalance⟩ := forall_mem_amounts.mp hexact
  simp only [TailPhrase.meaning, tail, tailPhrase, TailPart.last?_append, TailPart.last?_toList,
    Option.bind_map, Function.comp_def, TailPart.lotPrice?, TailPart.lotDate?, TailPart.costPrice?,
    TailPart.balancePrice?, TailPart.comment?, Option.bind_fun_none, Option.or_none, Option.none_or,
    hprice (fun _ => false) hamount, hprice (·.total) hlot, hprice (·.total) hcost,
    hprice (fun _ => false) hbalance, String.ofList_toList]
  cases p.lotDate <;> cases p.note <;> rfl

/-- What a posting writes behind its account is read back, but for the signs of fixed prices. -/
theorem readTail_writtenTail (hbare : ∀ c ∈ p.amounts, c.IsBare)
    (hexact : ∀ c ∈ p.amounts, c.IsExact) (hdate : ∀ d ∈ p.lotDate, d.HasPlainYear)
    (hnote : ∀ s ∈ p.note, '\n' ∉ s.toList) :
    Amount.readTail p.writtenTail.toList = .ok p.tail := by
  have hcut : Token.ofChars p.writtenTail.toList = .ok p.tailPhrase.tokens := by
    rw [tokens_tailPhrase, ofChars_writtenTail hbare hexact hdate hnote]
  rw [Amount.readTail_phrase hcut p.isReadable_tailPhrase, meaning_tailPhrase hexact]

end Posting

end Daybook
