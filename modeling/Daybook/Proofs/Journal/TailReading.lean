import Daybook.Proofs.Journal.AmountReading

/-!
# Phrases that are read

What follows an account is read exactly if its tokens are those of a phrase whose digits all denote
numbers, and then it is what the phrase means (`readTail_eq_ok_iff`).
-/

namespace Daybook

open Daybook.Result Daybook.Text

variable {c : Commodity} {t : Token} {ts rest : List Token} {tail tail' : PostingTail}

/-! ## Lots -/

namespace Amount

theorem close_eq_ok_iff {expected : Token} :
    close expected ts = .ok rest ↔ ts = expected :: rest := by
  cases ts with
  | nil => simp [close]
  | cons t ts => by_cases ht : t = expected <;> simp [close, ht]

def closingOf (total : Bool) : Token := if total then .closeTotal else .closeLot

/-- The price of a lot, behind what says whether it is fixed. -/
def takeLotPrice (total fixprice : Bool) (ts : List Token) :
    Except NotationError (Commodity × List Token) := do
  let (price, rest) ← takeAfter .openLot ts
  let rest ← close (closingOf total) rest
  return ({ price with total, fixprice }, rest)

theorem takeLot_of_ne (total : Bool) (h : ∀ t ∈ ts.head?, t ≠ .equals) :
    takeLot total ts = takeLotPrice total false ts := by
  rcases ts with _ | ⟨t, ts⟩
  · rfl
  · cases t <;> first | rfl | exact absurd rfl (h _ rfl)

theorem takeLot_cases (ts : List Token) :
    ∃ fixprice us, ts = TailPart.fixTokens fixprice ++ us ∧
      ∀ total, takeLot total ts = takeLotPrice total fixprice us := by
  by_cases hfixed : ∃ us, ts = .equals :: us
  · obtain ⟨us, rfl⟩ := hfixed
    exact ⟨true, us, rfl, fun total => rfl⟩
  · refine ⟨false, ts, rfl, fun total => takeLot_of_ne total ?_⟩
    rintro t ht rfl
    obtain ⟨us, rfl⟩ := List.head?_eq_some_iff.mp ht
    exact hfixed ⟨us, rfl⟩

theorem takeLot_phrase {p : AmountPhrase} (hraw : '-' ∉ p.numeral)
    (h : p.amount? false false = some c) (total fixprice : Bool) (rest : List Token) :
    takeLot total (TailPart.fixTokens fixprice ++ (p.tokens ++ closingOf total :: rest)) =
      .ok ({ c with total, fixprice }, rest) := by
  have hclosing : takeSymbol? (closingOf total :: rest) = none := by cases total <;> rfl
  have hprice : takeLotPrice total fixprice (p.tokens ++ closingOf total :: rest) =
      .ok ({ c with total, fixprice }, rest) := by
    rw [takeLotPrice, takeAfter_phrase hraw hclosing h .openLot]
    change (do
      let rest ← close (closingOf total) (closingOf total :: rest)
      return ({ c with total, fixprice }, rest)) = _
    rw [close_eq_ok_iff.mpr rfl]
    rfl
  obtain ⟨t, us, htokens, hbegins⟩ := p.exists_tokens_eq_cons
  cases fixprice with
  | true => exact hprice
  | false =>
    rw [← hprice]
    refine takeLot_of_ne total fun t' ht' => ?_
    rw [htokens] at ht'
    obtain rfl := Option.some.inj ht'
    rintro rfl
    cases hbegins

theorem exists_phrase_of_takeLot {total : Bool} (hnumerals : Token.Numerals ts)
    (h : takeLot total ts = .ok (c, rest)) :
    ∃ fixprice, ∃ p : AmountPhrase,
      ts = TailPart.fixTokens fixprice ++ (p.tokens ++ closingOf total :: rest) ∧
        p.amount? total fixprice = some c := by
  obtain ⟨fixprice, us, rfl, hlot⟩ := takeLot_cases ts
  rw [hlot, takeLotPrice] at h
  obtain ⟨⟨price, behind⟩, hprice, h⟩ := bind_eq_ok_iff.mp h
  obtain ⟨rest', hclose, h⟩ := bind_eq_ok_iff.mp h
  obtain ⟨rfl, rfl⟩ := Prod.mk.inj (pure_eq_ok_iff.mp h)
  obtain ⟨p, rfl, hp⟩ := exists_phrase_of_takeAfter hnumerals.right hprice
  obtain rfl := close_eq_ok_iff.mp hclose
  exact ⟨fixprice, p, rfl, AmountPhrase.amount?_qualified hp total fixprice⟩

theorem takeLotDate_eq_ok_iff {date : String} :
    takeLotDate ts = .ok (date, rest) ↔
      ∃ text, ts = .date text :: .closeDate :: rest ∧ String.ofList text = date := by
  constructor
  · intro h
    unfold takeLotDate at h
    split at h
    case h_2 => cases h
    case h_1 text behind =>
      obtain ⟨rest', hclose, h⟩ := bind_eq_ok_iff.mp h
      obtain ⟨rfl, rfl⟩ := Prod.mk.inj (pure_eq_ok_iff.mp h)
      exact ⟨text, congrArg _ (close_eq_ok_iff.mp hclose), rfl⟩
  · rintro ⟨text, rfl, rfl⟩
    rfl

end Amount

/-! ## Annotations -/

namespace TailPart

/-- The digits of the amount in the part denote a number. -/
def IsReadable (part : TailPart) : Prop := ∀ a ∈ part.phrase?, a.number?.isSome

/-- What has been read, with what the part says in place of what was said before. -/
def fill (part : TailPart) (tail : PostingTail) : PostingTail where
  amount := tail.amount
  lotPrice := part.lotPrice?.or tail.lotPrice
  lotDate := part.lotDate?.or tail.lotDate
  costPrice := part.costPrice?.or tail.costPrice
  balancePrice := part.balancePrice?.or tail.balancePrice
  comment := part.comment?.or tail.comment

variable {part : TailPart} {a : AmountPhrase} {total fixprice : Bool}

theorem isReadable_of_amount? (hpart : part.phrase? = some a)
    (h : a.amount? total fixprice = some c) : part.IsReadable := fun a' ha' => by
  obtain rfl := Option.some.inj (hpart.symm.trans ha')
  exact AmountPhrase.isSome_amount?.symm.trans (Option.isSome_of_mem h)

theorem fill_lot (h : a.amount? total fixprice = some c) (tail : PostingTail) :
    (lot total fixprice a).fill tail = { tail with lotPrice := some c } := by
  rw [fill, lotPrice?, h]
  rfl

theorem fill_cost (h : a.amount? total false = some c) (tail : PostingTail) :
    (cost total a).fill tail = { tail with costPrice := some c } := by
  rw [fill, costPrice?, h]
  rfl

theorem fill_balance (h : a.amount? false false = some c) (tail : PostingTail) :
    (balance a).fill tail = { tail with balancePrice := some c } := by
  rw [fill, balancePrice?, h]
  rfl

theorem tokens_subset (ha : part.phrase? = some a) : a.tokens ⊆ part.tokens := by
  rcases part with ⟨_ | _, _, _⟩ | _ | ⟨_ | _, _⟩ | _ | _ <;> cases ha <;> intro t ht <;>
    simp [tokens, ht]

theorem tokens_lot (total fixprice : Bool) (a : AmountPhrase) (ts : List Token) :
    (lot total fixprice a).tokens ++ ts =
      (if total then .openTotal else .openLot) ::
        (fixTokens fixprice ++ (a.tokens ++ Amount.closingOf total :: ts)) := by
  cases total <;> simp [tokens, Amount.closingOf]

theorem tokens_cost (total : Bool) (a : AmountPhrase) (ts : List Token) :
    (cost total a).tokens ++ ts =
      (if total then .totalCost else .unitCost) :: (a.tokens ++ ts) := by
  cases total <;> rfl

theorem last?_append {α : Type} (f : TailPart → Option α) (parts parts' : List TailPart) :
    last? f (parts ++ parts') = (last? f parts').or (last? f parts) := by
  rw [last?, List.filterMap_append, List.getLast?_append]
  rfl

theorem last?_toList {α : Type} (f : TailPart → Option α) (part : Option TailPart) :
    last? f part.toList = part.bind f := by
  cases part with
  | none => rfl
  | some part => cases hpart : f part <;> simp [last?, hpart]

theorem last?_cons {α : Type} (f : TailPart → Option α) (part : TailPart) (parts : List TailPart) :
    last? f (part :: parts) = (last? f parts).or (f part) :=
  (last?_append f [part] parts).trans (congrArg _ (last?_toList f (some part)))

theorem foldl_fill (parts : List TailPart) (tail : PostingTail) :
    parts.foldl (fun tail part => part.fill tail) tail =
      { amount := tail.amount
        lotPrice := (last? (·.lotPrice?) parts).or tail.lotPrice
        lotDate := (last? (·.lotDate?) parts).or tail.lotDate
        costPrice := (last? (·.costPrice?) parts).or tail.costPrice
        balancePrice := (last? (·.balancePrice?) parts).or tail.balancePrice
        comment := (last? (·.comment?) parts).or tail.comment } := by
  induction parts generalizing tail with
  | nil => rfl
  | cons part parts ih =>
    rw [List.foldl_cons, ih]
    simp only [last?_cons, fill, Option.or_assoc]

end TailPart

namespace Amount

variable {part : TailPart} {fuel : Nat}

theorem readAnnotation_part (hraw : ∀ a ∈ part.phrase?, '-' ∉ a.numeral)
    (hreadable : part.IsReadable) (hrest : takeSymbol? rest = none)
    (htokens : part.tokens ++ rest = t :: ts) :
    readAnnotation t ts tail = .ok (part.fill tail, rest) := by
  have hamount : ∀ a ∈ part.phrase?, ∃ c, a.amount? false false = some c := fun a ha =>
    Option.isSome_iff_exists.mp (AmountPhrase.isSome_amount?.trans (hreadable a ha))
  cases part with
  | lot total fixprice p =>
    obtain ⟨c, hc⟩ := hamount p rfl
    have hlot := takeLot_phrase (hraw p rfl) hc total fixprice rest
    rw [TailPart.tokens_lot] at htokens
    obtain ⟨rfl, rfl⟩ := List.cons.inj htokens
    rw [TailPart.fill_lot (AmountPhrase.amount?_qualified hc total fixprice)]
    cases total <;> simp only [if_true, Bool.false_eq_true, if_false, readAnnotation, hlot] <;> rfl
  | lotDate text =>
    obtain ⟨rfl, rfl⟩ := List.cons.inj htokens
    rfl
  | cost total p =>
    obtain ⟨c, hc⟩ := hamount p rfl
    have hprice := takeAfter_phrase (hraw p rfl) hrest hc
    rw [TailPart.tokens_cost] at htokens
    obtain ⟨rfl, rfl⟩ := List.cons.inj htokens
    rw [TailPart.fill_cost (AmountPhrase.amount?_total hc total)]
    cases total <;>
      simp only [if_true, Bool.false_eq_true, if_false, readAnnotation, hprice] <;> rfl
  | balance p =>
    obtain ⟨c, hc⟩ := hamount p rfl
    obtain ⟨rfl, rfl⟩ : .equals = t ∧ p.tokens ++ rest = ts := List.cons.inj htokens
    rw [TailPart.fill_balance hc]
    simp only [takeAfter_phrase (hraw p rfl) hrest hc, readAnnotation]
    rfl
  | comment text =>
    obtain ⟨rfl, rfl⟩ := List.cons.inj htokens
    rfl

theorem exists_part_of_readAnnotation (hnumerals : Token.Numerals ts)
    (h : readAnnotation t ts tail = .ok (tail', rest)) :
    ∃ part : TailPart,
      t :: ts = part.tokens ++ rest ∧ part.IsReadable ∧ part.fill tail = tail' := by
  have hlot : ∀ total price rest, takeLot total ts = .ok (price, rest) → ∃ part : TailPart,
      (if total then .openTotal else .openLot) :: ts = part.tokens ++ rest ∧ part.IsReadable ∧
        part.fill tail = { tail with lotPrice := some price } := by
    intro total price rest hlot
    obtain ⟨fixprice, p, rfl, hp⟩ := exists_phrase_of_takeLot hnumerals hlot
    exact ⟨.lot total fixprice p, (TailPart.tokens_lot total fixprice p rest).symm,
      TailPart.isReadable_of_amount? rfl hp, TailPart.fill_lot hp tail⟩
  have hcost : ∀ total opening price rest, takeAfter opening ts = .ok (price, rest) →
      ∃ part : TailPart, (if total then .totalCost else .unitCost) :: ts = part.tokens ++ rest ∧
        part.IsReadable ∧
          part.fill tail = { tail with costPrice := some { price with total } } := by
    intro total opening price rest hafter
    obtain ⟨p, rfl, hp⟩ := exists_phrase_of_takeAfter hnumerals hafter
    exact ⟨.cost total p, (TailPart.tokens_cost total p rest).symm,
      TailPart.isReadable_of_amount? rfl hp, TailPart.fill_cost (p.amount?_total hp total) tail⟩
  unfold readAnnotation at h
  split at h
  case h_1 =>
    obtain ⟨⟨price, rest⟩, htake, h⟩ := bind_eq_ok_iff.mp h
    obtain ⟨rfl, rfl⟩ := Prod.mk.inj (pure_eq_ok_iff.mp h)
    exact hlot false price rest htake
  case h_2 =>
    obtain ⟨⟨price, rest⟩, htake, h⟩ := bind_eq_ok_iff.mp h
    obtain ⟨rfl, rfl⟩ := Prod.mk.inj (pure_eq_ok_iff.mp h)
    exact hlot true price rest htake
  case h_3 =>
    obtain ⟨⟨date, rest⟩, htake, h⟩ := bind_eq_ok_iff.mp h
    obtain ⟨rfl, rfl⟩ := Prod.mk.inj (pure_eq_ok_iff.mp h)
    obtain ⟨text, rfl, rfl⟩ := takeLotDate_eq_ok_iff.mp htake
    exact ⟨.lotDate text, rfl, nofun, rfl⟩
  case h_4 =>
    obtain ⟨⟨price, rest⟩, htake, h⟩ := bind_eq_ok_iff.mp h
    obtain ⟨rfl, rfl⟩ := Prod.mk.inj (pure_eq_ok_iff.mp h)
    exact hcost false _ price rest htake
  case h_5 =>
    obtain ⟨⟨price, rest⟩, htake, h⟩ := bind_eq_ok_iff.mp h
    obtain ⟨rfl, rfl⟩ := Prod.mk.inj (pure_eq_ok_iff.mp h)
    exact hcost true _ price rest htake
  case h_6 =>
    obtain ⟨⟨price, rest⟩, htake, h⟩ := bind_eq_ok_iff.mp h
    obtain ⟨rfl, rfl⟩ := Prod.mk.inj (pure_eq_ok_iff.mp h)
    obtain ⟨p, rfl, hp⟩ := exists_phrase_of_takeAfter hnumerals htake
    exact ⟨.balance p, rfl, TailPart.isReadable_of_amount? rfl hp, TailPart.fill_balance hp tail⟩
  case h_7 =>
    obtain ⟨rfl, rfl⟩ := Prod.mk.inj (Except.ok.inj h)
    exact ⟨.comment _, rfl, nofun, rfl⟩
  case h_8 => cases h

/-- The tokens of parts are read one part after the other. -/
theorem readAnnotations_parts {parts : List TailPart}
    (hnumerals : Token.Numerals (parts.flatMap (·.tokens)))
    (hreadable : ∀ part ∈ parts, part.IsReadable)
    (hfuel : (parts.flatMap (·.tokens)).length ≤ fuel) :
    readAnnotations fuel (parts.flatMap (·.tokens)) tail =
      .ok (parts.foldl (fun tail part => part.fill tail) tail) := by
  induction parts generalizing fuel tail with
  | nil => cases fuel <;> rfl
  | cons part parts ih =>
    obtain ⟨hpart, hparts⟩ := List.forall_mem_cons.mp hreadable
    rw [List.flatMap_cons] at hnumerals
    have hraw : ∀ a ∈ part.phrase?, '-' ∉ a.numeral := fun a ha =>
      (hnumerals _ (List.mem_append_left _
        (TailPart.tokens_subset ha a.number_mem_tokens))).minus_notMem
    have hrest := (TailPart.annotates_flatMap parts).takeSymbol?
    obtain ⟨t, us, htokens, -⟩ := part.exists_tokens_eq_cons
    have happend : part.tokens ++ parts.flatMap (·.tokens) =
        t :: (us ++ parts.flatMap (·.tokens)) := by rw [htokens, List.cons_append]
    rw [List.flatMap_cons, happend] at hfuel ⊢
    cases fuel with
    | zero => simp at hfuel
    | succ fuel =>
      have hshorter : (parts.flatMap (·.tokens)).length ≤ fuel := by
        simp only [List.length_cons, List.length_append] at hfuel
        omega
      rw [readAnnotations, readAnnotation_part hraw hpart hrest happend, List.foldl_cons]
      exact ih hnumerals.right hparts hshorter

theorem exists_parts_of_readAnnotations (hnumerals : Token.Numerals ts) (hfuel : ts.length ≤ fuel)
    (h : readAnnotations fuel ts tail = .ok tail') :
    ∃ parts : List TailPart, ts = parts.flatMap (·.tokens) ∧ (∀ part ∈ parts, part.IsReadable) ∧
      parts.foldl (fun tail part => part.fill tail) tail = tail' := by
  induction fuel generalizing ts tail with
  | zero =>
    obtain rfl := List.length_eq_zero_iff.mp (Nat.le_zero.mp hfuel)
    exact ⟨[], rfl, by simp, Except.ok.inj h⟩
  | succ fuel ih =>
    cases ts with
    | nil => exact ⟨[], rfl, by simp, Except.ok.inj h⟩
    | cons t ts =>
      obtain ⟨⟨tail'', rest⟩, hannotation, h⟩ := bind_eq_ok_iff.mp h
      obtain ⟨part, happend, hpart, rfl⟩ :=
        exists_part_of_readAnnotation hnumerals.behind hannotation
      -- A part has a token, so that what is left is shorter.
      have hshorter : rest.length ≤ fuel := by
        obtain ⟨t', us, htokens, -⟩ := part.exists_tokens_eq_cons
        have hlength := congrArg List.length happend
        simp only [htokens, List.length_cons, List.length_append] at hlength hfuel
        omega
      rw [happend] at hnumerals
      obtain ⟨parts, rfl, hparts, hfold⟩ := ih hnumerals.right hshorter h
      exact ⟨part :: parts, happend, List.forall_mem_cons.mpr ⟨hpart, hparts⟩, hfold⟩

end Amount

/-! ## The whole text -/

namespace TailPhrase

variable {p : TailPhrase}

theorem isReadable_iff :
    p.IsReadable ↔ (∀ a ∈ p.amount, a.number?.isSome) ∧ ∀ part ∈ p.parts, part.IsReadable := by
  have hparts : (∀ a ∈ p.parts.filterMap (·.phrase?), a.number?.isSome) ↔
      ∀ part ∈ p.parts, part.IsReadable := by
    simp only [List.mem_filterMap, TailPart.IsReadable]
    exact ⟨fun h part hpart a ha => h a ⟨part, hpart, ha⟩,
      fun h a ⟨part, hpart, ha⟩ => h part hpart a ha⟩
  rw [IsReadable, amounts, List.forall_mem_append, hparts]
  simp only [Option.mem_toList, Option.mem_def]

theorem tokens_subset {a : AmountPhrase} (ha : a ∈ p.amounts) : a.tokens ⊆ p.tokens := by
  rcases List.mem_append.mp ha with hamount | hpart
  · intro t ht
    refine List.mem_append_left _ ?_
    rw [Option.mem_toList.mp hamount]
    exact ht
  · obtain ⟨part, hmem, hphrase⟩ := List.mem_filterMap.mp hpart
    exact fun t ht => List.mem_append_right _
      (List.mem_flatMap.mpr ⟨part, hmem, TailPart.tokens_subset hphrase ht⟩)

theorem fits_iff (p : TailPhrase) (h : Token.Numerals p.tokens) : p.Fits ↔ p.IsReadable :=
  forall₂_congr fun _ ha =>
    AmountPhrase.fits_iff (h _ (tokens_subset ha (AmountPhrase.number_mem_tokens _)))

theorem foldl_fill_parts (p : TailPhrase) :
    p.parts.foldl (fun tail part => part.fill tail)
      ⟨p.amount.bind (·.amount? false false), none, none, none, none, none⟩ = p.meaning := by
  rw [TailPart.foldl_fill, meaning]
  simp only [Option.or_none]

end TailPhrase

namespace Amount

variable {cs : List Char}

theorem tokens_eq_ok_iff : tokens cs = .ok ts ↔ Token.ofChars cs = .ok ts := by
  unfold tokens
  cases Token.ofChars cs <;> simp

theorem take?_writtenTokens {a : Option AmountPhrase} (hraw : ∀ p ∈ a, '-' ∉ p.numeral)
    (hreadable : ∀ p ∈ a, p.number?.isSome) (hrest : Annotates rest) :
    take? (writtenTokens a (·.tokens) ++ rest) =
      .ok (a.bind (·.amount? false false), rest) := by
  cases a with
  | none => exact hrest.take?
  | some p =>
    obtain ⟨c, hc⟩ :=
      Option.isSome_iff_exists.mp (AmountPhrase.isSome_amount?.trans (hreadable p rfl))
    have htake := take?_phrase (hraw p rfl) hrest.takeSymbol? hc
    rw [← hc] at htake
    exact htake

theorem exists_writtenTokens_of_take? {amount : Option Commodity} (hnumerals : Token.Numerals ts)
    (h : take? ts = .ok (amount, rest)) :
    ∃ a : Option AmountPhrase, ts = writtenTokens a (·.tokens) ++ rest ∧
      (∀ p ∈ a, p.number?.isSome) ∧ a.bind (·.amount? false false) = amount := by
  cases amount with
  | none => exact ⟨none, (eq_of_take?_eq_none h).symm, by simp, rfl⟩
  | some c =>
    obtain ⟨p, hts, hc⟩ := exists_phrase_of_take? hnumerals h
    refine ⟨some p, hts, fun p' hp' => ?_, hc⟩
    obtain rfl := Option.some.inj hp'
    exact AmountPhrase.isSome_amount?.symm.trans (Option.isSome_of_mem hc)

theorem exists_phrase_of_readTail (h : readTail cs = .ok tail) :
    ∃ p : TailPhrase, Token.ofChars cs = .ok p.tokens ∧ p.IsReadable ∧ p.meaning = tail := by
  obtain ⟨ts, hts, h⟩ := bind_eq_ok_iff.mp h
  obtain ⟨⟨amount, rest⟩, htake, h⟩ := bind_eq_ok_iff.mp h
  have hcut := tokens_eq_ok_iff.mp hts
  have hnumerals := Token.numerals_of_ofChars hcut
  obtain ⟨a, rfl, hamount, rfl⟩ := exists_writtenTokens_of_take? hnumerals htake
  obtain ⟨parts, rfl, hparts, rfl⟩ :=
    exists_parts_of_readAnnotations hnumerals.right (Nat.le_refl _) h
  exact ⟨⟨a, parts⟩, hcut, TailPhrase.isReadable_iff.mpr ⟨hamount, hparts⟩,
    (TailPhrase.foldl_fill_parts ⟨a, parts⟩).symm⟩

theorem readTail_phrase {p : TailPhrase} (hcut : Token.ofChars cs = .ok p.tokens)
    (hreadable : p.IsReadable) : readTail cs = .ok p.meaning := by
  have hnumerals := Token.numerals_of_ofChars hcut
  obtain ⟨hamount, hparts⟩ := TailPhrase.isReadable_iff.mp hreadable
  have hraw : ∀ a ∈ p.amount, '-' ∉ a.numeral := fun a ha =>
    (hnumerals _ (TailPhrase.tokens_subset (List.mem_append_left _ (Option.mem_toList.mpr ha))
      a.number_mem_tokens)).minus_notMem
  have htake := take?_writtenTokens hraw hamount (TailPart.annotates_flatMap p.parts)
  rw [readTail, tokens_eq_ok_iff.mpr hcut, ← p.foldl_fill_parts]
  change (do
    let read ← take? p.tokens
    readAnnotations read.2.length read.2 ⟨read.1, none, none, none, none, none⟩) = _
  rw [TailPhrase.tokens, htake]
  exact readAnnotations_parts hnumerals.right hparts (Nat.le_refl _)

/-- What follows an account is read exactly if its tokens are those of a phrase, of one only, and
there is room for all its numbers; and it is read as what the phrase means. -/
theorem readTail_eq_ok_iff :
    readTail cs = .ok tail ↔
      ∃! p : TailPhrase, Token.ofChars cs = .ok p.tokens ∧ p.Fits ∧ p.meaning = tail := by
  constructor
  · intro h
    obtain ⟨p, hcut, hreadable, rfl⟩ := exists_phrase_of_readTail h
    have hfits : p.Fits := (p.fits_iff (Token.numerals_of_ofChars hcut)).mpr hreadable
    refine ⟨p, ⟨hcut, hfits, rfl⟩, ?_⟩
    rintro q ⟨hcut', -, -⟩
    exact TailPhrase.tokens_injective (Except.ok.inj (hcut'.symm.trans hcut))
  · rintro ⟨p, ⟨hcut, hfits, rfl⟩, -⟩
    exact readTail_phrase hcut ((p.fits_iff (Token.numerals_of_ofChars hcut)).mp hfits)

end Amount

end Daybook
