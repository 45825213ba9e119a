import Daybook.Proofs.Journal.WrittenTail

/-!
# What is read behind the account

The names of amounts are those of tokens. An amount that has been read is shown with the decimals
that it has, and only prices are qualified (`readTail_isRead`).
-/

namespace Daybook

open Daybook.Text

namespace Commodity

variable {P : String → Prop} {c : Commodity}

/-- The name satisfies `P` or is missing, which no currency can be. -/
def Named (P : String → Prop) (c : Commodity) : Prop :=
  P c.name ∨ c.name = "" ∧ c.currency = false

theorem Named.isBare (h : c.Named IsBareName) : c.IsBare := by
  rcases h with hname | ⟨hname, hcurrency⟩
  · exact ⟨hname.2, fun _ => hname.1⟩
  · refine ⟨fun x hx => ?_, fun htrue => ?_⟩
    · rw [hname] at hx
      cases hx
    · rw [hcurrency] at htrue
      cases htrue

theorem Named.isPlainName (h : c.Named IsPlainName) : IsPlainName c.name := by
  rcases h with hname | ⟨hname, -⟩
  · exact hname
  · rw [hname]
    exact ⟨by simp, by simp⟩

/-- The amount is as it is read: it is shown with the decimals that it has, and its name satisfies
`P`. -/
structure IsRead (P : String → Prop) (c : Commodity) : Prop where
  named : c.Named P
  exact : c.IsExact

end Commodity

/-- What follows an account is as it is read: only the price of a lot can be fixed, and only that
and a cost can be total. -/
structure PostingTail.IsRead (P : String → Prop) (tail : PostingTail) : Prop where
  amount : ∀ c ∈ tail.amount, c.IsRead P ∧ c.unqualified = c
  lotPrice : ∀ c ∈ tail.lotPrice, c.IsRead P
  costPrice : ∀ c ∈ tail.costPrice, c.IsRead P ∧ c.loosened = c
  balancePrice : ∀ c ∈ tail.balancePrice, c.IsRead P ∧ c.unqualified = c

/-! ## What phrases mean -/

section

variable {P : String → Prop} {c : Commodity} {total fixprice : Bool} {a : AmountPhrase}
  {p : TailPhrase}

theorem WrittenName.name?_token (n : WrittenName) : n.token.name? = some n.name := by
  cases n <;> rfl

theorem AmountPhrase.isRead_of_amount? (hnames : Token.Names P a.tokens)
    (h : a.amount? total fixprice = some c) : c.IsRead P := by
  obtain ⟨n, -, rfl⟩ := Option.map_eq_some_iff.mp h
  refine ⟨?_, rfl⟩
  cases a with
  | leading outer name inner numeral =>
    exact .inl (hnames name.token (by simp [tokens]) _ name.name?_token)
  | trailing negated numeral name =>
    cases name with
    | none => exact .inr ⟨rfl, rfl⟩
    | some name => exact .inl (hnames name.token (by simp [tokens]) _ name.name?_token)

theorem AmountPhrase.unqualified_of_amount? (h : a.amount? false false = some c) :
    c.unqualified = c := by
  obtain ⟨n, -, rfl⟩ := Option.map_eq_some_iff.mp h
  rfl

theorem AmountPhrase.loosened_of_amount? (h : a.amount? total false = some c) : c.loosened = c := by
  obtain ⟨n, -, rfl⟩ := Option.map_eq_some_iff.mp h
  rfl

theorem TailPart.exists_of_last?_eq_some {α : Type} {f : TailPart → Option α}
    {parts : List TailPart} {x : α} (h : last? f parts = some x) :
    ∃ part ∈ parts, f part = some x :=
  List.mem_filterMap.mp (List.mem_of_getLast? h)

theorem TailPart.exists_of_lotPrice?_eq_some {part : TailPart} (h : part.lotPrice? = some c) :
    ∃ a total fixprice, part.phrase? = some a ∧ a.amount? total fixprice = some c := by
  cases part with
  | lot total fixprice a => exact ⟨a, total, fixprice, rfl, h⟩
  | _ => cases h

theorem TailPart.exists_of_costPrice?_eq_some {part : TailPart} (h : part.costPrice? = some c) :
    ∃ a total, part.phrase? = some a ∧ a.amount? total false = some c := by
  cases part with
  | cost total a => exact ⟨a, total, rfl, h⟩
  | _ => cases h

theorem TailPart.exists_of_balancePrice?_eq_some {part : TailPart}
    (h : part.balancePrice? = some c) :
    ∃ a, part.phrase? = some a ∧ a.amount? false false = some c := by
  cases part with
  | balance a => exact ⟨a, rfl, h⟩
  | _ => cases h

theorem TailPhrase.meaning_isRead (hnames : Token.Names P p.tokens) : p.meaning.IsRead P := by
  have hamounts : ∀ a ∈ p.amounts, Token.Names P a.tokens := fun a ha t ht =>
    hnames t (tokens_subset ha ht)
  have hparts : ∀ part ∈ p.parts, ∀ a, part.phrase? = some a → Token.Names P a.tokens :=
    fun part hpart a ha => hamounts a
      (List.mem_append_right _ (List.mem_filterMap.mpr ⟨part, hpart, ha⟩))
  constructor
  case amount =>
    intro c hc
    obtain ⟨a, ha, hc⟩ := Option.bind_eq_some_iff.mp hc
    have hmem : a ∈ p.amounts := List.mem_append_left _ (Option.mem_toList.mpr ha)
    exact ⟨a.isRead_of_amount? (hamounts a hmem) hc, a.unqualified_of_amount? hc⟩
  case lotPrice =>
    intro c hc
    obtain ⟨part, hpart, hc⟩ := TailPart.exists_of_last?_eq_some hc
    obtain ⟨a, total, fixprice, ha, hc⟩ := TailPart.exists_of_lotPrice?_eq_some hc
    exact a.isRead_of_amount? (hparts part hpart a ha) hc
  case costPrice =>
    intro c hc
    obtain ⟨part, hpart, hc⟩ := TailPart.exists_of_last?_eq_some hc
    obtain ⟨a, total, ha, hc⟩ := TailPart.exists_of_costPrice?_eq_some hc
    exact ⟨a.isRead_of_amount? (hparts part hpart a ha) hc, a.loosened_of_amount? hc⟩
  case balancePrice =>
    intro c hc
    obtain ⟨part, hpart, hc⟩ := TailPart.exists_of_last?_eq_some hc
    obtain ⟨a, ha, hc⟩ := TailPart.exists_of_balancePrice?_eq_some hc
    exact ⟨a.isRead_of_amount? (hparts part hpart a ha) hc, a.unqualified_of_amount? hc⟩

end

theorem Amount.readTail_isRead {P : String → Prop} {cs : List Char} {tail : PostingTail}
    (hnames : ∀ ts, Token.ofChars cs = .ok ts → Token.Names P ts) (h : readTail cs = .ok tail) :
    tail.IsRead P := by
  obtain ⟨p, hcut, -, rfl⟩ := exists_phrase_of_readTail h
  exact p.meaning_isRead (hnames p.tokens hcut)

end Daybook
