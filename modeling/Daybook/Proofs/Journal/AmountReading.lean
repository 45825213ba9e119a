import Daybook.Proofs.Journal.TailPhrase
import Daybook.Proofs.Journal.TokenNames

/-!
# Amounts that are read

An amount is taken from the start of tokens exactly if they begin with those of a phrase whose
digits denote a number (`take?_phrase`, `exists_phrase_of_take?`), and digits denote one exactly if
there is room for it (`AmountPhrase.fits_iff`).
-/

namespace Daybook

open Daybook.Result Daybook.Text

variable {b : Bool} {c : Commodity} {t : Token} {ts rest : List Token} {raw : List Char}

/-! ## Signs -/

/-- The numbers among the tokens are digits without a sign. -/
def Token.Numerals (ts : List Token) : Prop := ∀ raw, number raw ∈ ts → IsNumeral raw

theorem Token.Numerals.right {us : List Token} (h : Numerals (us ++ ts)) : Numerals ts :=
  fun raw hraw => h raw (List.mem_append_right us hraw)

theorem Token.Numerals.behind (h : Numerals (t :: ts)) : Numerals ts :=
  fun raw hraw => h raw (List.mem_cons_of_mem t hraw)

theorem Token.numerals_of_ofChars {cs : List Char} (h : ofChars cs = .ok ts) : Numerals ts := by
  have hnumbers : ∀ t ∈ ts, ∀ raw, t = .number raw → IsNumeral raw :=
    forall_mem_of_ofChars (fun htake _ heq => isNumeral_of_take (heq ▸ htake)) h
  exact fun raw hraw => hnumbers _ hraw raw rfl

theorem Amount.takeMinus_sign (ht : t ≠ .minus) (b : Bool) (ts : List Token) :
    takeMinus (signTokens b ++ t :: ts) = (b, t :: ts) := by
  cases b with
  | true => rfl
  | false =>
    rw [signTokens, if_neg Bool.false_ne_true, List.nil_append]
    cases t <;> first | rfl | exact absurd rfl ht

theorem Amount.takeMinus_cases (ts : List Token) :
    ∃ b us, ts = signTokens b ++ us ∧ takeMinus ts = (b, us) := by
  unfold takeMinus
  split
  · exact ⟨true, _, rfl, rfl⟩
  · exact ⟨false, _, rfl, rfl⟩

theorem Amount.readNumber_eq_ok_iff (hraw : '-' ∉ raw) {a : Decimal} :
    readNumber raw b = .ok a ↔
      ∃ n, Decimal.read? (raw.filter (· ≠ ',')) = some n ∧ { n with negative := b } = a := by
  have hhead : (raw.filter (· ≠ ',')).head? ≠ some '-' := fun hhead =>
    hraw (List.mem_of_mem_filter (List.mem_of_head? hhead))
  rw [readNumber]
  cases hread : Decimal.read? (raw.filter (· ≠ ',')) with
  | none => simp
  | some n =>
    have hn : n.negative = false := Decimal.negative_of_read? hhead hread
    obtain ⟨negative, mantissa, scale⟩ := n
    obtain rfl : negative = false := hn
    cases b <;> simp [Decimal.neg]

namespace AmountPhrase

variable {total fixprice : Bool} {p : AmountPhrase}

theorem isNegative_leading (outer : Bool) (n : WrittenName) (inner : Bool) :
    (leading outer n inner raw).isNegative = (outer != inner) := by
  cases outer <;> cases inner <;> cases n <;>
    simp [isNegative, tokens, signTokens, WrittenName.token]

theorem isNegative_trailing (negated : Bool) (n : Option WrittenName) :
    (trailing negated raw n).isNegative = negated := by
  cases negated <;> rcases n with _ | _ | _ <;> rfl

theorem isSome_amount? : (p.amount? total fixprice).isSome = p.number?.isSome := Option.isSome_map

theorem number_mem_tokens (p : AmountPhrase) : Token.number p.numeral ∈ p.tokens := by
  cases p <;> simp [tokens, numeral]

theorem amount?_qualified (h : p.amount? false false = some c) (total fixprice : Bool) :
    p.amount? total fixprice = some { c with total, fixprice } := by
  obtain ⟨n, hn, rfl⟩ := Option.map_eq_some_iff.mp h
  rw [amount?, hn]
  rfl

theorem amount?_total (h : p.amount? false false = some c) (total : Bool) :
    p.amount? total false = some { c with total } := by
  obtain ⟨n, hn, rfl⟩ := Option.map_eq_some_iff.mp h
  rw [amount?, hn]
  rfl

theorem fits_iff (h : Token.IsNumeral p.numeral) :
    p.Fits ↔ p.number?.isSome = true := by
  obtain ⟨whole, decimals, hwhole, hne, hdecimals, hraw⟩ := h
  have hcut : Token.split isDigit (p.numeral.filter (· ≠ ',')) =
      (whole, if decimals = [] then [] else '.' :: decimals) := by
    rw [hraw]
    refine Token.split_append_of hwhole fun c hc => ?_
    split at hc
    · cases hc
    · obtain rfl := Option.some.inj hc
      decide
  have htenths : p.tenths = 10 * digitsValue whole + Decimal.firstDigit decimals := by
    obtain ⟨htake, hdrop⟩ := Prod.mk.inj hcut
    rw [tenths, htake, hdrop]
    by_cases hnil : decimals = [] <;> simp [hnil]
  rw [Fits, htenths, number?, hraw, Decimal.isSome_read?_iff hwhole hne hdecimals]

end AmountPhrase

/-! ## Amounts -/

namespace Amount

variable {p : AmountPhrase} {name : String}

theorem takeSymbol?_eq_some_iff :
    takeSymbol? ts = some (name, rest) ↔
      ∃ n : WrittenName, ts = n.token :: rest ∧ n.name = name := by
  constructor
  · intro h
    unfold takeSymbol? at h
    split at h
    case h_1 s rest' =>
      obtain ⟨rfl, rfl⟩ := Prod.mk.inj (Option.some.inj h)
      exact ⟨.bare s, rfl, rfl⟩
    case h_2 s rest' =>
      obtain ⟨rfl, rfl⟩ := Prod.mk.inj (Option.some.inj h)
      exact ⟨.quoted s, rfl, rfl⟩
    case h_3 => cases h
  · rintro ⟨n, rfl, rfl⟩
    exact takeSymbol?_token n rest

theorem takeCurrency_eq_ok_iff :
    takeCurrency name b ts = .ok (c, rest) ↔
      ∃ inner raw n, ts = signTokens inner ++ .number raw :: rest ∧
        readNumber raw (b != inner) = .ok n ∧ Commodity.ofCurrency name n = c := by
  constructor
  · intro h
    obtain ⟨inner, us, rfl, hminus⟩ := takeMinus_cases ts
    simp only [takeCurrency, hminus] at h
    split at h
    case h_2 => cases h
    case h_1 raw rest' =>
      obtain ⟨n, hnumber, h⟩ := bind_eq_ok_iff.mp h
      obtain ⟨rfl, rfl⟩ := Prod.mk.inj (pure_eq_ok_iff.mp h)
      exact ⟨inner, raw, n, rfl, hnumber, rfl⟩
  · rintro ⟨inner, raw, n, rfl, hnumber, rfl⟩
    simp only [takeCurrency, takeMinus_sign (Token.number_ne_minus raw), hnumber]
    rfl

theorem take?_phrase (hraw : '-' ∉ p.numeral) (hrest : takeSymbol? rest = none)
    (h : p.amount? false false = some c) : take? (p.tokens ++ rest) = .ok (some c, rest) := by
  obtain ⟨n, hn, rfl⟩ := Option.map_eq_some_iff.mp h
  have hnumber : ∀ b, readNumber p.numeral b = .ok { n with negative := b } := fun b =>
    (readNumber_eq_ok_iff hraw).mpr ⟨n, hn, rfl⟩
  cases p with
  | leading outer name inner numeral =>
    have hcurrency : takeCurrency name.name outer (signTokens inner ++ .number numeral :: rest) =
        .ok (Commodity.ofCurrency name.name { n with negative := outer != inner }, rest) :=
      takeCurrency_eq_ok_iff.mpr ⟨inner, numeral, _, rfl, hnumber _, rfl⟩
    simp only [AmountPhrase.tokens, List.append_assoc, List.cons_append, List.nil_append, take?,
      takeMinus_sign name.token_ne_minus, takeSymbol?_token, hcurrency,
      AmountPhrase.isNegative_leading]
    rfl
  | trailing negated numeral name =>
    have hfirst : ∀ us, takeSymbol? (.number numeral :: us) = none := fun us => rfl
    have hnegated : readNumber numeral negated = .ok { n with negative := negated } :=
      hnumber negated
    simp only [AmountPhrase.tokens, List.append_assoc, List.cons_append, take?,
      takeMinus_sign (Token.number_ne_minus numeral), hfirst, hnegated,
      AmountPhrase.isNegative_trailing]
    cases name with
    | none =>
      simp only [Option.map_none, Option.toList_none, List.nil_append, hrest]
      rfl
    | some name =>
      simp only [Option.map_some, Option.toList_some, List.cons_append, List.nil_append,
        takeSymbol?_token]
      rfl

theorem exists_phrase_of_take? (hnumerals : Token.Numerals ts)
    (h : take? ts = .ok (some c, rest)) :
    ∃ p : AmountPhrase, ts = p.tokens ++ rest ∧ p.amount? false false = some c := by
  obtain ⟨outer, us, rfl, hminus⟩ := takeMinus_cases ts
  simp only [take?, hminus] at h
  have hus := hnumerals.right
  split at h
  case h_1 symbol behind hsymbol =>
    obtain ⟨name, rfl, rfl⟩ := takeSymbol?_eq_some_iff.mp hsymbol
    obtain ⟨⟨c', rest'⟩, hcurrency, h⟩ := bind_eq_ok_iff.mp h
    obtain ⟨hc, rfl⟩ := Prod.mk.inj (pure_eq_ok_iff.mp h)
    obtain rfl := Option.some.inj hc
    obtain ⟨inner, raw, m, rfl, hnumber, rfl⟩ := takeCurrency_eq_ok_iff.mp hcurrency
    have hraw : '-' ∉ raw := (hus raw (by simp)).minus_notMem
    obtain ⟨n, hn, rfl⟩ := (readNumber_eq_ok_iff hraw).mp hnumber
    refine ⟨.leading outer name inner raw, by simp [AmountPhrase.tokens],
      Option.map_eq_some_iff.mpr ⟨n, hn, ?_⟩⟩
    rw [AmountPhrase.isNegative_leading]
    rfl
  case h_2 =>
    split at h
    case h_2 => split at h <;> cases h
    case h_1 raw behind hnone =>
      obtain ⟨m, hnumber, h⟩ := bind_eq_ok_iff.mp h
      have hraw : '-' ∉ raw := (hus raw (by simp)).minus_notMem
      obtain ⟨n, hn, rfl⟩ := (readNumber_eq_ok_iff hraw).mp hnumber
      split at h
      case h_1 symbol rest' hsymbol =>
        obtain ⟨name, rfl, rfl⟩ := takeSymbol?_eq_some_iff.mp hsymbol
        obtain ⟨hc, rfl⟩ := Prod.mk.inj (pure_eq_ok_iff.mp h)
        obtain rfl := Option.some.inj hc
        refine ⟨.trailing outer raw (some name), by simp [AmountPhrase.tokens],
          Option.map_eq_some_iff.mpr ⟨n, hn, ?_⟩⟩
        rw [AmountPhrase.isNegative_trailing]
        rfl
      case h_2 =>
        obtain ⟨hc, rfl⟩ := Prod.mk.inj (pure_eq_ok_iff.mp h)
        obtain rfl := Option.some.inj hc
        refine ⟨.trailing outer raw none, by simp [AmountPhrase.tokens],
          Option.map_eq_some_iff.mpr ⟨n, hn, ?_⟩⟩
        rw [AmountPhrase.isNegative_trailing]
        rfl

theorem eq_of_take?_eq_none (h : take? ts = .ok (none, rest)) : rest = ts := by
  obtain ⟨negated, us, rfl, hminus⟩ := takeMinus_cases ts
  simp only [take?, hminus] at h
  split at h
  case h_1 =>
    obtain ⟨_, -, h⟩ := bind_eq_ok_iff.mp h
    cases pure_eq_ok_iff.mp h
  case h_2 =>
    split at h
    case h_1 =>
      obtain ⟨_, -, h⟩ := bind_eq_ok_iff.mp h
      split at h <;> cases pure_eq_ok_iff.mp h
    case h_2 =>
      cases negated with
      | true => cases h
      | false => exact (Prod.mk.inj (Except.ok.inj h)).2.symm

theorem takeAfter_phrase (hraw : '-' ∉ p.numeral) (hrest : takeSymbol? rest = none)
    (h : p.amount? false false = some c) (opening : Token) :
    takeAfter opening (p.tokens ++ rest) = .ok (c, rest) := by
  rw [takeAfter, take?_phrase hraw hrest h]
  rfl

theorem exists_phrase_of_takeAfter {opening : Token} (hnumerals : Token.Numerals ts)
    (h : takeAfter opening ts = .ok (c, rest)) :
    ∃ p : AmountPhrase, ts = p.tokens ++ rest ∧ p.amount? false false = some c := by
  rw [takeAfter] at h
  obtain ⟨⟨amount, rest'⟩, htake, h⟩ := bind_eq_ok_iff.mp h
  split at h
  case h_2 => cases h
  case h_1 c' rest'' heq =>
    obtain ⟨rfl, rfl⟩ := Prod.mk.inj heq
    obtain ⟨rfl, rfl⟩ := Prod.mk.inj (pure_eq_ok_iff.mp h)
    exact exists_phrase_of_take? hnumerals htake

end Amount

end Daybook
