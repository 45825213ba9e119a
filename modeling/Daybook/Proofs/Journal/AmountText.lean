import Daybook.Proofs.Decimal.Places
import Daybook.Proofs.Journal.WrittenTail

/-!
# Amounts alone

A text is an amount exactly if its tokens are those of one (`read_eq_ok_iff_tokens`). What is
written of an amount is read as the amount (`read_text`), and a minus sign before a text changes the
sign of the amount that the text is (`read_minus`).
-/

namespace Daybook

open Daybook.Result Daybook.Text

variable {c : Commodity} {ts : List Token} {cs : List Char}

/-! ## A text that is an amount -/

namespace Amount

theorem read_eq_ok_iff_tokens :
    read cs = .ok c ↔
      ∃ p : AmountPhrase, Token.ofChars cs = .ok p.tokens ∧ p.amount? false false = some c := by
  constructor
  · intro h
    obtain ⟨ts, hts, h⟩ := bind_eq_ok_iff.mp h
    obtain ⟨⟨amount, rest⟩, htake, h⟩ := bind_eq_ok_iff.mp h
    have hcut := tokens_eq_ok_iff.mp hts
    split at h
    case h_1 | h_3 => cases h
    case h_2 c' heq =>
      obtain ⟨rfl, rfl⟩ := Prod.mk.inj heq
      obtain rfl := pure_eq_ok_iff.mp h
      obtain ⟨p, rfl, hc⟩ := exists_phrase_of_take? (Token.numerals_of_ofChars hcut) htake
      rw [List.append_nil] at hcut
      exact ⟨p, hcut, hc⟩
  · rintro ⟨p, hcut, hc⟩
    have hraw := (Token.numerals_of_ofChars hcut _ p.number_mem_tokens).minus_notMem
    have htake : take? p.tokens = .ok (some c, []) := by
      rw [← p.tokens.append_nil]
      exact take?_phrase hraw rfl hc
    exact bind_eq_ok_iff.mpr
      ⟨_, tokens_eq_ok_iff.mpr hcut, bind_eq_ok_iff.mpr ⟨_, htake, rfl⟩⟩

end Amount

/-! ## Amounts that have been written -/

namespace Commodity

theorem text_of_textWithPlaces {b : Decimal} (hscale : b.scale = c.precision)
    (h : c.amount.textWithPlaces c.precision = b.text) :
    c.text = { c with amount := b }.text := by
  rw [text, text, h, ← hscale, Decimal.textWithPlaces_scale]

end Commodity

theorem Amount.read_text_of_isExact (hbare : c.IsBare) (hexact : c.IsExact) :
    read c.text.toList = .ok c.unqualified := by
  have hcut := Commodity.ofChars_text hbare hexact Token.Seam.nil
  rw [List.append_nil, Token.ofChars, Except.map, List.append_nil] at hcut
  exact read_eq_ok_iff_tokens.mpr ⟨c.phrase, c.tokens_phrase ▸ hcut, c.amount?_phrase hexact _ _⟩

/-- What is written of an amount is read as an amount of the same name, shown alike, with the same
value, if the name needs no quotes and the amount is a number of as many decimals as it is shown
with. -/
theorem Amount.read_text (hbare : c.IsBare) (hprecision : c.precision ≤ Decimal.maxScale)
    (hfits : Decimal.Fits c.precision c.amount.value) :
    ∃ amount, Amount.read c.text.toList =
        .ok ⟨c.name, amount, c.currency, c.precision, false, false⟩ ∧
      amount.value = c.amount.value := by
  obtain ⟨b, hscale, hvalue, htext⟩ := Decimal.exists_textWithPlaces_eq hprecision hfits
  have hread := read_text_of_isExact (c := { c with amount := b }) hbare hscale.symm
  rw [← Commodity.text_of_textWithPlaces hscale htext] at hread
  exact ⟨b, hread, hvalue⟩

theorem Amount.read_text_dollars :
    let c : Commodity := ⟨"$", ⟨true, 50, 1, by decide, by decide⟩, true, 2, false, true⟩
    (c.IsBare ∧ c.precision ≤ Decimal.maxScale ∧ Decimal.Fits c.precision c.amount.value) ∧
      c.text = "-$5.00" ∧
      ∃ amount, Amount.read c.text.toList = .ok ⟨"$", amount, true, 2, false, false⟩ ∧
        amount.value = c.amount.value := by
  intro c
  have hfits : Decimal.Fits c.precision c.amount.value :=
    ⟨⟨-500, by decide +kernel⟩, by decide +kernel⟩
  exact ⟨⟨by decide, by decide, hfits⟩, by decide, Amount.read_text (by decide) (by decide) hfits⟩

/-! ## A minus sign before an amount -/

namespace AmountPhrase

def negated : AmountPhrase → AmountPhrase
  | leading _ name inner numeral => leading true name inner numeral
  | trailing _ numeral name => trailing true numeral name

variable {p : AmountPhrase}

theorem tokens_negated (h : p.tokens.head? ≠ some .minus) :
    p.negated.tokens = .minus :: p.tokens := by
  rcases p with ⟨_ | _, _, _, _⟩ | ⟨_ | _, _, _⟩ <;> first | rfl | exact absurd rfl h

theorem exists_negated (h : p.tokens = .minus :: ts) :
    ∃ q : AmountPhrase, q.tokens = ts ∧ p = q.negated := by
  rcases p with ⟨_ | _, name, inner, numeral⟩ | ⟨_ | _, numeral, name⟩
  · exact absurd (List.cons.inj h).1 name.token_ne_minus
  · exact ⟨.leading false name inner numeral, (List.cons.inj h).2, rfl⟩
  · cases (List.cons.inj h).1
  · exact ⟨.trailing false numeral name, (List.cons.inj h).2, rfl⟩

theorem amount?_negated (h : p.tokens.head? ≠ some .minus) (total fixprice : Bool) :
    p.negated.amount? total fixprice = (p.amount? total fixprice).map (·.invert) := by
  have hnumber : p.negated.number? = p.number? := by cases p <;> rfl
  have hname : p.negated.name = p.name := by rcases p with _ | ⟨_, _, _ | _⟩ <;> rfl
  have hleading : p.negated.isLeading = p.isLeading := by cases p <;> rfl
  have hnegative : p.negated.isNegative = !p.isNegative := by
    rw [isNegative, isNegative, tokens_negated h, List.count_cons_self, ← decide_not]
    exact decide_eq_decide.mpr (by omega)
  rw [amount?, amount?, hnumber, hname, hleading, hnegative, Option.map_map]
  rfl

end AmountPhrase

theorem Token.head?_ne_minus (hcs : ∀ x ∈ (cs.dropWhile isSpacing).head?, x ≠ '-')
    (h : ofChars cs = .ok ts) : ts.head? ≠ some .minus := by
  induction cs using ofChars.induct with
  | case1 =>
    rw [ofChars] at h
    cases h
    simp
  | case2 c cs hc ih =>
    rw [List.dropWhile_cons_of_pos hc] at hcs
    rw [ofChars_spacing hc] at h
    exact ih hcs h
  | case3 c cs hc t rest htake _ _ =>
    rw [List.dropWhile_cons_of_neg hc] at hcs
    rw [ofChars_of_take (by simpa using hc) htake] at h
    obtain ⟨us, -, rfl⟩ := map_eq_ok_iff.mp h
    intro hhead
    obtain rfl : t = .minus := Option.some.inj hhead
    exact hcs c rfl (List.cons.inj (take_eq_ok htake)).1.symm
  | case4 c cs hc bad htake =>
    rw [ofChars_of_take_eq_error (by simpa using hc) htake] at h
    cases h

/-- A minus sign before a text that begins with none changes the sign of the amount that the text
is, and nothing else. -/
theorem Amount.read_minus (hcs : ∀ x ∈ (cs.dropWhile isSpacing).head?, x ≠ '-') :
    read ('-' :: cs) = .ok c ↔ ∃ d, read cs = .ok d ∧ d.invert = c := by
  have hcut : Token.ofChars ('-' :: cs) = (Token.ofChars cs).map (.minus :: ·) :=
    Token.ofChars_of_take (by decide) rfl
  constructor
  · intro h
    obtain ⟨p, hp, hc⟩ := read_eq_ok_iff_tokens.mp h
    rw [hcut] at hp
    obtain ⟨ts, hts, htokens⟩ := map_eq_ok_iff.mp hp
    obtain ⟨q, rfl, rfl⟩ := p.exists_negated htokens.symm
    rw [q.amount?_negated (Token.head?_ne_minus hcs hts)] at hc
    obtain ⟨d, hd, rfl⟩ := Option.map_eq_some_iff.mp hc
    exact ⟨d, read_eq_ok_iff_tokens.mpr ⟨q, hts, hd⟩, rfl⟩
  · rintro ⟨d, hd, rfl⟩
    obtain ⟨p, hp, hd⟩ := read_eq_ok_iff_tokens.mp hd
    have hhead := Token.head?_ne_minus hcs hp
    refine read_eq_ok_iff_tokens.mpr ⟨p.negated, ?_, ?_⟩
    · rw [hcut, hp, p.tokens_negated hhead]
      rfl
    · rw [p.amount?_negated hhead, hd]
      rfl

theorem Amount.read_minus_inner :
    (∀ x ∈ ("$-5".toList.dropWhile isSpacing).head?, x ≠ '-') ∧
      read "-$-5".toList = .ok (.ofCurrency "$" ⟨false, 5, 0, by decide, by decide⟩) := by
  have hhead : ("$-5".toList.dropWhile isSpacing).head? = some '$' := by decide +kernel
  have hfirst : ∀ x ∈ ("$-5".toList.dropWhile isSpacing).head?, x ≠ '-' := by
    intro x hx
    rw [hhead] at hx
    obtain rfl := Option.some.inj hx
    decide
  exact ⟨hfirst, (read_minus hfirst).mpr
    ⟨.ofCurrency "$" ⟨true, 5, 0, by decide, by decide⟩, by decide +kernel, rfl⟩⟩

end Daybook
