import Daybook.Proofs.Journal.Insertion
import Daybook.Proofs.Journal.ReadPosting
import Daybook.Proofs.Journal.Reached
import Daybook.Proofs.Journal.Spacing

/-!
# Names in quotes

The name of a commodity may stand in double quotes. Four parts of reading meet such a name: the
tokens of amounts, and the lines that declare a commodity, give it a price or fix its price. The
first three take the quotes off (`WrittenName.name_quoted`, `Reading.step_declaration`,
`Line.readPrice_quoted`); the last one keeps them (`Reading.step_fixed`). Behind the date of a price
a name in quotes that has a colon is taken for a time, if there is no time before it.
-/

namespace Daybook

open Daybook.Text

def inQuotes (name : String) : List Char := '"' :: (name.toList ++ ['"'])

theorem trim_inQuotes_append (name : String) {value : List Char} (hvalue : trim value = value)
    (hne : value ≠ []) : trim (inQuotes name ++ ' ' :: value) = inQuotes name ++ ' ' :: value := by
  have hend : trimEnd value = value := trimEnd_of_trim_eq hvalue
  have hback := trimEnd_append_of_ne_nil (hend.symm ▸ hne) (inQuotes name ++ [' '])
  rw [hend, List.append_assoc, List.singleton_append] at hback
  have hhead : ∀ c ∈ (inQuotes name ++ ' ' :: value).head?, isBlank c = false := by
    intro c hc
    obtain rfl := Option.some.inj hc
    decide
  rw [trim, trimStart_eq hhead, hback]

/-- The name can be written in quotes as one word of a line: it is not empty, and no blank, quote or
semicolon is in it. -/
structure IsQuotable (name : String) : Prop where
  ne_empty : name ≠ ""
  plain : ∀ c ∈ name.toList, Journal.Plain c
  unquoted : '"' ∉ name.toList

instance (name : String) : Decidable (IsQuotable name) :=
  decidable_of_iff (name ≠ "" ∧ name.toList.all (fun c => decide (Journal.Plain c)) = true ∧
      '"' ∉ name.toList)
    ⟨fun ⟨hne, hplain, hquote⟩ => ⟨hne, Journal.plain_of_all hplain, hquote⟩,
      fun ⟨hne, hplain, hquote⟩ =>
        ⟨hne, List.all_eq_true.mpr fun c hc => decide_eq_true (hplain c hc), hquote⟩⟩

namespace IsQuotable

variable {name : String}

theorem plain_inQuotes (h : IsQuotable name) : ∀ c ∈ inQuotes name, Journal.Plain c := by
  have hquote : Journal.Plain '"' := ⟨by decide, by decide⟩
  refine List.forall_mem_cons.mpr ⟨hquote, List.forall_mem_append.mpr ⟨h.plain, ?_⟩⟩
  exact List.forall_mem_singleton.mpr hquote

theorem trim_inQuotes (h : IsQuotable name) : trim (inQuotes name) = inQuotes name :=
  trim_eq (List.cons_ne_nil _ _) fun c hc => (h.plain_inQuotes c hc).1

theorem semicolon_notMem (h : IsQuotable name) : ';' ∉ inQuotes name :=
  fun hmem => (h.plain_inQuotes ';' hmem).2 rfl

theorem ofList_strip (h : IsQuotable name) : String.ofList (strip '"' (inQuotes name)) = name := by
  rw [inQuotes, Token.strip_quoted h.unquoted, String.ofList_toList]

theorem firstWord_inQuotes (h : IsQuotable name) {value : List Char} (hvalue : trim value = value) :
    firstWord (inQuotes name ++ ' ' :: value) = (inQuotes name, value) :=
  firstWord_append (List.cons_ne_nil _ _) (fun c hc => (h.plain_inQuotes c hc).1)
    (trimStart_eq_self_iff.mp (trimStart_of_trim_eq hvalue))

end IsQuotable

/-! ## Amounts -/

theorem Token.take_quoted {name : String} (h : IsQuotable name) (rest : List Char) :
    take '"' (name.toList ++ '"' :: rest) = .ok (.quoted (inQuotes name), rest) := by
  refine takeQuoted_eq_ok_iff.mpr ⟨name.toList, fun c hc => ⟨?_, ?_⟩, rfl, rfl⟩
  · rintro rfl
    exact h.unquoted hc
  · rintro rfl
    exact absurd (h.plain _ hc).1 (by decide)

theorem Token.ofChars_quoted {name : String} (h : IsQuotable name) (rest : List Char) :
    ofChars (inQuotes name ++ rest) =
      (ofChars rest).map (.quoted (inQuotes name) :: ·) := by
  have hchars : inQuotes name ++ rest = '"' :: (name.toList ++ '"' :: rest) := by
    simp [inQuotes]
  rw [hchars, ofChars_of_take (by decide) (take_quoted h rest)]

theorem Token.stands_quoted {name : String} (h : IsQuotable name) :
    (Token.quoted (inQuotes name)).Stands := by
  refine ⟨?_, rfl⟩
  have hcut := ofChars_quoted h []
  rw [List.append_nil, ofChars] at hcut
  exact hcut

theorem WrittenName.name_quoted {name : String} (h : IsQuotable name) :
    (WrittenName.quoted (inQuotes name)).name = name := h.ofList_strip

/-- The amount is one of the commodity, whose name is written in quotes. -/
def AmountPhrase.Quotes (name : String) : AmountPhrase → Prop
  | leading _ written _ _ => written = .quoted (inQuotes name)
  | trailing _ _ written => written = some (.quoted (inQuotes name))

theorem AmountPhrase.Quotes.name_of_amount? {name : String} {a : AmountPhrase}
    (h : a.Quotes name) (hname : IsQuotable name) {total fixprice : Bool} {c : Commodity}
    (hc : a.amount? total fixprice = some c) : c.name = name := by
  obtain ⟨n, -, rfl⟩ := Option.map_eq_some_iff.mp hc
  cases a with
  | leading outer written inner numeral =>
    obtain rfl : written = .quoted (inQuotes name) := h
    exact WrittenName.name_quoted hname
  | trailing negated numeral written =>
    obtain rfl : written = some (.quoted (inQuotes name)) := h
    exact WrittenName.name_quoted hname

theorem AmountPhrase.Quotes.exists_amount {name : String} {a : AmountPhrase} (h : a.Quotes name)
    (hname : IsQuotable name) (hread : a.number?.isSome) (total fixprice : Bool) :
    ∃ c, a.amount? total fixprice = some c ∧ c.name = name := by
  have hsome : (a.amount? total fixprice).isSome = true := by
    rwa [amount?, Option.isSome_map]
  obtain ⟨c, hc⟩ := Option.isSome_iff_exists.mp hsome
  exact ⟨c, hc, h.name_of_amount? hname hc⟩

/-- The text is an account of a posting, which may have a mark before it, and an amount with
annotations, those of the phrase, and with any spaces between their tokens. -/
structure Line.WritesPosting (cs : List Char) (year : Int) (x : TailPhrase) : Prop where
  parts : ∃ clearing written behind, Splits cs clearing written behind ∧ written ≠ [] ∧
    trim (readAccount written).2 ≠ [] ∧ Token.ofChars behind = .ok x.tokens
  fits : x.Fits
  dated : ∀ raw ∈ x.meaning.lotDate, ∃ d, readDate raw.toList year = .ok d

theorem Line.WritesPosting.isReadable {cs : List Char} {year : Int} {x : TailPhrase}
    (h : WritesPosting cs year x) : x.IsReadable := by
  obtain ⟨⟨_, _, _, -, -, -, hcut⟩, hfits, -⟩ := h
  exact (x.fits_iff (Token.numerals_of_ofChars hcut)).mp hfits

theorem Line.WritesPosting.readPosting {cs : List Char} {year : Int} {x : TailPhrase}
    (h : WritesPosting cs year x) : ∃ p, Line.readPosting cs year = .ok p ∧ p.Says x.meaning := by
  have hreadable := h.isReadable
  obtain ⟨⟨clearing, written, behind, hsplits, hwritten, hname, hcut⟩, hfits, hdated⟩ := h
  have htail := Amount.readTail_phrase hcut hreadable
  obtain ⟨lotDate, hdate⟩ : ∃ lotDate, readLotDate x.meaning.lotDate year = .ok lotDate := by
    cases hraw : x.meaning.lotDate with
    | none => exact ⟨none, rfl⟩
    | some raw =>
      obtain ⟨d, hd⟩ := hdated raw hraw
      exact ⟨some d, by rw [readLotDate, hd]; rfl⟩
  refine ⟨_, readPosting_eq_ok_iff.mpr ⟨clearing, written, behind, _, _, _, lotDate, hsplits,
    hwritten, rfl, hname, htail, hdate, rfl⟩, ?_⟩
  rw [postingOf]
  cases x.meaning.comment <;> exact ⟨rfl, rfl, rfl, rfl⟩

/-- An account with the tokens of a phrase behind it, a space before each, is such a text. -/
theorem Line.writesPosting_spaced {account : List Char} {x : TailPhrase} {year : Int}
    (haccount : IsAccountName account) (hunmarked : Unmarked account) (hmark : ¬IsMark account)
    (hname : trim (readAccount account).2 ≠ []) (hstands : ∀ t ∈ x.tokens, t.Stands)
    (hfits : x.Fits) (hdated : ∀ raw ∈ x.meaning.lotDate, ∃ d, readDate raw.toList year = .ok d) :
    WritesPosting (account ++ ' ' :: Token.spaced x.tokens) year x := by
  have hclearing := takeClearing_unmarked hunmarked haccount.ne_nil
    (trimStart_of_trim_eq haccount.trimmed) hmark (' ' :: Token.spaced x.tokens)
  have hcut := haccount.cutAccount (' ' :: Token.spaced x.tokens)
  have hread := Token.ofChars_spaced hstands
  refine ⟨?_, hfits, hdated⟩
  cases htokens : x.tokens with
  | nil =>
    rw [htokens] at hclearing hcut
    have hspace : trim (account ++ [' ']) = account := by
      rw [trim_append_of_blank (List.forall_mem_singleton.mpr rfl), haccount.trimmed]
    refine ⟨none, account, [], ⟨_, _, hclearing, hcut, hspace⟩, haccount.ne_nil, hname, ?_⟩
    rw [Token.ofChars]
  | cons t ts =>
    have hends : Ends (' ' :: Token.spaced (t :: ts)) :=
      .inr ⟨t.chars ++ Token.spaced ts, rfl⟩
    rw [htokens] at hclearing hcut hread
    rw [hends.cutAccount, List.append_nil] at hcut
    refine ⟨none, account, _, ⟨_, _, hclearing, hcut, haccount.trimmed⟩, haccount.ne_nil, hname, ?_⟩
    rw [Token.ofChars_space, hread]

/-- Three of a commodity whose name has a digit, for a dollar each. -/
def bought : TailPhrase where
  amount := some (.trailing false ['3'] (some (.quoted (inQuotes "BTC2"))))
  parts := [.cost false (.leading false (.bare ['$']) false ['1'])]

def boughtText : List Char := "Wallet".toList ++ ' ' :: Token.spaced bought.tokens

theorem Line.writesPosting_bought (year : Int) : WritesPosting boughtText year bought := by
  have hquotable : IsQuotable "BTC2" := by decide
  have hunmarked : Unmarked "Wallet".toList := by
    rintro c d rest heq hmark
    cases heq
    exact absurd rfl hmark
  have hstands : ∀ t ∈ bought.tokens, t.Stands := by
    have htokens : bought.tokens = [.number ['3'], .quoted (inQuotes "BTC2"), .unitCost,
      .symbol ['$'], .number ['1']] := rfl
    simp only [htokens, List.forall_mem_cons, List.not_mem_nil, false_imp_iff, implies_true,
      and_true]
    exact ⟨by decide +kernel, Token.stands_quoted hquotable, by decide +kernel, by decide +kernel,
      by decide +kernel⟩
  have hfits : ∀ a ∈ bought.amounts, a.tenths + 5 < 10 * Decimal.mantissaLimit := by decide +kernel
  exact writesPosting_spaced ⟨⟨by decide, by decide, by decide⟩, by decide, by decide⟩ hunmarked
    (by decide) (by decide) hstands hfits fun raw hraw => absurd hraw nofun

/-! ## Lines of their own -/

def commodityWord : List Char := ['c', 'o', 'm', 'm', 'o', 'd', 'i', 't', 'y']

/-- The word that begins a line that fixes a price. -/
def fixedWord : List Char := ['f', 'i', 'x', 'e', 'd']

def declarationLine (name : String) : List Char := commodityWord ++ ' ' :: inQuotes name

def fixedLine (name : String) (value : List Char) : List Char :=
  fixedWord ++ ' ' :: (inQuotes name ++ ' ' :: value)

/-- What stands behind the letter that announces a price, with or without a time of day. -/
def priceText (date : List Char) (time : Option (List Char)) (name : String)
    (value : List Char) : List Char :=
  ' ' :: (date ++ ' ' :: ((time.map (· ++ [' '])).getD [] ++ (inQuotes name ++ ' ' :: value)))

/-- The word is the time of day; if there is none, it is midnight. -/
inductive WritesTime : Option (List Char) → TimeOfDay → Prop where
  | none : WritesTime none .midnight
  | some {word : List Char} {time : TimeOfDay} (hblank : ∀ c ∈ word, isBlank c = false)
      (hcolon : ':' ∈ word) (hread : DateSpec.readTime (String.ofList word) = .ok time) :
      WritesTime (some word) time

theorem DateSpec.readTime_quoted (name : String) : readTime (String.ofList (inQuotes name)) =
    .error (.invalidTime (String.ofList (inQuotes name))) := by
  have hpieces : ∃ rest more, pieces (· = ':') (inQuotes name) = ('"' :: rest) :: more := by
    obtain ⟨rest, more, htail⟩ :=
      List.exists_cons_of_ne_nil (pieces_ne_nil (· = ':') (name.toList ++ ['"']))
    refine ⟨rest, more, ?_⟩
    rw [inQuotes, pieces, htail]
    rfl
  obtain ⟨rest, more, hpieces⟩ := hpieces
  have hnone : readNat32? ('"' :: rest) = none := rfl
  have hmap : (('"' :: rest) :: more).mapM readNat32? = none := by
    rw [List.mapM_cons, hnone]
    rfl
  simp only [readTime, String.toList_ofList, hpieces, hmap]

namespace Line

variable {name : String} {cs date rest value word behind : List Char} {year : Int} {d : Date}
  {time : TimeOfDay} {c : Commodity}

theorem value_ne_nil (h : readAmount value = .ok c) : value ≠ [] := by
  rintro rfl
  have hempty : Amount.read [] = .error .noAmount := by
    rw [Amount.read, Amount.tokens, Token.ofChars]
    rfl
  rw [readAmount, hempty] at h
  cases h

/-- The name and the value of a price, behind its date and time. -/
def readValue (moment : Moment) (cs : List Char) : Result Price := do
  let (symbol, rest) := firstWord cs
  if symbol = [] then throw (.missingField "commodity")
  let value ← readAmount rest
  return ⟨moment, String.ofList (strip '"' symbol), value⟩

theorem readPrice_of_untimed (hcs : firstWord (trim cs) = (date, rest))
    (hdate : readDate date year = .ok d) (hrest : firstWord rest = (word, behind))
    (hword : ':' ∉ word) : readPrice cs year = readValue ⟨d, .midnight⟩ rest := by
  have hcolon : word.contains ':' = false := by simpa using hword
  simp only [readPrice, hcs, hdate, hrest, hcolon]
  rfl

/-- A price whose next word has a colon is one of the time that the word is. -/
theorem readPrice_of_timed (hcs : firstWord (trim cs) = (date, rest))
    (hdate : readDate date year = .ok d) (hrest : firstWord rest = (word, behind))
    (hword : ':' ∈ word) : readPrice cs year =
      match DateSpec.readTime (String.ofList word) with
      | .ok time => readValue ⟨d, time⟩ behind
      | .error e => .error (.invalidDate e) := by
  have hcolon : word.contains ':' = true := by simpa using hword
  simp only [readPrice, hcs, hdate, hrest, hcolon]
  cases DateSpec.readTime (String.ofList word) <;> rfl

theorem readValue_quoted (h : IsQuotable name) (hvalue : trim value = value)
    (hread : readAmount value = .ok c) (moment : Moment) :
    readValue moment (inQuotes name ++ ' ' :: value) = .ok ⟨moment, name, c⟩ := by
  have hne : inQuotes name ≠ [] := List.cons_ne_nil _ _
  simp only [readValue, h.firstWord_inQuotes hvalue, if_neg hne, hread, h.ofList_strip]
  rfl

theorem firstWord_priceText (hne : date ≠ []) (hblank : ∀ c ∈ date, isBlank c = false)
    {written : Option (List Char)} (htime : WritesTime written time) (hvalue : trim value = value)
    (hvalueNe : value ≠ []) : firstWord (trim (priceText date written name value)) =
      (date, (written.map (· ++ [' '])).getD [] ++ (inQuotes name ++ ' ' :: value)) := by
  have hend : trimEnd value = value := trimEnd_of_trim_eq hvalue
  have hhead : ∀ c ∈ ((written.map (· ++ [' '])).getD [] ++
      (inQuotes name ++ ' ' :: value)).head?, isBlank c = false := by
    intro c hc
    cases htime with
    | none =>
      obtain rfl := Option.some.inj hc
      decide
    | @some word time hplain hcolon _ =>
      obtain ⟨x, xs, rfl⟩ := List.exists_cons_of_ne_nil (List.ne_nil_of_mem hcolon)
      obtain rfl := Option.some.inj hc
      exact hplain x List.mem_cons_self
  have hdate : ∀ cs, ∀ c ∈ (date ++ cs : List Char).head?, isBlank c = false := by
    obtain ⟨x, xs, rfl⟩ := List.exists_cons_of_ne_nil hne
    intro cs c hc
    obtain rfl := Option.some.inj hc
    exact hblank x List.mem_cons_self
  have hback := trimEnd_append_of_ne_nil (hend.symm ▸ hvalueNe)
    (date ++ ' ' :: ((written.map (· ++ [' '])).getD [] ++ (inQuotes name ++ [' '])))
  rw [hend] at hback
  simp only [List.append_assoc, List.cons_append, List.nil_append] at hback
  rw [trim, priceText, trimStart_space, trimStart_eq (hdate _), hback,
    firstWord_append hne hblank hhead]

/-- The name of a price loses its quotes; but without a time of day before it, a name with a colon
is taken for one. -/
theorem readPrice_quoted (h : IsQuotable name) (hne : date ≠ [])
    (hblank : ∀ c ∈ date, isBlank c = false) (hdate : readDate date year = .ok d)
    {written : Option (List Char)} (htime : WritesTime written time) (hvalue : trim value = value)
    (hread : readAmount value = .ok c) :
    readPrice (priceText date written name value) year =
      if written = none ∧ ':' ∈ name.toList then
        .error (.invalidDate (.invalidTime (String.ofList (inQuotes name))))
      else .ok ⟨⟨d, time⟩, name, c⟩ := by
  have hfirst := @firstWord_priceText name _ _ _ hne hblank _ htime hvalue (value_ne_nil hread)
  have hname := h.firstWord_inQuotes hvalue
  cases htime with
  | none =>
    by_cases hcolon : ':' ∈ name.toList
    · have hword : ':' ∈ inQuotes name := by simp [inQuotes, hcolon]
      rw [if_pos ⟨rfl, hcolon⟩, readPrice_of_timed hfirst hdate hname hword,
        DateSpec.readTime_quoted]
    · have hword : ':' ∉ inQuotes name := by simp [inQuotes, hcolon]
      rw [if_neg fun h => hcolon h.2, readPrice_of_untimed hfirst hdate hname hword]
      exact readValue_quoted h hvalue hread _
  | @some word time hplain hcolon htimeRead =>
    have hhead : ∀ c ∈ (inQuotes name ++ ' ' :: value).head?, isBlank c = false := by
      intro c hc
      obtain rfl := Option.some.inj hc
      decide
    have hrest : firstWord (word ++ [' '] ++ (inQuotes name ++ ' ' :: value)) =
        (word, inQuotes name ++ ' ' :: value) := by
      rw [List.append_assoc, List.singleton_append]
      exact firstWord_append (List.ne_nil_of_mem hcolon) hplain hhead
    rw [if_neg nofun, readPrice_of_timed hfirst hdate hrest hcolon, htimeRead]
    exact readValue_quoted h hvalue hread _

end Line

namespace Journal.Reading

variable {r : Reading} {name : String} {date value : List Char} {d : Date} {time : TimeOfDay}
  {c : Commodity}

theorem step_declaration (h : IsQuotable name) (hblock : r.block.isVerbatim = false) (n : Nat) :
    r.step n (declarationLine name) =
      { r.close with block := .commodity (.ofName name) (.line n) } := by
  have hplain : ∀ c ∈ commodityWord, Plain c := plain_of_all (by decide)
  have hcomment : Line.cutComment (commodityWord ++ ' ' :: inQuotes name) =
      (commodityWord ++ ' ' :: inQuotes name, none) :=
    cutComment_word hplain (List.cons_ne_nil _ _) h.trim_inQuotes h.semicolon_notMem
  have hword : firstWord (commodityWord ++ ' ' :: inQuotes name) = (commodityWord, inQuotes name) :=
    firstWord_append (by decide) (fun c hc => (hplain c hc).1)
      fun c hc => (h.plain_inQuotes c (List.mem_of_mem_head? hc)).1
  have hkeyword : String.ofList commodityWord = "commodity" := by decide +kernel
  have hname : Line.required "commodity symbol" (inQuotes name) =
      .ok (String.ofList (inQuotes name)) := rfl
  have hdirective : r.close.directive n (declarationLine name) =
      .ok { r.close with block := .commodity (.ofName name) (.line n) } := by
    simp only [directive, declarationLine, hcomment, hword, hkeyword, h.trim_inQuotes, hname]
    change Except.ok _ = Except.ok _
    rw [String.toList_ofList, h.ofList_strip]
  exact step_directive hblock (by decide) (by decide) hdirective

/-- The fixed price is recorded under the name with its quotes. -/
theorem step_fixed (h : IsQuotable name) (hvalue : trim value = value) (hsemicolon : ';' ∉ value)
    (hread : Line.readAmount value = .ok c) (hblock : r.block.isVerbatim = false) (n : Nat) :
    r.step n (fixedLine name value) =
      r.close.emit (.fixed (String.ofList (inQuotes name)) c) (.line n) := by
  have hplain : ∀ c ∈ fixedWord, Plain c := plain_of_all (by decide)
  have hmem : ';' ∉ inQuotes name ++ ' ' :: value := by
    simp only [List.mem_append, List.mem_cons, not_or]
    exact ⟨h.semicolon_notMem, by decide, hsemicolon⟩
  have htrim := trim_inQuotes_append name hvalue (Line.value_ne_nil hread)
  have hcomment : Line.cutComment (fixedWord ++ ' ' :: (inQuotes name ++ ' ' :: value)) =
      (fixedWord ++ ' ' :: (inQuotes name ++ ' ' :: value), none) :=
    cutComment_word hplain (List.cons_ne_nil _ _) htrim hmem
  have hword : firstWord (fixedWord ++ ' ' :: (inQuotes name ++ ' ' :: value)) =
      (fixedWord, inQuotes name ++ ' ' :: value) :=
    firstWord_append (by decide) (fun c hc => (hplain c hc).1)
      (trimStart_eq_self_iff.mp (trimStart_of_trim_eq htrim))
  have hkeyword : String.ofList fixedWord = "fixed" := by decide +kernel
  have hname : Line.required "commodity" (inQuotes name) =
      .ok (String.ofList (inQuotes name)) := rfl
  have hfixed : Line.readDirective "fixed" (inQuotes name ++ ' ' :: value) =
      .ok (.fixed (String.ofList (inQuotes name)) c) := by
    simp only [Line.readDirective, Line.readFixed, h.firstWord_inQuotes hvalue, hname, hread]
    rfl
  have hdirective : r.close.directive n (fixedLine name value) =
      .ok (r.close.emit (.fixed (String.ofList (inQuotes name)) c) (.line n)) := by
    simp only [directive, fixedLine, hcomment, hword, hkeyword, htrim]
    simp [hfixed]
    rfl
  exact step_directive hblock (by decide) (by decide) hdirective

end Journal.Reading

end Daybook
