import Daybook.Journal.Amount
import Daybook.Proofs.Decimal.Readable
import Daybook.Proofs.Journal.WrittenTokens

/-!
# Phrases behind the account

The grammar of what follows the account of a posting, as the trees that it derives: an amount, which
may be missing, and annotations in any order and number. What a phrase means can be read off it: the
last annotation of a kind counts. No two phrases have the same tokens (`tokens_injective`).
-/

namespace Daybook

/-- A name, with quotes or without. -/
inductive WrittenName where
  | bare (text : List Char)
  | quoted (text : List Char)

def WrittenName.token : WrittenName → Token
  | bare s => .symbol s
  | quoted s => .quoted s

def WrittenName.name : WrittenName → String
  | bare s => String.ofList s
  | quoted s => String.ofList (Text.strip '"' s)

/-- An amount: a name, a number behind it and a sign before either; or a number, a sign before it
and a name behind it. Signs may be missing, and so may the name behind a number. -/
inductive AmountPhrase where
  | leading (outer : Bool) (name : WrittenName) (inner : Bool) (numeral : List Char)
  | trailing (negated : Bool) (numeral : List Char) (name : Option WrittenName)

def signTokens (negated : Bool) : List Token := if negated then [.minus] else []

namespace AmountPhrase

def tokens : AmountPhrase → List Token
  | leading outer name inner numeral =>
    signTokens outer ++ name.token :: (signTokens inner ++ [.number numeral])
  | trailing negated numeral name =>
    signTokens negated ++ .number numeral :: (name.map (·.token)).toList

/-- The digits, with a point and commas among them. -/
def numeral : AmountPhrase → List Char
  | leading _ _ _ numeral => numeral
  | trailing _ numeral _ => numeral

/-- What the amount is counted in; the empty text if the phrase does not say. -/
def name : AmountPhrase → String
  | leading _ name _ _ => name.name
  | trailing _ _ (some name) => name.name
  | trailing _ _ none => ""

/-- Whether the name stands first. -/
def isLeading : AmountPhrase → Bool
  | leading .. => true
  | trailing .. => false

/-- Whether the number of minus signs is odd. -/
def isNegative (p : AmountPhrase) : Bool := p.tokens.count .minus % 2 = 1

def number? (p : AmountPhrase) : Option Decimal := Decimal.read? (p.numeral.filter (· ≠ ','))

/-- Ten times the number that the digits write, without what is less than a tenth. -/
def tenths (p : AmountPhrase) : Nat :=
  let digits := p.numeral.filter (· ≠ ',')
  10 * Text.digitsValue (digits.takeWhile Text.isDigit) +
    Decimal.firstDigit ((digits.dropWhile Text.isDigit).drop 1)

/-- The number is below `2 ^ 96` when it is rounded to a whole one, and so there is room for it. -/
def Fits (p : AmountPhrase) : Prop := p.tenths + 5 < 10 * Decimal.mantissaLimit

/-- The amount that the phrase denotes, with the marks of a price. -/
def amount? (total fixprice : Bool) (p : AmountPhrase) : Option Commodity :=
  p.number?.map fun n =>
    ⟨p.name, { n with negative := p.isNegative }, p.isLeading, n.scale, fixprice, total⟩

end AmountPhrase

/-- What may follow the amount of a posting. -/
inductive TailPart where
  | lot (total fixprice : Bool) (price : AmountPhrase)
  | lotDate (text : List Char)
  | cost (total : Bool) (price : AmountPhrase)
  | balance (amount : AmountPhrase)
  | comment (text : List Char)

namespace TailPart

def fixTokens (fixprice : Bool) : List Token := if fixprice then [.equals] else []

def tokens : TailPart → List Token
  | lot false fixprice price => .openLot :: (fixTokens fixprice ++ (price.tokens ++ [.closeLot]))
  | lot true fixprice price =>
    .openTotal :: (fixTokens fixprice ++ (price.tokens ++ [.closeTotal]))
  | lotDate text => [.openDate, .date text, .closeDate]
  | cost false price => .unitCost :: price.tokens
  | cost true price => .totalCost :: price.tokens
  | balance amount => .equals :: amount.tokens
  | comment text => [.comment text]

def phrase? : TailPart → Option AmountPhrase
  | lot _ _ price | cost _ price => some price
  | balance amount => some amount
  | lotDate _ | comment _ => none

def lotPrice? : TailPart → Option Commodity
  | lot total fixprice price => price.amount? total fixprice
  | _ => none

def lotDate? : TailPart → Option String
  | lotDate text => some (String.ofList text)
  | _ => none

def costPrice? : TailPart → Option Commodity
  | cost total price => price.amount? total false
  | _ => none

def balancePrice? : TailPart → Option Commodity
  | balance amount => amount.amount? false false
  | _ => none

def comment? : TailPart → Option String
  | comment text => some (Amount.commentText text)
  | _ => none

/-- What the last one of the parts that say anything says. -/
def last? {α : Type} (f : TailPart → Option α) (parts : List TailPart) : Option α :=
  (parts.filterMap f).getLast?

end TailPart

/-- What follows an account. -/
structure TailPhrase where
  amount : Option AmountPhrase
  parts : List TailPart

namespace TailPhrase

def tokens (p : TailPhrase) : List Token :=
  writtenTokens p.amount (·.tokens) ++ p.parts.flatMap (·.tokens)

/-- All amounts of the phrase, also those that a later one replaces. -/
def amounts (p : TailPhrase) : List AmountPhrase :=
  p.amount.toList ++ p.parts.filterMap (·.phrase?)

def IsReadable (p : TailPhrase) : Prop := ∀ a ∈ p.amounts, a.number?.isSome

/-- There is room for the number of every amount. -/
def Fits (p : TailPhrase) : Prop := ∀ a ∈ p.amounts, a.Fits

/-- What the phrase means: of the annotations of a kind the last one counts. -/
def meaning (p : TailPhrase) : PostingTail where
  amount := p.amount.bind (·.amount? false false)
  lotPrice := TailPart.last? (·.lotPrice?) p.parts
  lotDate := TailPart.last? (·.lotDate?) p.parts
  costPrice := TailPart.last? (·.costPrice?) p.parts
  balancePrice := TailPart.last? (·.balancePrice?) p.parts
  comment := TailPart.last? (·.comment?) p.parts

end TailPhrase

/-! ## Where annotations begin -/

namespace Amount

variable {ts : List Token}

def beginsAnnotation : Token → Bool
  | .openLot | .openTotal | .openDate | .unitCost | .totalCost | .equals | .comment _ => true
  | _ => false

/-- The tokens are those of annotations, as far as the first one shows. -/
def Annotates (ts : List Token) : Prop := ∀ t ∈ ts.head?, beginsAnnotation t = true

theorem Annotates.takeSymbol? (h : Annotates ts) : takeSymbol? ts = none := by
  cases ts with
  | nil => rfl
  | cons t ts =>
    have ht := h t rfl
    cases t <;> first | rfl | cases ht

theorem Annotates.take? (h : Annotates ts) : take? ts = .ok (none, ts) := by
  cases ts with
  | nil => rfl
  | cons t ts =>
    have ht := h t rfl
    cases t <;> first | rfl | cases ht

end Amount

/-! ## One phrase only -/

variable {b b' : Bool} {t t' : Token} {ts ts' : List Token}

theorem signTokens_append_inj (ht : t ≠ .minus) (ht' : t' ≠ .minus)
    (h : signTokens b ++ t :: ts = signTokens b' ++ t' :: ts') : b = b' ∧ t = t' ∧ ts = ts' := by
  cases b <;> cases b' <;> simp_all [signTokens, eq_comm]

theorem Token.number_ne_minus (s : List Char) : Token.number s ≠ .minus := nofun

theorem WrittenName.token_injective : Function.Injective token := by
  intro n n' h
  cases n <;> cases n' <;> cases h <;> rfl

theorem WrittenName.token_ne_minus (n : WrittenName) : n.token ≠ .minus := by
  cases n <;> nofun

theorem WrittenName.token_ne_number (n : WrittenName) (s : List Char) : n.token ≠ .number s := by
  cases n <;> nofun

theorem takeSymbol?_token (n : WrittenName) (ts : List Token) :
    Amount.takeSymbol? (n.token :: ts) = some (n.name, ts) := by
  cases n <;> rfl

namespace AmountPhrase

theorem tokens_append_inj {p q : AmountPhrase} (hts : Amount.takeSymbol? ts = none)
    (hts' : Amount.takeSymbol? ts' = none) (h : p.tokens ++ ts = q.tokens ++ ts') :
    p = q ∧ ts = ts' := by
  have hnumber := Token.number_ne_minus
  cases p with
  | leading outer name inner numeral =>
    cases q with
    | leading outer' name' inner' numeral' =>
      simp only [tokens, List.append_assoc, List.cons_append, List.nil_append] at h
      obtain ⟨rfl, hname, hbehind⟩ :=
        signTokens_append_inj name.token_ne_minus name'.token_ne_minus h
      obtain ⟨rfl, hnumeral, hrest⟩ := signTokens_append_inj (hnumber _) (hnumber _) hbehind
      obtain rfl := WrittenName.token_injective hname
      obtain rfl := Token.number.inj hnumeral
      exact ⟨rfl, hrest⟩
    | trailing negated numeral' name' =>
      simp only [tokens, List.append_assoc, List.cons_append] at h
      obtain ⟨-, hname, -⟩ := signTokens_append_inj name.token_ne_minus (hnumber _) h
      exact absurd hname (name.token_ne_number _)
  | trailing negated numeral name =>
    cases q with
    | leading outer name' inner numeral' =>
      simp only [tokens, List.append_assoc, List.cons_append] at h
      obtain ⟨-, hname, -⟩ := signTokens_append_inj (hnumber _) name'.token_ne_minus h
      exact absurd hname.symm (name'.token_ne_number _)
    | trailing negated' numeral' name' =>
      simp only [tokens, List.append_assoc, List.cons_append] at h
      obtain ⟨rfl, hnumeral, hrest⟩ := signTokens_append_inj (hnumber _) (hnumber _) h
      obtain rfl := Token.number.inj hnumeral
      rcases name with _ | n <;> rcases name' with _ | n'
      · exact ⟨rfl, hrest⟩
      · obtain rfl : ts = n'.token :: ts' := hrest
        rw [takeSymbol?_token] at hts
        cases hts
      · obtain rfl : n.token :: ts = ts' := hrest
        rw [takeSymbol?_token] at hts'
        cases hts'
      · obtain ⟨hname, hbehind⟩ := List.cons.inj hrest
        obtain rfl := WrittenName.token_injective hname
        exact ⟨rfl, hbehind⟩

theorem exists_tokens_eq_cons (p : AmountPhrase) :
    ∃ t ts, p.tokens = t :: ts ∧ Amount.beginsAnnotation t = false := by
  rcases p with ⟨_ | _, _ | _, _, _⟩ | ⟨_ | _, _, _⟩ <;> exact ⟨_, _, rfl, rfl⟩

end AmountPhrase

namespace TailPart

variable {p q : TailPart} {a a' : AmountPhrase} {fixed fixed' : Bool} {closing : Token}

theorem takeSymbol?_closing (hclosing : closing ∈ [.closeLot, .closeTotal]) (ts : List Token) :
    Amount.takeSymbol? (closing :: ts) = none := by
  rcases List.mem_pair.mp hclosing with rfl | rfl <;> rfl

theorem fixTokens_append_inj
    (h : fixTokens fixed ++ (a.tokens ++ ts) = fixTokens fixed' ++ (a'.tokens ++ ts')) :
    fixed = fixed' ∧ a.tokens ++ ts = a'.tokens ++ ts' := by
  obtain ⟨t, us, ht, hbegins⟩ := a.exists_tokens_eq_cons
  obtain ⟨t', us', ht', hbegins'⟩ := a'.exists_tokens_eq_cons
  rw [ht, ht'] at h ⊢
  cases fixed <;> cases fixed'
  · exact ⟨rfl, h⟩
  · rw [(List.cons.inj h).1] at hbegins
    cases hbegins
  · rw [← (List.cons.inj h).1] at hbegins'
    cases hbegins'
  · exact ⟨rfl, (List.cons.inj h).2⟩

theorem lotTokens_append_inj (hclosing : closing ∈ [.closeLot, .closeTotal])
    (h : fixTokens fixed ++ (a.tokens ++ [closing]) ++ ts =
      fixTokens fixed' ++ (a'.tokens ++ [closing]) ++ ts') :
    fixed = fixed' ∧ a = a' ∧ ts = ts' := by
  simp only [List.append_assoc, List.singleton_append] at h
  obtain ⟨rfl, hprice⟩ := fixTokens_append_inj h
  obtain ⟨rfl, hrest⟩ := AmountPhrase.tokens_append_inj (takeSymbol?_closing hclosing ts)
    (takeSymbol?_closing hclosing ts') hprice
  exact ⟨rfl, rfl, (List.cons.inj hrest).2⟩

theorem tokens_append_inj (hts : Amount.takeSymbol? ts = none)
    (hts' : Amount.takeSymbol? ts' = none) (h : p.tokens ++ ts = q.tokens ++ ts') :
    p = q ∧ ts = ts' := by
  -- Parts of different kinds begin with different tokens.
  rcases p with ⟨_ | _, fixed, a⟩ | text | ⟨_ | _, a⟩ | a | text <;>
    rcases q with ⟨_ | _, fixed', a'⟩ | text' | ⟨_ | _, a'⟩ | a' | text' <;>
    first | cases (List.cons.inj h).1; done | skip
  all_goals have hbody := (List.cons.inj h).2
  · obtain ⟨rfl, rfl, hrest⟩ := lotTokens_append_inj (by simp) hbody
    exact ⟨rfl, hrest⟩
  · obtain ⟨rfl, rfl, hrest⟩ := lotTokens_append_inj (by simp) hbody
    exact ⟨rfl, hrest⟩
  · obtain ⟨hdate, hclose⟩ := List.cons.inj hbody
    obtain rfl := Token.date.inj hdate
    exact ⟨rfl, (List.cons.inj hclose).2⟩
  · obtain ⟨rfl, hrest⟩ := AmountPhrase.tokens_append_inj hts hts' hbody
    exact ⟨rfl, hrest⟩
  · obtain ⟨rfl, hrest⟩ := AmountPhrase.tokens_append_inj hts hts' hbody
    exact ⟨rfl, hrest⟩
  · obtain ⟨rfl, hrest⟩ := AmountPhrase.tokens_append_inj hts hts' hbody
    exact ⟨rfl, hrest⟩
  · obtain rfl := Token.comment.inj (List.cons.inj h).1
    exact ⟨rfl, hbody⟩

theorem exists_tokens_eq_cons (p : TailPart) :
    ∃ t ts, p.tokens = t :: ts ∧ Amount.beginsAnnotation t = true := by
  rcases p with ⟨_ | _, _, _⟩ | _ | ⟨_ | _, _⟩ | _ | _ <;> exact ⟨_, _, rfl, rfl⟩

theorem annotates_flatMap (parts : List TailPart) :
    Amount.Annotates (parts.flatMap (·.tokens)) := by
  cases parts with
  | nil => nofun
  | cons p parts =>
    obtain ⟨t, ts, htokens, hbegins⟩ := p.exists_tokens_eq_cons
    rw [List.flatMap_cons, htokens]
    intro t' ht'
    exact Option.some.inj ht' ▸ hbegins

theorem flatMap_tokens_injective :
    Function.Injective fun parts : List TailPart => parts.flatMap (·.tokens) := by
  intro parts
  induction parts with
  | nil =>
    intro parts' h
    cases parts' with
    | nil => rfl
    | cons q parts' =>
      obtain ⟨t, ts, htokens, -⟩ := q.exists_tokens_eq_cons
      simp [htokens] at h
  | cons p parts ih =>
    intro parts' h
    cases parts' with
    | nil =>
      obtain ⟨t, ts, htokens, -⟩ := p.exists_tokens_eq_cons
      simp [htokens] at h
    | cons q parts' =>
      obtain ⟨rfl, hrest⟩ := tokens_append_inj (annotates_flatMap parts).takeSymbol?
        (annotates_flatMap parts').takeSymbol? h
      rw [ih hrest]

end TailPart

namespace TailPhrase

theorem ne_amount_of_annotates (h : Amount.Annotates ts) (a : AmountPhrase) (ts' : List Token) :
    ts ≠ a.tokens ++ ts' := by
  obtain ⟨t, us, htokens, hbegins⟩ := a.exists_tokens_eq_cons
  rintro rfl
  rw [h t (by rw [htokens]; rfl)] at hbegins
  cases hbegins

theorem tokens_injective : Function.Injective tokens := by
  rintro ⟨amount, parts⟩ ⟨amount', parts'⟩ h
  have hparts := TailPart.annotates_flatMap parts
  have hparts' := TailPart.annotates_flatMap parts'
  change writtenTokens amount (·.tokens) ++ parts.flatMap (·.tokens) =
    writtenTokens amount' (·.tokens) ++ parts'.flatMap (·.tokens) at h
  rcases amount with _ | a <;> rcases amount' with _ | a'
  · obtain rfl := TailPart.flatMap_tokens_injective h
    rfl
  · exact absurd h (ne_amount_of_annotates hparts a' _)
  · exact absurd h.symm (ne_amount_of_annotates hparts' a _)
  · obtain ⟨rfl, hrest⟩ :=
      AmountPhrase.tokens_append_inj hparts.takeSymbol? hparts'.takeSymbol? h
    obtain rfl := TailPart.flatMap_tokens_injective hrest
    rfl

end TailPhrase

end Daybook
