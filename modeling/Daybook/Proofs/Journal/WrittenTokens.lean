import Daybook.Journal.Transaction
import Daybook.Proofs.Journal.Lexing
import Daybook.Proofs.Text.Trim

/-!
# Tokens of what is written behind the account

A posting writes its amount and the annotations of it behind its account. If no name in them needs
quotes, the text is cut into the tokens of its parts (`ofChars_writtenTail`).
-/

namespace Daybook

open Daybook.Text

/-! ## Annotations -/

def writtenTokens {α : Type} (value : Option α) (tokens : α → List Token) : List Token :=
  match value with
  | some a => tokens a
  | none => []

namespace Commodity

def lotTokens (c : Commodity) : List Token :=
  if c.total then .openTotal :: (c.tokens ++ [.closeTotal])
  else .openLot :: (c.tokens ++ [.closeLot])

def costTokens (c : Commodity) : List Token :=
  (if c.total then .totalCost else .unitCost) :: c.tokens

def balanceTokens (c : Commodity) : List Token := .equals :: c.tokens

end Commodity

def Date.lotTokens (d : Date) : List Token := [.openDate, .date d.text.toList, .closeDate]

def noteTokens (note : String) : List Token := [.comment (';' :: ' ' :: note.toList)]

namespace Posting

variable {p : Posting}

def amounts (p : Posting) : List Commodity :=
  p.amount.toList ++ p.lotPrice.toList ++ p.costPrice.toList ++ p.balancePrice.toList

def writtenTail (p : Posting) : String :=
  writtenPart "  " (p.amount.map (·.text)) "" ++
    (writtenPart "" (p.lotPrice.map writtenLot) "" ++
      (writtenPart " [" (p.lotDate.map (·.text)) "]" ++
        (writtenPart "" (p.costPrice.map writtenCost) "" ++
          (writtenPart " = " (p.balancePrice.map (·.text)) "" ++
            writtenPart "  ; " p.note ""))))

def annotationTokens (p : Posting) : List Token :=
  writtenTokens p.lotPrice (·.lotTokens) ++
    (writtenTokens p.lotDate (·.lotTokens) ++
      (writtenTokens p.costPrice (·.costTokens) ++
        (writtenTokens p.balancePrice (·.balanceTokens) ++ writtenTokens p.note noteTokens)))

end Posting

/-! ## Cutting -/

namespace Token

variable {rest : List Char}

/-- What may follow an amount outside of braces: nothing or a space. -/
def Spaced (cs : List Char) : Prop := ∀ c ∈ cs.head?, c = ' '

theorem Spaced.seam (h : Spaced rest) : Seam rest := fun c hc => .inl (h c hc)

/-- The text is cut into the tokens, and begins with a space unless it is empty. -/
structure CutInto (cs : List Char) (ts : List Token) : Prop where
  spaced : Spaced cs
  tokens : ofChars cs = .ok ts

/-- A part is cut into the tokens of its value, if that is there, and what follows on its own. -/
theorem CutInto.part {α : Type} {value : Option α} {text : α → String} {tokens : α → List Token}
    {before after : String} {ts : List Token} (hrest : CutInto rest ts)
    (hspace : ∀ a ∈ value, (before.toList ++ (text a).toList).head? = some ' ')
    (h : Spaced rest → ∀ a ∈ value,
      ofChars (before.toList ++ ((text a).toList ++ (after.toList ++ rest))) =
        (ofChars rest).map (tokens a ++ ·)) :
    CutInto ((writtenPart before (value.map text) after).toList ++ rest)
      (writtenTokens value tokens ++ ts) := by
  cases value with
  | none => exact hrest
  | some a =>
    obtain ⟨cs, hcs⟩ := List.head?_eq_some_iff.mp (hspace a rfl)
    have htext : (writtenPart before ((some a).map text) after).toList ++ rest =
        before.toList ++ ((text a).toList ++ (after.toList ++ rest)) := by
      simp [writtenPart]
    refine ⟨?_, ?_⟩
    · rw [htext, ← List.append_assoc, hcs]
      intro c hc
      exact (Option.some.inj hc).symm
    · rw [htext, h hrest.spaced a rfl, hrest.tokens]
      rfl

variable {c : Commodity}

theorem exists_text_eq_cons (h : c.IsBare) (hexact : c.IsExact) :
    ∃ x xs, c.text.toList = x :: xs ∧ x ≠ '{' := by
  obtain ⟨x, xs, hdigits, hx⟩ := c.amount.exists_digits_eq_cons
  have hdigit : x ≠ '{' := by
    rintro rfl
    cases hx
  have hunsigned : ∃ x xs, c.unsignedText = x :: xs ∧ x ≠ '{' := by
    rw [Commodity.unsignedText, hdigits]
    split
    case isTrue hcurrency =>
      obtain ⟨y, ys, hname⟩ := List.exists_cons_of_ne_nil
        (show c.name.toList ≠ [] by simpa using h.2 hcurrency)
      refine ⟨y, _, by rw [hname, List.cons_append], ?_⟩
      rintro rfl
      exact absurd (h.1 '{' (hname ▸ List.mem_cons_self)) (by decide)
    case isFalse =>
      split
      · exact ⟨x, xs, rfl, hdigit⟩
      · exact ⟨x, _, List.cons_append, hdigit⟩
  rw [Commodity.toList_text hexact]
  split
  · exact ⟨'-', _, rfl, by decide⟩
  · exact hunsigned

theorem take_openLot {cs : List Char} (h : ∀ c ∈ cs.head?, c ≠ '{') :
    take '{' cs = .ok (openLot, cs) := by
  cases cs with
  | nil => rfl
  | cons c cs =>
    have hc := h c rfl
    unfold take
    rw [if_neg (by decide), if_neg (by decide), if_neg (by decide), if_neg (by decide)]
    split <;> simp_all

theorem take_closeLot (h : Spaced rest) : take '}' rest = .ok (closeLot, rest) := by
  cases rest with
  | nil => rfl
  | cons c cs =>
    obtain rfl := h c rfl
    rfl

theorem ofChars_writtenLot (h : c.IsBare) (hexact : c.IsExact) (hrest : Spaced rest) :
    ofChars ((Posting.writtenLot c).toList ++ rest) = (ofChars rest).map (c.lotTokens ++ ·) := by
  rw [Posting.writtenLot, Commodity.lotTokens]
  split
  case isTrue =>
    have hopen : ∀ cs, take '{' ('{' :: cs) = .ok (openTotal, cs) := fun _ => rfl
    have hclose : take '}' ('}' :: rest) = .ok (closeTotal, rest) := rfl
    simp only [String.toList_append, String.reduceToList, List.append_assoc, List.cons_append,
      List.nil_append]
    rw [ofChars_space, ofChars_of_take (by decide) (hopen _),
      Commodity.ofChars_text h hexact (Seam.brace _), ofChars_of_take (by decide) hclose]
    cases ofChars rest <;> simp [Except.map]
  case isFalse =>
    obtain ⟨x, xs, htext, hx⟩ := exists_text_eq_cons h hexact
    have hopen : take '{' (c.text.toList ++ '}' :: rest) =
        .ok (openLot, c.text.toList ++ '}' :: rest) := by
      refine take_openLot fun y hy => ?_
      rw [htext] at hy
      exact Option.some.inj hy ▸ hx
    simp only [String.toList_append, String.reduceToList, List.append_assoc, List.cons_append,
      List.nil_append]
    rw [ofChars_space, ofChars_of_take (by decide) hopen,
      Commodity.ofChars_text h hexact (Seam.brace _),
      ofChars_of_take (by decide) (take_closeLot hrest)]
    cases ofChars rest <;> simp [Except.map]

theorem ofChars_writtenCost (h : c.IsBare) (hexact : c.IsExact) (hrest : Spaced rest) :
    ofChars ((Posting.writtenCost c).toList ++ rest) = (ofChars rest).map (c.costTokens ++ ·) := by
  have htotal : ∀ cs, take '@' ('@' :: ' ' :: cs) = .ok (totalCost, ' ' :: cs) := fun _ => rfl
  have hunit : ∀ cs, take '@' (' ' :: cs) = .ok (unitCost, ' ' :: cs) := fun _ => rfl
  rw [Posting.writtenCost, Commodity.costTokens]
  split
  case isTrue =>
    simp only [String.toList_append, String.reduceToList, List.cons_append, List.nil_append]
    rw [ofChars_space, ofChars_of_take (by decide) (htotal _), ofChars_space,
      Commodity.ofChars_text h hexact hrest.seam]
    cases ofChars rest <;> simp [Except.map]
  case isFalse =>
    simp only [String.toList_append, String.reduceToList, List.cons_append, List.nil_append]
    rw [ofChars_space, ofChars_of_take (by decide) (hunit _), ofChars_space,
      Commodity.ofChars_text h hexact hrest.seam]
    cases ofChars rest <;> simp [Except.map]

theorem ofChars_writtenBalance (h : c.IsBare) (hexact : c.IsExact) (hrest : Spaced rest) :
    ofChars (" = ".toList ++ (c.text.toList ++ rest)) =
      (ofChars rest).map (c.balanceTokens ++ ·) := by
  have hequals : ∀ cs, take '=' cs = .ok (equals, cs) := fun _ => rfl
  have hmark : " = ".toList = [' ', '=', ' '] := rfl
  rw [hmark, List.cons_append, List.cons_append, List.cons_append, List.nil_append,
    ofChars_space, ofChars_of_take (by decide) (hequals _), ofChars_space,
    Commodity.ofChars_text h hexact hrest.seam, Commodity.balanceTokens]
  cases ofChars rest <;> simp [Except.map]

theorem ofChars_writtenNote {note : String} (h : '\n' ∉ note.toList) :
    ofChars ("  ; ".toList ++ note.toList) = .ok (noteTokens note) := by
  have hline : ∀ c ∈ ' ' :: note.toList, decide (c ≠ '\n') = true := by
    intro c hc
    rcases List.mem_cons.mp hc with rfl | hc
    · decide
    · exact decide_eq_true fun heq => h (heq ▸ hc)
  have hsplit : split (· ≠ '\n') (' ' :: note.toList) = (' ' :: note.toList, []) := by
    have hend : split (· ≠ '\n') ((' ' :: note.toList) ++ []) = (' ' :: note.toList, []) :=
      split_append_of hline (by simp)
    rwa [List.append_nil] at hend
  have htake : take ';' (' ' :: note.toList) = .ok (comment (';' :: ' ' :: note.toList), []) := by
    rw [take_semicolon, hsplit]
  have hmark : "  ; ".toList = [' ', ' ', ';', ' '] := rfl
  simp only [hmark, List.cons_append, List.nil_append]
  rw [ofChars_space, ofChars_space, ofChars_of_take (by decide) htake, ofChars]
  rfl

end Token

namespace Posting

variable {p : Posting}

theorem mem_amounts {c : Commodity} : c ∈ p.amounts ↔
    p.amount = some c ∨ p.lotPrice = some c ∨ p.costPrice = some c ∨ p.balancePrice = some c := by
  simp [amounts]

theorem forall_mem_amounts {P : Commodity → Prop} : (∀ c ∈ p.amounts, P c) ↔
    (∀ c ∈ p.amount, P c) ∧ (∀ c ∈ p.lotPrice, P c) ∧ (∀ c ∈ p.costPrice, P c) ∧
      ∀ c ∈ p.balancePrice, P c := by
  simp [amounts, or_imp, forall_and]

theorem writtenTail_eq_append (p : Posting) :
    p.writtenTail = { p with note := none }.writtenTail ++ writtenPart "  ; " p.note "" := by
  simp [writtenTail, writtenPart, String.append_assoc]

theorem not_mem_writtenPart {α : Type} {before after : String} {value : Option α}
    {text : α → String} {x : Char} (hbefore : x ∉ before.toList) (hafter : x ∉ after.toList)
    (htext : ∀ a ∈ value, x ∉ (text a).toList) :
    x ∉ (writtenPart before (value.map text) after).toList := by
  cases value with
  | none => simp [writtenPart]
  | some a => simp [writtenPart, hbefore, hafter, htext a rfl]

theorem not_mem_writtenTail {x : Char} (hexact : ∀ c ∈ p.amounts, c.IsExact)
    (hnames : ∀ c ∈ p.amounts, x ∉ c.name.toList) (hlotDate : ∀ d ∈ p.lotDate, d.HasPlainYear)
    (hdigit : isDigit x = false) (hx : x ∉ " -./\x7b\x7d[]=@".toList) :
    x ∉ { p with note := none }.writtenTail.toList := by
  simp only [String.reduceToList, List.mem_cons, List.not_mem_nil, or_false, not_or] at hx
  obtain ⟨hamount, hlot, hcost, hbalance⟩ := forall_mem_amounts.mp fun c hc =>
    Commodity.not_mem_text (hexact c hc) (hnames c hc) hdigit (by simp [hx])
  simp only [writtenTail, String.toList_append, List.mem_append, not_or]
  refine ⟨not_mem_writtenPart (by simp [hx]) (by simp) hamount,
    not_mem_writtenPart (by simp) (by simp) fun c hc => ?lot,
    not_mem_writtenPart (by simp [hx]) (by simp [hx]) fun d hd => ?date,
    not_mem_writtenPart (by simp) (by simp) fun c hc => ?cost,
    not_mem_writtenPart (by simp [hx]) (by simp) hbalance, by simp [writtenPart]⟩
  case lot =>
    rw [writtenLot]
    split <;> simp [hlot c hc, hx]
  case date =>
    intro hmem
    rcases Date.mem_text (hlotDate d hd) hmem with hmem | hslash
    · rw [hdigit] at hmem
      cases hmem
    · simp [hslash] at hx
  case cost =>
    rw [writtenCost]
    split <;> simp [hcost c hc, hx]

theorem cutInto_writtenNote (hnote : ∀ s ∈ p.note, '\n' ∉ s.toList) :
    Token.CutInto (writtenPart "  ; " p.note "").toList (writtenTokens p.note noteTokens) := by
  cases hvalue : p.note with
  | none =>
    refine ⟨fun _ hc => (by cases hc), ?_⟩
    change Token.ofChars [] = .ok []
    rw [Token.ofChars]
  | some s =>
    have htext : (writtenPart "  ; " (some s) "").toList = "  ; ".toList ++ s.toList := by
      simp [writtenPart]
    rw [htext]
    refine ⟨fun c hc => ?_, Token.ofChars_writtenNote (hnote s hvalue)⟩
    exact (Option.some.inj hc).symm

/-- What a posting writes behind its account is cut into the tokens of its parts. -/
theorem ofChars_writtenTail (hbare : ∀ c ∈ p.amounts, c.IsBare)
    (hexact : ∀ c ∈ p.amounts, c.IsExact) (hdate : ∀ d ∈ p.lotDate, d.HasPlainYear)
    (hnote : ∀ s ∈ p.note, '\n' ∉ s.toList) :
    Token.ofChars p.writtenTail.toList =
      .ok (writtenTokens p.amount (·.tokens) ++ p.annotationTokens) := by
  obtain ⟨hamount, hlot, hcost, hbalance⟩ :=
    forall_mem_amounts.mp fun c hc => And.intro (hbare c hc) (hexact c hc)
  simp only [writtenTail, String.toList_append]
  -- From the last part to the first one, what follows a part is empty or begins with a space.
  refine (Token.CutInto.part (.part (.part (.part (.part (cutInto_writtenNote hnote) ?balance
    ?balances) ?cost ?costs) ?date ?dates) ?lot ?lots) ?amount ?amounts).tokens
  case balance | date | amount => exact fun _ _ => rfl
  case lot =>
    intro c _
    simp only [writtenLot]
    split <;> simp
  case cost =>
    intro c _
    simp only [writtenCost]
    split <;> simp
  case amounts =>
    intro hrest c hc
    have hcut := Commodity.ofChars_text (hamount c hc).1 (hamount c hc).2 hrest.seam
    simpa [Token.ofChars_space] using hcut
  case lots =>
    intro hrest c hc
    simpa using Token.ofChars_writtenLot (hlot c hc).1 (hlot c hc).2 hrest
  case dates =>
    intro _ d hd
    simpa [Token.ofChars_space, Date.lotTokens] using Token.ofChars_date (hdate d hd) _
  case costs =>
    intro hrest c hc
    simpa using Token.ofChars_writtenCost (hcost c hc).1 (hcost c hc).2 hrest
  case balances =>
    intro hrest c hc
    exact Token.ofChars_writtenBalance (hbalance c hc).1 (hbalance c hc).2 hrest

end Posting

end Daybook
