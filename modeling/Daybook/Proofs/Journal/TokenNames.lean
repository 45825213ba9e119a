import Daybook.Proofs.Journal.Lexing
import Daybook.Proofs.Result
import Mathlib.Data.List.TakeWhile

/-!
# Names and numbers among the tokens of a text

No quoted name holds a quote or a line feed, and a text without quotes before its first semicolon
gives names that need none (`names_ofChars`). A number is digits, without a sign, with commas anywhere
among them (`isNumeral_of_take`).
-/

namespace Daybook

open Daybook.Text Daybook.Result

/-- The name can stand without quotes. -/
def IsBareName (name : String) : Prop :=
  name ≠ "" ∧ ∀ x ∈ name.toList, Token.isSymbolChar x = true

/-- The name can stand between quotes on a line. -/
def IsPlainName (name : String) : Prop := '"' ∉ name.toList ∧ '\n' ∉ name.toList

theorem IsBareName.isPlainName {name : String} (h : IsBareName name) : IsPlainName name :=
  ⟨fun hmem => absurd (h.2 _ hmem) (by decide), fun hmem => absurd (h.2 _ hmem) (by decide)⟩

namespace Token

variable {c : Char} {cs rest : List Char} {t : Token} {ts : List Token} {name : String}

def name? : Token → Option String
  | symbol s => some (String.ofList s)
  | quoted s => some (String.ofList (strip '"' s))
  | _ => none

/-- All names among the tokens satisfy `P`. -/
def Names (P : String → Prop) (ts : List Token) : Prop := ∀ t ∈ ts, ∀ name ∈ t.name?, P name

theorem strip_quoted {cs : List Char} (h : '"' ∉ cs) : strip '"' ('"' :: (cs ++ ['"'])) = cs := by
  have hkeep : ∀ ds : List Char, '"' ∉ ds → ds.dropWhile (· = '"') = ds := by
    intro ds hds
    cases ds with
    | nil => rfl
    | cons d ds =>
      refine List.dropWhile_cons_of_neg ?_
      simp only [decide_eq_true_eq]
      rintro rfl
      exact hds List.mem_cons_self
  rw [strip, List.dropWhile_cons_of_pos (by decide)]
  cases cs with
  | nil => rfl
  | cons d ds =>
    have hd : d ≠ '"' := fun heq => h (heq ▸ List.mem_cons_self)
    rw [List.cons_append, List.dropWhile_cons_of_neg (by simpa using hd), ← List.cons_append,
      List.reverse_append, List.reverse_singleton, List.singleton_append,
      List.dropWhile_cons_of_pos (by decide), hkeep _ (fun hmem => h (List.mem_reverse.mp hmem)),
      List.reverse_reverse]

/-- The characters of numbers and dates. -/
def isNumeric (c : Char) : Bool := isDigit c || [',', '.', '/', '-'].contains c

theorem isNumeric_of_isDigit (h : isDigit c = true) : isNumeric c = true := by
  simp [isNumeric, h]

theorem isNumeric_of_isDateSeparator (h : isDateSeparator c = true) : isNumeric c = true := by
  simp only [isDateSeparator, Bool.or_eq_true, decide_eq_true_eq] at h
  rcases h with (rfl | rfl) | rfl <;> decide

theorem takeDecimals_cases (cs : List Char) : (takeDecimals cs).1 = [] ∨
    ∃ digits, digits ≠ [] ∧ (∀ c ∈ digits, isDigit c = true) ∧
      (takeDecimals cs).1 = '.' :: digits := by
  unfold takeDecimals
  split
  case h_2 => exact .inl rfl
  case h_1 rest =>
    simp only
    split
    case isTrue => exact .inl rfl
    case isFalse hne => exact .inr ⟨_, hne, fun c hc => List.mem_takeWhile_imp hc, rfl⟩

theorem mem_takeNumber (h : c ∈ (takeNumber cs).1.chars) :
    isDigit c = true ∨ c = ',' ∨ c = '.' := by
  simp only [takeNumber, chars] at h
  rcases List.mem_append.mp h with hwhole | hdecimal
  · have hc := List.mem_takeWhile_imp hwhole
    simp only [Bool.or_eq_true, decide_eq_true_eq] at hc
    exact hc.imp_right .inl
  · rcases takeDecimals_cases (split (fun c => isDigit c || c = ',') cs).2 with
      hnone | ⟨digits, -, hdigits, hsome⟩
    · rw [hnone] at hdecimal
      cases hdecimal
    · rw [hsome] at hdecimal
      exact (List.mem_cons.mp hdecimal).symm.imp (hdigits c) .inr

/-- Three numbers, which may lack the first one, with separators between them. -/
def IsDateText (s : List Char) : Prop :=
  ∃ first s₁ second s₂ third, s = first ++ s₁ :: (second ++ s₂ :: third) ∧
    (∀ c ∈ first, isDigit c = true) ∧ (isDateSeparator s₁ = true ∧ isDateSeparator s₂ = true) ∧
      (second ≠ [] ∧ ∀ c ∈ second, isDigit c = true) ∧ third ≠ [] ∧ ∀ c ∈ third, isDigit c = true

theorem IsDateText.numeric {s : List Char} (h : IsDateText s) : ∀ c ∈ s, isNumeric c = true := by
  obtain ⟨first, s₁, second, s₂, third, rfl, hfirst, ⟨hs₁, hs₂⟩, ⟨-, hsecond⟩, -, hthird⟩ := h
  intro c hc
  simp only [List.mem_append, List.mem_cons] at hc
  rcases hc with hc | rfl | hc | rfl | hc
  · exact isNumeric_of_isDigit (hfirst c hc)
  · exact isNumeric_of_isDateSeparator hs₁
  · exact isNumeric_of_isDigit (hsecond c hc)
  · exact isNumeric_of_isDateSeparator hs₂
  · exact isNumeric_of_isDigit (hthird c hc)

theorem takeDateOrNumber_cases (h : takeDateOrNumber cs = .ok (t, rest)) :
    takeNumber cs = (t, rest) ∨ ∃ s, t = date s ∧ IsDateText s := by
  have hdigits : ∀ cs : List Char, ∀ c ∈ (split isDigit cs).1, isDigit c = true :=
    fun cs c hc => List.mem_takeWhile_imp hc
  have hparts : ∀ {s : Char} {ds : List Char}, ¬ (!isDateSeparator s || ds = []) = true →
      isDateSeparator s = true ∧ ds ≠ [] := by
    intro s ds hs
    simpa using hs
  simp only [takeDateOrNumber] at h
  split at h
  case h_1 => exact .inl (Except.ok.inj h)
  case h_2 s₁ rest₂ _ =>
  split at h
  case isTrue => exact .inl (Except.ok.inj h)
  case isFalse hfirst =>
  split at h
  case h_1 =>
    split at h
    · exact .inl (Except.ok.inj h)
    · cases h
  case h_2 s₂ rest₄ _ =>
  split at h
  case isTrue =>
    split at h
    · exact .inl (Except.ok.inj h)
    · cases h
  case isFalse hsecond =>
    obtain ⟨rfl, rfl⟩ := Prod.mk.inj (Except.ok.inj h)
    obtain ⟨hs₁, hne₁⟩ := hparts hfirst
    obtain ⟨hs₂, hne₂⟩ := hparts hsecond
    exact .inr ⟨_, rfl, _, s₁, _, s₂, _, rfl, hdigits _, ⟨hs₁, hs₂⟩, ⟨hne₁, hdigits _⟩, hne₂,
      hdigits _⟩

theorem numeric_of_takeDateOrNumber (h : takeDateOrNumber cs = .ok (t, rest)) :
    t.name? = none ∧ ∀ c ∈ t.chars, isNumeric c = true := by
  rcases takeDateOrNumber_cases h with hnumber | ⟨s, rfl, hs⟩
  · obtain rfl : (takeNumber cs).1 = t := congrArg Prod.fst hnumber
    refine ⟨rfl, fun c hc => ?_⟩
    rcases mem_takeNumber hc with hdigit | rfl | rfl
    · exact isNumeric_of_isDigit hdigit
    · decide
    · decide
  · exact ⟨rfl, hs.numeric⟩

theorem takeQuoted_eq_ok_iff : takeQuoted cs = .ok (t, rest) ↔
    ∃ name, (∀ c ∈ name, c ≠ '"' ∧ c ≠ '\n') ∧ t = quoted ('"' :: (name ++ ['"'])) ∧
      cs = name ++ '"' :: rest := by
  constructor
  · intro h
    simp only [takeQuoted] at h
    split at h
    case h_2 => cases h
    case h_1 rest' hrest =>
      obtain ⟨rfl, rfl⟩ := Prod.mk.inj (Except.ok.inj h)
      refine ⟨_, fun c hc => by simpa using List.mem_takeWhile_imp hc, rfl, ?_⟩
      rw [← hrest, split_append]
  · rintro ⟨name, hname, rfl, rfl⟩
    have hsplit : split (fun c => c ≠ '"' && c ≠ '\n') (name ++ '"' :: rest) =
        (name, '"' :: rest) := by
      refine split_append_of (fun c hc => by simpa using hname c hc) fun c hc => ?_
      obtain rfl := Option.some.inj hc
      rfl
    simp only [takeQuoted, hsplit, List.cons_append]

theorem isPlainName_of_takeQuoted (h : takeQuoted cs = .ok (t, rest)) (hname : t.name? = some name) :
    IsPlainName name := by
  obtain ⟨cs, hkeep, rfl, -⟩ := takeQuoted_eq_ok_iff.mp h
  have hquote : '"' ∉ cs := fun hmem => (hkeep _ hmem).1 rfl
  rw [name?, strip_quoted hquote] at hname
  obtain rfl := Option.some.inj hname
  rw [IsPlainName, String.toList_ofList]
  exact ⟨hquote, fun hmem => (hkeep _ hmem).2 rfl⟩

/-- The tokens that are always written alike. -/
def signs : List Token :=
  [openTotal, openLot, closeTotal, closeLot, totalCost, unitCost, openDate, closeDate, equals, minus]

/-- What a token can be, by the character that it begins with. -/
theorem take_cases (h : take c cs = .ok (t, rest)) :
    isDigit c = true ∧ takeDateOrNumber (c :: cs) = .ok (t, rest) ∨
      c = '"' ∧ takeQuoted cs = .ok (t, rest) ∨
      c = ';' ∧ t = comment (c :: (split (· ≠ '\n') cs).1) ∨
      isSymbolChar c = true ∧ t = symbol (c :: (split isSymbolChar cs).1) ∨ t ∈ signs := by
  unfold take at h
  split at h
  case isTrue hc => exact .inl ⟨hc, h⟩
  case isFalse =>
  split at h
  case isTrue hc => exact .inr (.inl ⟨hc, h⟩)
  case isFalse =>
  split at h
  case isTrue hc =>
    obtain ⟨rfl, -⟩ := Prod.mk.inj (Except.ok.inj h)
    exact .inr (.inr (.inl ⟨hc, rfl⟩))
  case isFalse =>
  split at h
  case isTrue hc =>
    obtain ⟨rfl, -⟩ := Prod.mk.inj (Except.ok.inj h)
    exact .inr (.inr (.inr (.inl ⟨hc, rfl⟩)))
  case isFalse =>
    refine .inr (.inr (.inr (.inr ?_)))
    split at h
    case h_11 => cases h
    all_goals
      obtain ⟨rfl, -⟩ := Prod.mk.inj (Except.ok.inj h)
      decide

theorem semicolon_of_take (h : take c cs = .ok (t, rest)) (hmem : ';' ∈ t.chars) :
    c = '"' ∨ c = ';' := by
  rcases take_cases h with ⟨-, hnumber⟩ | ⟨hc, -⟩ | ⟨hc, -⟩ | ⟨hc, rfl⟩ | hsign
  · exact absurd ((numeric_of_takeDateOrNumber hnumber).2 _ hmem) (by decide)
  · exact .inl hc
  · exact .inr hc
  · rcases List.mem_cons.mp hmem with rfl | hmem
    · exact absurd hc (by decide)
    · exact absurd (List.mem_takeWhile_imp hmem) (by decide)
  · have hsigns : ∀ t ∈ signs, ';' ∉ t.chars := by decide
    exact absurd hmem (hsigns t hsign)

theorem name_of_take (h : take c cs = .ok (t, rest)) (hname : t.name? = some name) :
    IsBareName name ∨ c = '"' ∧ IsPlainName name := by
  rcases take_cases h with ⟨-, hnumber⟩ | ⟨hc, hquoted⟩ | ⟨-, rfl⟩ | ⟨hc, rfl⟩ | hsign
  · rw [(numeric_of_takeDateOrNumber hnumber).1] at hname
    cases hname
  · exact .inr ⟨hc, isPlainName_of_takeQuoted hquoted hname⟩
  · cases hname
  · obtain rfl := Option.some.inj hname
    refine .inl ⟨by simp, fun x hx => ?_⟩
    rw [String.toList_ofList] at hx
    rcases List.mem_cons.mp hx with rfl | hx
    · exact hc
    · exact List.mem_takeWhile_imp hx
  · have hsigns : ∀ t ∈ signs, t.name? = none := by decide
    rw [hsigns t hsign] at hname
    cases hname

/-- Digits, at least one, with commas anywhere among them, and a point and more digits behind them
or nothing. -/
def IsNumeral (raw : List Char) : Prop :=
  ∃ whole decimals, (∀ c ∈ whole, isDigit c = true) ∧ whole ≠ [] ∧
    (∀ c ∈ decimals, isDigit c = true) ∧
    raw.filter (· ≠ ',') = whole ++ (if decimals = [] then [] else '.' :: decimals)

theorem isNumeral_takeNumber (hc : isDigit c = true) (cs : List Char) :
    IsNumeral (takeNumber (c :: cs)).1.chars := by
  have hcomma : ∀ d, isDigit d = true → decide (d ≠ ',') = true := fun d hd =>
    decide_eq_true fun heq => absurd (heq ▸ hd) (by decide)
  have hfirst : c ∈ (split (fun c => isDigit c || c = ',') (c :: cs)).1 := by
    simp [split, hc]
  have hdigits : ∀ d ∈ (split (fun c => isDigit c || c = ',') (c :: cs)).1.filter (· ≠ ','),
      isDigit d = true := by
    intro d hd
    obtain ⟨hmem, hne⟩ := List.mem_filter.mp hd
    have hor := List.mem_takeWhile_imp hmem
    simp only [Bool.or_eq_true, decide_eq_true_eq] at hor
    exact hor.resolve_right (of_decide_eq_true hne)
  have hne : (split (fun c => isDigit c || c = ',') (c :: cs)).1.filter (· ≠ ',') ≠ [] :=
    List.ne_nil_of_mem (List.mem_filter.mpr ⟨hfirst, hcomma c hc⟩)
  simp only [takeNumber, chars, IsNumeral, List.filter_append]
  rcases takeDecimals_cases (split (fun c => isDigit c || c = ',') (c :: cs)).2 with
    hnone | ⟨digits, hsome, hdecimals, heq⟩
  · exact ⟨_, [], hdigits, hne, by simp, by rw [hnone, List.filter_nil, if_pos rfl]⟩
  · refine ⟨_, digits, hdigits, hne, hdecimals, ?_⟩
    have hfilter : digits.filter (· ≠ ',') = digits :=
      List.filter_eq_self.mpr fun d hd => hcomma d (hdecimals d hd)
    rw [heq, if_neg hsome, List.filter_cons_of_pos (by decide), hfilter]

theorem isNumeral_of_take {raw : List Char} (h : take c cs = .ok (number raw, rest)) :
    IsNumeral raw := by
  rcases take_cases h with ⟨hc, hnumber⟩ | ⟨-, hquoted⟩ | ⟨-, hcomment⟩ | ⟨-, hsymbol⟩ | hsign
  · rcases takeDateOrNumber_cases hnumber with hnumber | ⟨s, hdate, -⟩
    · have hraw : (takeNumber (c :: cs)).1 = number raw := congrArg Prod.fst hnumber
      have hnumeral := isNumeral_takeNumber hc cs
      rw [hraw] at hnumeral
      exact hnumeral
    · cases hdate
  · obtain ⟨name, -, hname, -⟩ := takeQuoted_eq_ok_iff.mp hquoted
    cases hname
  · cases hcomment
  · cases hsymbol
  · simp [signs] at hsign

theorem IsNumeral.minus_notMem {raw : List Char} (h : IsNumeral raw) : '-' ∉ raw := by
  obtain ⟨whole, decimals, hwhole, -, hdecimals, hraw⟩ := h
  intro hmem
  have hfilter : '-' ∈ raw.filter (· ≠ ',') := List.mem_filter.mpr ⟨hmem, by decide⟩
  have hno : isDigit '-' ≠ true := by decide
  rw [hraw] at hfilter
  rcases List.mem_append.mp hfilter with hdigit | hdigit
  · exact hno (hwhole _ hdigit)
  · split at hdigit
    · cases hdigit
    · exact hno (hdecimals _ ((List.mem_cons.mp hdigit).resolve_left (by decide)))

theorem forall_mem_of_ofChars {P : Token → Prop}
    (hP : ∀ {c cs t rest}, take c cs = .ok (t, rest) → P t) (h : ofChars cs = .ok ts) :
    ∀ t ∈ ts, P t := by
  refine ofChars_induction (P := fun _ ts => ∀ t ∈ ts, P t) ?nil ?space ?token h
  case nil => exact fun t ht => absurd ht List.not_mem_nil
  case space => exact fun _ hts => hts
  case token => exact fun _ htake _ hts => List.forall_mem_cons.mpr ⟨hP htake, hts⟩

theorem ofChars_lineFeed (cs : List Char) : ofChars ('\n' :: cs) = .error ['\n'] :=
  ofChars_of_take_eq_error (by decide) rfl

theorem eq_nil_of_take_comment (h : take ';' cs = .ok (t, rest)) (hrest : ofChars rest = .ok ts) :
    rest = [] := by
  rw [take_semicolon] at h
  obtain ⟨-, rfl⟩ := Prod.mk.inj (Except.ok.inj h)
  cases hdrop : (split (· ≠ '\n') cs).2 with
  | nil => rfl
  | cons d ds =>
    have hd : d = '\n' := by
      have hhead := List.head?_dropWhile_not (· ≠ '\n') cs
      rw [show cs.dropWhile (· ≠ '\n') = d :: ds from hdrop] at hhead
      simpa using hhead
    rw [hdrop, hd, ofChars_lineFeed] at hrest
    cases hrest

/-- The names of a text are those that can be quoted, and if no quote stands before the first
semicolon, those that need none. -/
theorem names_ofChars (h : ofChars cs = .ok ts) :
    Names IsPlainName ts ∧ ('"' ∉ cs.takeWhile (· ≠ ';') → Names IsBareName ts) := by
  refine ofChars_induction (P := fun cs ts => Names IsPlainName ts ∧
    ('"' ∉ cs.takeWhile (· ≠ ';') → Names IsBareName ts)) ?nil ?space ?token h
  case nil => exact ⟨fun t ht => absurd ht List.not_mem_nil, fun _ t ht => absurd ht List.not_mem_nil⟩
  case space =>
    rintro c cs ts hc ⟨hplain, hbare⟩
    refine ⟨hplain, fun hquote => hbare fun hmem => hquote ?_⟩
    have hsemicolon : c ≠ ';' := by
      rintro rfl
      cases hc
    rw [List.takeWhile_cons_of_pos (by simpa using hsemicolon)]
    exact List.mem_cons_of_mem c hmem
  case token =>
    rintro c cs t rest ts - htake hrest ⟨hplain, hbare⟩
    have hname : ∀ name ∈ t.name?, IsBareName name ∨ c = '"' ∧ IsPlainName name :=
      fun name hname => name_of_take htake hname
    refine ⟨List.forall_mem_cons.mpr ⟨fun name ht => ?_, hplain⟩, fun hquote => ?_⟩
    · exact (hname name ht).elim IsBareName.isPlainName And.right
    · have hc : c ≠ '"' := by
        rintro rfl
        exact hquote List.mem_cons_self
      refine List.forall_mem_cons.mpr ⟨fun name ht => ?_, hbare ?_⟩
      · exact (hname name ht).resolve_right fun hquoted => hc hquoted.1
      · by_cases hsemicolon : c = ';'
        · subst hsemicolon
          rw [eq_nil_of_take_comment htake hrest]
          exact List.not_mem_nil
        · have hchars : ∀ x ∈ t.chars, decide (x ≠ ';') = true := by
            intro x hx
            refine decide_eq_true fun heq => ?_
            exact (semicolon_of_take htake (heq ▸ hx)).elim hc hsemicolon
          rw [← take_eq_ok htake, List.takeWhile_append_of_pos hchars] at hquote
          exact fun hmem => hquote (List.mem_append_right _ hmem)

end Token

end Daybook
