import Daybook.Proofs.Journal.ReadPosting

/-!
# Heads of transactions as they are written

The first line of a transaction is read back from what it writes (`readHead_headLine`): dates, mark,
code, payee and note are such as a line can give (`readHead_isRead`), and the line ends each of them
where it ended before.
-/

namespace Daybook

open Daybook.Text Daybook.Result

namespace Transaction

variable {t : Transaction}

/-- The head of the transaction is such as a line can give. -/
structure HeadIsRead (t : Transaction) : Prop where
  payee : trim t.payee.toList = t.payee.toList
  payeeChars : ';' ∉ t.payee.toList ∧ '\n' ∉ t.payee.toList
  code : ∀ s ∈ t.code, trim s.toList = s.toList
  codeChars : ∀ s ∈ t.code, ')' ∉ s.toList ∧ ';' ∉ s.toList ∧ '\n' ∉ s.toList
  uncoded : t.code = none → t.payee.toList.head? ≠ some '('
  unmarked : t.clearing = none → t.code = none →
    Line.Unmarked t.payee.toList ∧ ¬ Line.IsMark t.payee.toList
  note : ∀ s ∈ t.note, Annotations.IsReadNote s

/-- The head of the transaction is written on a line, without tags and metadata, and the years of
its dates have four digits. -/
structure HeadIsPlain (t : Transaction) : Prop where
  date : t.date.HasPlainYear
  effective : ∀ d ∈ t.effective, d.HasPlainYear
  note : ∀ s ∈ t.note, '\n' ∉ s.toList
  tags : t.tags = []
  metadata : t.metadata = .empty

/-- The dates at the start of the first line. -/
def writtenDates (t : Transaction) : List Char :=
  t.date.text.toList ++ match t.effective with
    | some d => '=' :: d.text.toList
    | none => []

def writtenMark (t : Transaction) : List Char :=
  match t.clearing with
  | some state => [' ', state.char]
  | none => []

def writtenCode (t : Transaction) : List Char :=
  match t.code with
  | some s => ' ' :: '(' :: (s.toList ++ [')'])
  | none => []

def writtenNote (t : Transaction) : List Char :=
  match t.note with
  | some s => ' ' :: ' ' :: ';' :: ' ' :: s.toList
  | none => []

/-- What stands behind the dates and the mark. -/
def writtenPayee (t : Transaction) : List Char := t.writtenCode ++ ' ' :: t.payee.toList

def headLine (t : Transaction) : List Char :=
  t.writtenDates ++ (t.writtenMark ++ t.writtenPayee) ++ t.writtenNote

def headOnly (t : Transaction) : Transaction :=
  { t with postings := [], lines := (0, 0), digest := "" }

theorem toList_text (t : Transaction) :
    t.text.toList = t.headLine ++ t.postings.flatMap fun p => '\n' :: p.text.toList := by
  have hjoin : (String.join (t.postings.map ("\n" ++ ·.text))).toList =
      t.postings.flatMap fun p => '\n' :: p.text.toList := by
    rw [String.toList_join, List.flatMap_map]
    simp
  have hdates : t.date.text.toList ++ (writtenPart "=" (t.effective.map (·.text)) "").toList =
      t.writtenDates := by
    rw [writtenDates]
    cases t.effective <;> simp [writtenPart]
  have hmark : (writtenPart " " (t.clearing.map (·.char.toString)) "").toList = t.writtenMark := by
    rw [writtenMark]
    cases t.clearing <;> simp [writtenPart]
  have hcode : (writtenPart " (" t.code ")").toList = t.writtenCode := by
    rw [writtenCode]
    cases t.code <;> simp [writtenPart]
  have hnote : (writtenPart "  ; " t.note "").toList = t.writtenNote := by
    rw [writtenNote]
    cases t.note <;> simp [writtenPart]
  rw [text, headLine, writtenPayee, ← hjoin, ← hdates, ← hmark, ← hcode, ← hnote]
  simp

end Transaction

/-! ## What is read as a head -/

namespace Line

variable {cs rest : List Char} {clearing : Option Clearing} {year : Int} {t : Transaction}

theorem not_isMark_of_takeClearing (h : takeClearing cs = (none, rest)) : ¬ IsMark (trim rest) := by
  intro hmark
  rcases takeClearing_cases cs with hnil | ⟨c, ds, hc, hcons⟩
  · obtain ⟨-, rfl⟩ := Prod.mk.inj (hnil.symm.trans h)
    rcases hmark with hmark | hmark <;> cases hmark
  obtain ⟨m, hm, htrim⟩ : ∃ m, Clearing.ofChar? m ≠ none ∧ trim rest = [m] := by
    rcases hmark with hmark | hmark
    · exact ⟨'*', by decide, hmark⟩
    · exact ⟨'!', by decide, hmark⟩
  rw [hcons, takeClearing_cons hc] at h
  split at h
  case h_1 hnone =>
    obtain ⟨-, rfl⟩ := Prod.mk.inj h
    rw [trim, trimStart_cons hc] at htrim
    have hfront := trimEnd_isPrefix (c :: ds)
    rw [htrim] at hfront
    rw [(List.cons_prefix_cons.mp hfront).1] at hm
    exact hm hnone
  case h_2 state _ =>
    cases ds with
    | nil => cases h
    | cons d ds =>
      cases hd : isBlank d with
      | true => simp [hd] at h
      | false =>
        simp only [hd, Bool.false_eq_true, if_false] at h
        obtain ⟨-, rfl⟩ := Prod.mk.inj h
        have hend : trimEnd ([c, d] ++ ds) = [c, d] ++ trimEnd ds :=
          trimEnd_append_of_trimEnd_eq (trimEnd_concat hd [c]) ds
        rw [trim, trimStart_cons hc] at htrim
        rw [show c :: d :: ds = [c, d] ++ ds from rfl, hend] at htrim
        cases htrim

/-- The transaction that the parts of a first line make up. -/
def headOf (date : Date) (effective : Option Date) (clearing : Option Clearing)
    (code : Option String) (payee : List Char) (note : Option (List Char)) : Transaction :=
  let t := { Transaction.ofPayee date (String.ofList (trim payee)) with effective, clearing, code }
  match note with
  | some text => t.annotate text
  | none => t

theorem readHead_eq {head word rest' : List Char} {note : Option (List Char)}
    (hcomment : cutComment cs = (head, note)) (hword : firstWord head = (word, rest))
    (hclearing : takeClearing rest = (clearing, rest')) :
    readHead cs year = (do
      let (date, effective) ← readDates word year
      let (code, payee) ← takeCode rest'
      return headOf date effective clearing code payee note) := by
  simp only [readHead, hcomment, hword, hclearing]
  congr 1

theorem mem_cutComment {head : List Char} {note : Option (List Char)}
    (h : cutComment cs = (head, note)) : (∀ c ∈ head, c ∈ cs) ∧ ';' ∉ head := by
  unfold cutComment at h
  split at h
  case h_1 before behind hcut =>
    obtain ⟨rfl, -⟩ := Prod.mk.inj h
    obtain ⟨c, -, rfl⟩ := cut?_eq_some hcut
    refine ⟨fun x hx => List.mem_append_left _ ((trimEnd_isPrefix _).subset hx), fun hmem => ?_⟩
    simpa using not_mem_of_cut? hcut ';' ((trimEnd_isPrefix _).subset hmem)
  case h_2 hcut =>
    obtain ⟨rfl, -⟩ := Prod.mk.inj h
    refine ⟨fun x hx => (trimEnd_isPrefix _).subset hx, fun hmem => ?_⟩
    simpa using not_mem_of_cut?_eq_none hcut ';' ((trimEnd_isPrefix _).subset hmem)

theorem firstWord_suffix (cs : List Char) : (firstWord cs).2 <:+ cs :=
  (trimStart_suffix _).trans ((List.dropWhile_suffix _).trans (trimStart_suffix cs))

theorem takeCode_eq_ok {code : Option String} {payee : List Char}
    (h : takeCode cs = .ok (code, payee)) : (∀ c ∈ payee, c ∈ cs) ∧
      (∀ s ∈ code, trim s.toList = s.toList ∧ ')' ∉ s.toList ∧ ∀ c ∈ s.toList, c ∈ cs) ∧
      (code = none → payee = cs ∧ cs.head? ≠ some '(') := by
  unfold takeCode at h
  split at h
  case h_1 inner =>
    split at h
    case h_2 => cases h
    case h_1 before behind hcut =>
      obtain ⟨rfl, rfl⟩ := Prod.mk.inj (Except.ok.inj h)
      have hclosing := not_mem_of_cut? hcut
      obtain ⟨c, -, rfl⟩ := cut?_eq_some hcut
      refine ⟨fun x hx => ?_, fun s hs => ?_, fun hnone => (by cases hnone)⟩
      · have hmem := (trimStart_suffix behind).subset hx
        simp [hmem]
      · obtain rfl := Option.some.inj hs
        rw [String.toList_ofList]
        refine ⟨trim_trim before, fun hmem => ?_, fun x hx => ?_⟩
        · simpa using hclosing ')' ((trim_isInfix before).subset hmem)
        · have hmem := (trim_isInfix before).subset hx
          simp [hmem]
  case h_2 hopening =>
    obtain ⟨rfl, rfl⟩ := Prod.mk.inj (Except.ok.inj h)
    refine ⟨fun x hx => hx, fun s hs => (by cases hs), fun _ => ⟨rfl, fun hhead => ?_⟩⟩
    obtain ⟨inner, rfl⟩ := List.head?_eq_some_iff.mp hhead
    exact hopening inner rfl

/-- The mark, the code and the payee are such as a line can give. -/
theorem headIsRead_of_takeCode {code : Option String} {payee rest' : List Char}
    (hclearing : takeClearing rest = (clearing, rest')) (hcode : takeCode rest' = .ok (code, payee))
    (hsemicolon : ';' ∉ rest') (hline : '\n' ∉ rest') (date : Date) (effective : Option Date) :
    ({ Transaction.ofPayee date (String.ofList (trim payee)) with
      effective, clearing, code } : Transaction).HeadIsRead := by
  obtain ⟨hpayee, hcodes, huncoded⟩ := takeCode_eq_ok hcode
  have hstart : trimStart rest' = rest' := by
    have htrim := trimStart_takeClearing rest
    rwa [hclearing] at htrim
  have htext : (String.ofList (trim payee)).toList = trim payee := String.toList_ofList
  have hchars : ∀ c ∈ trim payee, c ∈ rest' := fun c hc => hpayee c ((trim_isInfix payee).subset hc)
  refine ⟨?payee, ⟨?semicolon, ?line⟩, fun s hs => (hcodes s hs).1, ?codes, ?uncoded, ?unmarked,
    fun s hs => by cases hs⟩
  case payee => exact htext.symm ▸ trim_trim payee
  case semicolon => exact htext.symm ▸ fun hmem => hsemicolon (hchars _ hmem)
  case line => exact htext.symm ▸ fun hmem => hline (hchars _ hmem)
  case codes =>
    intro s hs
    obtain ⟨-, hclosing, hmem⟩ := hcodes s hs
    exact ⟨hclosing, fun hc => hsemicolon (hmem _ hc), fun hc => hline (hmem _ hc)⟩
  case uncoded =>
    intro hnone hopening
    obtain ⟨rfl, hhead⟩ := huncoded hnone
    obtain ⟨more, hmore⟩ := List.head?_eq_some_iff.mp (htext ▸ hopening)
    obtain ⟨behind, hbehind⟩ := trim_prefix_of_trimStart hstart (List.prefix_refl payee)
    rw [hmore] at hbehind
    exact hhead (hbehind ▸ rfl)
  case unmarked =>
    rintro rfl hnone
    obtain ⟨rfl, -⟩ := huncoded hnone
    exact htext.symm ▸ ⟨(unmarked_of_takeClearing hclearing).front
      (trim_prefix_of_trimStart hstart (List.prefix_refl payee)),
      not_isMark_of_takeClearing hclearing⟩

theorem readHead_isRead (hline : '\n' ∉ cs) (h : readHead cs year = .ok t) :
    t.HeadIsRead ∧ t.postings = [] := by
  rcases hcomment : cutComment cs with ⟨head, note⟩
  rcases hword : firstWord head with ⟨word, rest⟩
  rcases hclearing : takeClearing rest with ⟨clearing, rest'⟩
  rw [readHead_eq hcomment hword hclearing] at h
  obtain ⟨⟨date, effective⟩, -, h⟩ := bind_eq_ok_iff.mp h
  obtain ⟨⟨code, payee⟩, hcode, h⟩ := bind_eq_ok_iff.mp h
  obtain rfl := pure_eq_ok_iff.mp h
  obtain ⟨hhead, hsemicolon⟩ := mem_cutComment hcomment
  have hrest' : ∀ c ∈ rest', c ∈ head := by
    intro c hc
    have hsuffix := takeClearing_suffix rest
    have hsuffix' := firstWord_suffix head
    rw [hclearing] at hsuffix
    rw [hword] at hsuffix'
    exact hsuffix'.subset (hsuffix.subset hc)
  have hread := headIsRead_of_takeCode hclearing hcode (fun hmem => hsemicolon (hrest' _ hmem))
    (fun hmem => hline (hhead _ (hrest' _ hmem))) date effective
  cases note with
  | none => exact ⟨hread, rfl⟩
  | some text => exact ⟨{ hread with note := Annotations.add_isReadNote hread.note text }, rfl⟩

end Line

/-! ## Reading a head that has been written -/

namespace Transaction

variable {t : Transaction} {year : Int}

theorem mem_writtenDates (h : t.HeadIsPlain) {c : Char} (hc : c ∈ t.writtenDates) :
    isDigit c = true ∨ c = '/' ∨ c = '=' := by
  rw [writtenDates] at hc
  rcases List.mem_append.mp hc with hc | hc
  · exact (Date.mem_text h.date hc).imp_right .inl
  · cases heffective : t.effective with
    | none =>
      rw [heffective] at hc
      cases hc
    | some d =>
      rw [heffective] at hc
      rcases List.mem_cons.mp hc with rfl | hc
      · exact .inr (.inr rfl)
      · exact (Date.mem_text (h.effective d heffective) hc).imp_right .inl

theorem isBlank_eq_false_of_mem_writtenDates (h : t.HeadIsPlain) {c : Char}
    (hc : c ∈ t.writtenDates) : isBlank c = false := by
  rcases mem_writtenDates h hc with hdigit | rfl | rfl
  · exact isBlank_eq_false_of_isDigit hdigit
  · decide
  · decide

theorem readDates_writtenDates (h : t.HeadIsPlain) :
    Line.readDates t.writtenDates year = .ok (t.date, t.effective) := by
  have hread : ∀ d : Date, d.HasPlainYear → Line.readDate d.text.toList year = .ok d := by
    intro d hd
    rw [Line.readDate, String.ofList_toList, DateSpec.readJournalDate_text hd]
    rfl
  have hequals : ∀ c ∈ t.date.text.toList, decide (c = '=') = false := by
    intro c hc
    rcases Date.mem_text h.date hc with hdigit | rfl
    · refine decide_eq_false ?_
      rintro rfl
      cases hdigit
    · decide
  rw [Line.readDates, writtenDates]
  cases heffective : t.effective with
  | none =>
    rw [List.append_nil, cut?_eq_none hequals, hread t.date h.date]
    rfl
  | some d =>
    rw [cut?_append_cons (by decide), cut?_eq_none hequals]
    simp only [hread t.date h.date, hread d (h.effective d heffective)]
    rfl

theorem exists_writtenPayee_eq (t : Transaction) : ∃ rest, t.writtenPayee = ' ' :: rest := by
  rw [writtenPayee, writtenCode]
  cases t.code <;> exact ⟨_, rfl⟩

theorem trim_writtenPayee (h : t.HeadIsRead) : trim t.writtenPayee =
    match t.code with
    | some s => '(' :: (s.toList ++ ')' :: trimEnd (' ' :: t.payee.toList))
    | none => t.payee.toList := by
  rw [writtenPayee, writtenCode]
  cases t.code with
  | none =>
    rw [List.nil_append, trim, trimStart_space]
    exact h.payee
  | some s =>
    have hend : trimEnd ('(' :: (s.toList ++ [')'])) = '(' :: (s.toList ++ [')']) :=
      trimEnd_concat (by decide) ('(' :: s.toList)
    have htext : (' ' :: '(' :: (s.toList ++ [')'])) ++ ' ' :: t.payee.toList =
        ' ' :: (('(' :: (s.toList ++ [')'])) ++ ' ' :: t.payee.toList) := rfl
    rw [htext, trim, trimStart_space, List.cons_append, trimStart_cons (by decide),
      ← List.cons_append, trimEnd_append_of_trimEnd_eq hend]
    simp

theorem takeClearing_trim_writtenPayee (h : t.HeadIsRead) (hclearing : t.clearing = none) :
    Line.takeClearing (trim t.writtenPayee) = (none, trim t.writtenPayee) := by
  rw [trim_writtenPayee h]
  cases hcode : t.code with
  | some s => exact Line.takeClearing_cons (by decide) _
  | none =>
    obtain ⟨hunmarked, hmark⟩ := h.unmarked hclearing hcode
    by_cases hempty : t.payee.toList = []
    · rw [hempty]
      rfl
    · have hstart := trimStart_of_trim_eq h.payee
      have htake := Line.takeClearing_unmarked hunmarked hempty hstart hmark []
      rwa [List.append_nil] at htake

theorem takeClearing_headLine (h : t.HeadIsRead) :
    Line.takeClearing (trim (t.writtenMark ++ t.writtenPayee)) =
      (t.clearing, trim t.writtenPayee) := by
  rw [writtenMark]
  cases hclearing : t.clearing with
  | none => exact takeClearing_trim_writtenPayee h hclearing
  | some state =>
    obtain ⟨rest, hrest⟩ := t.exists_writtenPayee_eq
    have hblank : isBlank state.char = false := by cases state <;> decide
    have hstate : Clearing.ofChar? state.char = some state := by cases state <;> rfl
    have htrim : trim ([' ', state.char] ++ t.writtenPayee) =
        state.char :: trimEnd t.writtenPayee := by
      have hend : trimEnd [state.char] = [state.char] := trimEnd_concat hblank []
      rw [List.cons_append, trim, trimStart_space, List.singleton_append, trimStart_cons hblank,
        ← List.singleton_append, trimEnd_append_of_trimEnd_eq hend]
      rfl
    rw [htrim, Line.takeClearing_cons hblank, hstate, trim, trimEnd_trimStart]
    cases hbehind : trimEnd t.writtenPayee with
    | nil => rfl
    | cons c cs =>
      have hspace : c = ' ' := by
        have hfront := trimEnd_isPrefix t.writtenPayee
        rw [hbehind, hrest] at hfront
        exact (List.cons_prefix_cons.mp hfront).1
      subst hspace
      rfl

theorem takeCode_trim_writtenPayee (h : t.HeadIsRead) :
    ∃ payee, Line.takeCode (trim t.writtenPayee) = .ok (t.code, payee) ∧
      trim payee = t.payee.toList := by
  rw [trim_writtenPayee h]
  cases hcode : t.code with
  | some s =>
    obtain ⟨hclosing, -, -⟩ := h.codeChars s hcode
    have hnone : cut? (· = ')') s.toList = none :=
      cut?_eq_none fun c hc => decide_eq_false fun heq => hclosing (heq ▸ hc)
    refine ⟨trimStart (trimEnd (' ' :: t.payee.toList)), ?_, ?_⟩
    · simp only [Line.takeCode]
      rw [cut?_append_cons (by decide), hnone]
      simp only [h.code s hcode, String.ofList_toList]
    · rw [← trimEnd_trimStart, trimStart_space, ← trim, h.payee, h.payee]
  | none =>
    refine ⟨t.payee.toList, ?_, h.payee⟩
    have hopening := h.uncoded hcode
    change Line.takeCode t.payee.toList = _
    unfold Line.takeCode
    split
    case h_1 inner heq => exact absurd (heq ▸ rfl) hopening
    case h_2 => rfl

theorem trimEnd_dates (h : t.HeadIsPlain) (cs : List Char) :
    trimEnd (t.writtenDates ++ cs) = t.writtenDates ++ trimEnd cs := by
  refine trimEnd_append_of_trimEnd_eq (trimEnd_eq_self_iff.mpr fun c hc => ?_) cs
  exact isBlank_eq_false_of_mem_writtenDates h (List.mem_of_getLast? hc)

theorem not_mem_head {x : Char} (h : t.HeadIsPlain) (hdigit : isDigit x = false)
    (hx : x ∉ " /=*!()".toList) (hcode : ∀ s ∈ t.code, x ∉ s.toList)
    (hpayee : x ∉ t.payee.toList) : x ∉ t.writtenDates ++ (t.writtenMark ++ t.writtenPayee) := by
  simp only [String.reduceToList, List.mem_cons, List.not_mem_nil, or_false, not_or] at hx
  have hdates : x ∉ t.writtenDates := fun hmem => by
    rcases mem_writtenDates h hmem with hmem | hmem | hmem
    · rw [hdigit] at hmem
      cases hmem
    · simp [hmem] at hx
    · simp [hmem] at hx
  have hmark : x ∉ t.writtenMark := by
    rw [writtenMark]
    cases t.clearing with
    | none => exact List.not_mem_nil
    | some state => cases state <;> simp [Clearing.char, hx]
  have hwritten : x ∉ t.writtenCode := by
    rw [writtenCode]
    cases hvalue : t.code with
    | none => exact List.not_mem_nil
    | some s => simp [hcode s hvalue, hx]
  simp [writtenPayee, hdates, hmark, hwritten, hpayee, hx]

theorem cutComment_headLine (h : t.HeadIsRead) (hplain : t.HeadIsPlain) :
    Line.cutComment t.headLine =
      (t.writtenDates ++ trimEnd (t.writtenMark ++ t.writtenPayee),
        t.note.map fun s => ' ' :: s.toList) := by
  have hsemicolon : ';' ∉ t.writtenDates ++ (t.writtenMark ++ t.writtenPayee) :=
    not_mem_head hplain (by decide) (by decide) (fun s hs => (h.codeChars s hs).2.1) h.payeeChars.1
  have hcut : ∀ cs : List Char, (∀ c ∈ cs, isBlank c = true) →
      cut? (· = ';') (t.writtenDates ++ (t.writtenMark ++ t.writtenPayee) ++ cs) = none ∧
      trimEnd (t.writtenDates ++ (t.writtenMark ++ t.writtenPayee) ++ cs) =
        t.writtenDates ++ trimEnd (t.writtenMark ++ t.writtenPayee) := by
    intro cs hcs
    refine ⟨cut?_eq_none fun c hc => decide_eq_false ?_, ?_⟩
    · rintro rfl
      exact (List.mem_append.mp hc).elim hsemicolon fun hmem => by cases hcs _ hmem
    · rw [trimEnd_append_of_blank hcs, trimEnd_dates hplain]
  rw [headLine, writtenNote, Line.cutComment]
  cases t.note with
  | none =>
    obtain ⟨hnone, htrim⟩ := hcut [] fun c hc => by cases hc
    rw [hnone, htrim]
    rfl
  | some s =>
    have hspace : isBlank ' ' = true := by decide
    obtain ⟨hnone, htrim⟩ := hcut [' ', ' '] (by simp [hspace])
    have htext : ∀ cs : List Char, cs ++ (' ' :: ' ' :: ';' :: ' ' :: s.toList) =
        (cs ++ [' ', ' ']) ++ ';' :: ' ' :: s.toList := by simp
    simp only [htext]
    rw [cut?_append_cons (by decide), hnone]
    simp only [htrim, Option.map_some]

theorem readHead_headLine (h : t.HeadIsRead) (hplain : t.HeadIsPlain) :
    Line.readHead t.headLine year = .ok t.headOnly := by
  have hword : firstWord (t.writtenDates ++ trimEnd (t.writtenMark ++ t.writtenPayee)) =
      (t.writtenDates, trim (t.writtenMark ++ t.writtenPayee)) := by
    have hne : t.writtenDates ≠ [] :=
      List.append_ne_nil_of_left_ne_nil (Date.text_ne_nil hplain.date) _
    have hspace : ∀ c ∈ (trimEnd (t.writtenMark ++ t.writtenPayee)).head?, isBlank c = true := by
      obtain ⟨rest, hrest⟩ : ∃ rest, t.writtenMark ++ t.writtenPayee = ' ' :: rest := by
        obtain ⟨rest, hrest⟩ := t.exists_writtenPayee_eq
        rw [writtenMark, hrest]
        cases t.clearing <;> exact ⟨_, rfl⟩
      intro c hc
      obtain ⟨cs, hcs⟩ := List.head?_eq_some_iff.mp hc
      have hfront := trimEnd_isPrefix (t.writtenMark ++ t.writtenPayee)
      rw [hcs, hrest] at hfront
      obtain rfl := (List.cons_prefix_cons.mp hfront).1
      decide
    rw [firstWord_append_of_blank hne (fun c hc => isBlank_eq_false_of_mem_writtenDates hplain hc)
      hspace, ← trimEnd_trimStart]
    rfl
  obtain ⟨payee, hcode, hpayee⟩ := takeCode_trim_writtenPayee h
  have hhead : Line.headOf t.date t.effective t.clearing t.code payee
      (t.note.map fun s => ' ' :: s.toList) = t.headOnly := by
    have hname : String.ofList (trim payee) = t.payee := by rw [hpayee, String.ofList_toList]
    have hnotes := h.note
    obtain ⟨date, effective, clearing, code, name, note, tags, metadata, _, _, _⟩ := t
    obtain ⟨-, -, hnote, rfl, rfl⟩ := hplain
    cases note with
    | none => simp only [Line.headOf, Transaction.ofPayee, Option.map_none, hname, headOnly]
    | some s =>
      have hs : Annotations.IsNote s.toList := (hnotes s rfl).resolve_left (hnote s rfl)
      have htrim : trim (' ' :: s.toList) = s.toList := by
        rw [trim, trimStart_space]
        exact hs.trimmed
      have hadd := Annotations.add_isNote hs htrim
      simp only [Line.headOf, Transaction.ofPayee, Option.map_some, hname, annotate, hadd,
        headOnly]
  rw [Line.readHead_eq (cutComment_headLine h hplain) hword (takeClearing_headLine h),
    readDates_writtenDates hplain, hcode]
  exact congrArg Except.ok hhead

end Transaction

end Daybook
