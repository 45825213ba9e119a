import Mathlib.Data.List.Forall2
import Mathlib.Data.List.Perm.Basic
import Daybook.Calendar.Period
import Daybook.Proofs.Calendar.Naming

/-!
# The clauses of a period

A period is read clause by clause, and each clause takes words off the front (`readClauses_cons`), so
there are no more clauses than words (`readWithin_eq`). A specification never holds a word that
begins a clause, and so it ends where the next clause begins. Main statement: clauses are read alike
in any order (`read_clauses`).
-/

namespace Daybook.Period

open Daybook.Text Daybook.Result DateSpec

variable {input raw word : String} {today : Date} {p q : Period} {r : DateRange} {i : Interval}
  {ws rest : List String} {limit n : Nat} {unit : CalendarUnit}

/-! ## One clause after the other -/

def keyword? (word : String) : Option String := if clauseWords.contains word then some word else none

/-- The words of the specification in the clause that begins with the word. -/
def specWords (word : String) (rest : List String) : List String :=
  (if (keyword? word).isSome then rest else word :: rest).takeWhile (!startsClause ·)

/-- Reads the clause that begins with the word; gives the period so far, and the words behind the
clause. -/
def readClause (input : String) (today : Date) (p : Period) (word : String) (rest : List String) :
    Except DateError (Period × List String) :=
  match Interval.ofAdverb? word with
  | some i => .ok ({ p with interval := some i }, rest)
  | none =>
    if word = "every" then
      match readEvery? rest with
      | some (i, rest) => .ok ({ p with interval := some i }, rest)
      | none => .error (.invalidPeriod input)
    else if specWords word rest = [] then .error (.invalidPeriod input)
    else do
      let r ← readRange (" ".intercalate (specWords word rest)) today
      return (bound (keyword? word) r p, rest.dropWhile (!startsClause ·))

theorem readClauses_cons : readClauses input today p (word :: rest) =
    (readClause input today p word rest >>= fun x => readClauses input today x.1 x.2) := by
  rw [readClauses]
  unfold readClause
  cases hadverb : Interval.ofAdverb? word with
  | some i => rfl
  | none =>
    simp only
    by_cases hevery : word = "every"
    · rw [if_pos hevery, if_pos hevery]
      split
      case h_1 heq => rw [heq]; rfl
      case h_2 heq => rw [heq]; rfl
    · rw [if_neg hevery, if_neg hevery]
      by_cases hspec : specWords word rest = []
      · rw [if_pos hspec]
        exact if_pos hspec
      · rw [if_neg hspec]
        refine (if_neg hspec).trans ?_
        split
        case h_1 e herror =>
          change readRange (" ".intercalate (specWords word rest)) today = .error e at herror
          rw [herror]
          rfl
        case h_2 r hr =>
          change readRange (" ".intercalate (specWords word rest)) today = .ok r at hr
          rw [hr]
          rfl

theorem length_le_of_readClause (h : readClause input today p word rest = .ok (q, ws)) :
    ws.length ≤ rest.length := by
  unfold readClause at h
  split at h
  case h_1 =>
    obtain ⟨-, rfl⟩ := Prod.mk.inj (Except.ok.inj h)
    exact Nat.le_refl _
  case h_2 =>
    split at h
    case isTrue =>
      split at h
      case h_1 i rest' heq =>
        obtain ⟨-, rfl⟩ := Prod.mk.inj (Except.ok.inj h)
        exact Nat.le_of_lt (readEvery?_length heq)
      case h_2 => cases h
    case isFalse =>
      split at h
      case isTrue => cases h
      case isFalse =>
        obtain ⟨r, -, hpair⟩ := bind_eq_ok_iff.mp h
        obtain ⟨-, rfl⟩ := Prod.mk.inj (pure_eq_ok_iff.mp hpair)
        exact (List.dropWhile_suffix _).length_le

/-- Reads at most `limit` clauses; gives nothing if words are left then. -/
def readWithin (input : String) (today : Date) :
    (limit : Nat) → Period → List String → Option (Except DateError Period)
  | _, p, [] => some (.ok p)
  | 0, _, _ :: _ => none
  | limit + 1, p, word :: rest =>
    match readClause input today p word rest with
    | .error e => some (.error e)
    | .ok (q, rest) => readWithin input today limit q rest

theorem readWithin_eq (h : ws.length ≤ limit) :
    readWithin input today limit p ws = some (readClauses input today p ws) := by
  induction limit generalizing p ws with
  | zero =>
    obtain rfl := List.length_eq_zero_iff.mp (Nat.le_zero.mp h)
    rw [readWithin, readClauses]
  | succ limit ih =>
    cases ws with
    | nil => rw [readWithin, readClauses]
    | cons word rest =>
      rw [readWithin, readClauses_cons]
      cases hread : readClause input today p word rest with
      | error e => rfl
      | ok x =>
        obtain ⟨q, ws⟩ := x
        have hlength := length_le_of_readClause hread
        simp only [List.length_cons] at h
        exact ih (by omega)

/-! ## The words that begin a clause -/

def adverbs : List String :=
  ["daily", "weekly", "biweekly", "monthly", "bimonthly", "quarterly", "yearly", "annually"]

theorem mem_adverbs (h : Interval.ofAdverb? word = some i) : word ∈ adverbs := by
  unfold Interval.ofAdverb? at h
  split at h
  case h_9 => cases h
  all_goals decide

theorem startsClause_iff : startsClause word = true ↔ word ∈ clauseWords ++ adverbs := by
  constructor
  · intro h
    unfold startsClause at h
    rw [Bool.or_eq_true, List.contains_iff_mem] at h
    rcases h with hmem | hadverb
    · exact List.mem_append_left adverbs hmem
    · obtain ⟨i, hi⟩ := Option.isSome_iff_exists.mp hadverb
      exact List.mem_append_right clauseWords (mem_adverbs hi)
  · exact (show ∀ w ∈ clauseWords ++ adverbs, startsClause w = true by decide) word

theorem isPlainWord_of_startsClause (h : startsClause word = true) : IsPlainWord word :=
  (show ∀ w ∈ clauseWords ++ adverbs, IsPlainWord w by decide) word (startsClause_iff.mp h)

theorem startsClause_of_names (h : Names today ws r) : ∀ w ∈ ws, startsClause w = false := by
  have hnear : ∀ w ∈ nearDays, startsClause w.1 = false := by decide
  have hmodifiers : ∀ w ∈ modifiers, startsClause w.1 = false := by decide
  have hmonths : ∀ w ∈ monthNames, startsClause w.1 = false := by decide
  have hnumeric : ∀ w ∈ clauseWords ++ adverbs, ¬IsNumeric w := by decide
  cases h with
  | day hword => simpa using hnear _ hword
  | @unit modifier word n unit d r hmodifier hword =>
    have hunit : startsClause word = false := by
      rcases CalendarUnit.ofWord?_eq_some_iff.mp hword with rfl | rfl <;> cases unit <;> decide
    simpa using ⟨hmodifiers _ hmodifier, hunit⟩
  | month hword => simpa using hmonths _ (mem_of_lookup hword)
  | @numeric word r hr =>
    rw [List.forall_mem_singleton, Bool.eq_false_iff]
    intro hstarts
    exact hnumeric word (startsClause_iff.mp hstarts) (isNumeric_of_readNumeric hr)

/-! ## Clauses as they are written -/

/-- What a clause says. -/
inductive Clause where
  | interval (i : Interval)
  | start (d : Date)
  | stop (d : Date)
  | within (r : DateRange)
  deriving DecidableEq

/-- The period with what the clause says. -/
def Clause.apply : Clause → Period → Period
  | interval i, p => { p with interval := some i }
  | start d, p => { p with start := some d }
  | stop d, p => { p with stop := some d }
  | within r, p => { p with start := some r.start, stop := some r.stop }

/-- Whether the texts, one behind the other and set apart by blanks, write the clause: an adverb, or
`every` and a unit with or without a count between them, or a word that announces a bound and a
specification. Each word may have any letter case, and the count zeros before it. -/
inductive Clause.Writes (today : Date) : Clause → List String → Prop
  | adverb {word : String} {i : Interval} (hword : Interval.ofAdverb? (toLower word) = some i) :
      Writes today (.interval i) [word]
  | every {every word : String} {unit : CalendarUnit} (hevery : toLower every = "every")
      (hword : toLower word = unit.name ∨ toLower word = unit.name ++ "s") :
      Writes today (.interval ⟨unit, 1⟩) [every, word]
  | counted {every word : String} {unit : CalendarUnit} {count : Nat} (width : Nat)
      (hevery : toLower every = "every") (hlow : 1 ≤ count) (hhigh : count < 2 ^ 32)
      (hword : toLower word = unit.name ∨ toLower word = unit.name ++ "s") :
      Writes today (.interval ⟨unit, count⟩) [every, zeroPadded width count, word]
  | start {keyword spec : String} {r : DateRange} (hkeyword : toLower keyword ∈ ["from", "since"])
      (hspec : readRange spec today = .ok r) : Writes today (.start r.start) [keyword, spec]
  | stop {keyword spec : String} {r : DateRange}
      (hkeyword : toLower keyword ∈ ["to", "until", "till"])
      (hspec : readRange spec today = .ok r) : Writes today (.stop r.start) [keyword, spec]
  | within {keyword spec : String} {r : DateRange} (hkeyword : toLower keyword = "in")
      (hspec : readRange spec today = .ok r) : Writes today (.within r) [keyword, spec]

/-- The words of texts that are set apart, in lower case. -/
def wordsOf (texts : List String) : List String := texts.flatMap fun s => lowerWords s.toList

/-- Whether the characters are the texts, one behind the other, with blanks between any two of them
and with or without blanks at the ends. -/
def SetApart : List String → List Char → Prop
  | [], cs => ∀ c ∈ cs, isBlank c = true
  | s :: texts, cs => ∃ before after, cs = before ++ s.toList ++ after ∧
      (∀ c ∈ before, isBlank c = true) ∧ (texts ≠ [] → ∃ c ∈ after.head?, isBlank c = true) ∧
      SetApart texts after

theorem lowerWords_setApart {texts : List String} {cs : List Char} (h : SetApart texts cs) :
    lowerWords cs = wordsOf texts := by
  induction texts generalizing cs with
  | nil =>
    have hblank := lowerWords_blank_append h []
    rwa [List.append_nil] at hblank
  | cons s texts ih =>
    obtain ⟨before, after, rfl, hbefore, hapart, hrest⟩ := h
    rw [List.append_assoc, lowerWords_blank_append hbefore]
    show _ = lowerWords s.toList ++ wordsOf texts
    rw [← ih hrest]
    cases texts with
    | nil =>
      have hafter := lowerWords_blank_append hrest []
      rw [List.append_nil] at hafter
      rw [lowerWords_append_blank hrest, hafter]
      exact (List.append_nil _).symm
    | cons t texts =>
      obtain ⟨b, hb, hblank⟩ := hapart (List.cons_ne_nil t texts)
      obtain ⟨rest, rfl⟩ := List.head?_eq_some_iff.mp hb
      have hhead := lowerWords_append_cons hblank [] rest
      rw [lowerWords_append_cons hblank]
      exact congrArg (lowerWords s.toList ++ ·) hhead.symm

theorem SetApart.cons_blank {texts : List String} {b : Char} {cs : List Char}
    (h : SetApart texts cs) (hb : isBlank b = true) : SetApart texts (b :: cs) := by
  cases texts with
  | nil => exact List.forall_mem_cons.mpr ⟨hb, h⟩
  | cons s texts =>
    obtain ⟨before, after, rfl, hbefore, hrest⟩ := h
    exact ⟨b :: before, after, rfl, List.forall_mem_cons.mpr ⟨hb, hbefore⟩, hrest⟩

theorem setApart_intercalate (texts : List String) :
    SetApart texts ([' '].intercalate (texts.map String.toList)) := by
  induction texts with
  | nil => exact nofun
  | cons s texts ih =>
    cases texts with
    | nil => exact ⟨[], [], by simp, nofun, nofun, nofun⟩
    | cons t texts =>
      refine ⟨[], ' ' :: [' '].intercalate ((t :: texts).map String.toList), ?_, nofun,
        fun _ => ⟨' ', rfl, by decide⟩, ih.cons_blank (by decide)⟩
      rw [List.map_cons, List.map_cons, List.intercalate_cons_cons, List.nil_append,
        List.append_assoc]
      rfl

/-! ## Reading a written clause -/

theorem ofAdverb?_of_mem_clauseWords : ∀ w ∈ clauseWords, Interval.ofAdverb? w = none := by
  decide

theorem readEvery?_unit (hword : word = unit.name ∨ word = unit.name ++ "s") (rest : List String) :
    readEvery? (word :: rest) = some (⟨unit, 1⟩, rest) := by
  have hnumber : readNat32? word.toList = none := by
    rcases hword with rfl | rfl <;> cases unit <;> decide
  simp only [readEvery?, hnumber]
  rw [CalendarUnit.ofWord?_eq_some_iff.mpr hword]
  rfl

theorem readEvery?_counted {count : String} (hcount : readNat32? count.toList = some n)
    (hn : 1 ≤ n) (hword : word = unit.name ∨ word = unit.name ++ "s") (rest : List String) :
    readEvery? (count :: word :: rest) = some (⟨unit, n⟩, rest) := by
  unfold readEvery?
  simp only [hcount]
  split
  case h_1 heq =>
    obtain rfl := Option.some.inj heq
    omega
  case h_2 heq =>
    obtain rfl := Option.some.inj heq
    rw [CalendarUnit.ofWord?_eq_some_iff.mpr hword]
    rfl
  case h_3 heq => cases heq

theorem readClause_every (h : readEvery? ws = some (i, rest)) :
    readClause input today p "every" ws = .ok ({ p with interval := some i }, rest) := by
  unfold readClause
  rw [ofAdverb?_of_mem_clauseWords "every" (by decide)]
  simp [h]

theorem readClause_bound {spec : String} (hword : word ∈ clauseWords) (hevery : word ≠ "every")
    (hspec : readRange spec today = .ok r) (hrest : ∀ w ∈ rest.head?, startsClause w = true) :
    readClause input today p word (lowerWords spec.toList ++ rest) =
      .ok (bound (some word) r p, rest) := by
  have hnames := readRange_eq_ok_iff.mp hspec
  obtain ⟨hne, hplain⟩ := hnames.isPlainWord
  -- No word of the specification begins a clause, so the words taken are exactly its own.
  have hwithin : ∀ w ∈ lowerWords spec.toList, (!startsClause w) = true := by
    simpa using startsClause_of_names hnames
  have hend : rest.takeWhile (!startsClause ·) = [] ∧ rest.dropWhile (!startsClause ·) = rest := by
    cases rest with
    | nil => exact ⟨rfl, rfl⟩
    | cons w rest =>
      have hw : ¬(!startsClause w) = true := by simp [hrest w rfl]
      exact ⟨List.takeWhile_cons_of_neg hw, List.dropWhile_cons_of_neg hw⟩
  have hkeyword : keyword? word = some word := if_pos (List.contains_iff_mem.mpr hword)
  have hwords : specWords word (lowerWords spec.toList ++ rest) = lowerWords spec.toList := by
    unfold specWords
    rw [hkeyword]
    show List.takeWhile (!startsClause ·) (lowerWords spec.toList ++ rest) = _
    rw [List.takeWhile_append_of_pos hwithin, hend.1, List.append_nil]
  have hread : readRange (" ".intercalate (lowerWords spec.toList)) today = .ok r := by
    rw [readRange_eq_ok_iff, lowerWords_intercalate hplain]
    exact hnames
  unfold readClause
  rw [ofAdverb?_of_mem_clauseWords word hword]
  simp only
  rw [if_neg hevery, hwords, if_neg hne, hread, hkeyword, List.dropWhile_append_of_pos hwithin, hend.2]
  rfl

/-- The words of a text are read as the clause, up to the next one. -/
def Reads (today : Date) (c : Clause) (texts : List String) : Prop :=
  ∃ word ws, wordsOf texts = word :: ws ∧ startsClause word = true ∧
    ∀ input p rest, (∀ w ∈ rest.head?, startsClause w = true) →
      readClause input today p word (ws ++ rest) = .ok (c.apply p, rest)

theorem reads_bound {c : Clause} {keyword spec : String}
    (hkeyword : toLower keyword = word ∧ word ∈ clauseWords ∧ word ≠ "every")
    (hspec : readRange spec today = .ok r) (hbound : ∀ p, bound (some word) r p = c.apply p) :
    Reads today c [keyword, spec] := by
  obtain ⟨hlower, hword, hevery⟩ := hkeyword
  have hstarts : startsClause word = true :=
    startsClause_iff.mpr (List.mem_append_left adverbs hword)
  have hfirst := lowerWords_of_toLower (isPlainWord_of_startsClause hstarts) hlower
  refine ⟨word, lowerWords spec.toList, by simp [wordsOf, hfirst], hstarts,
    fun input p rest hrest => ?_⟩
  rw [readClause_bound hword hevery hspec hrest, hbound]

theorem lowerWords_unit (hword : toLower word = unit.name ∨ toLower word = unit.name ++ "s") :
    lowerWords word.toList = [toLower word] :=
  lowerWords_of_toLower
    (CalendarUnit.isPlainWord_of_ofWord? (CalendarUnit.ofWord?_eq_some_iff.mpr hword)) rfl

theorem Clause.Writes.reads {c : Clause} {texts : List String} (h : c.Writes today texts) :
    Reads today c texts := by
  cases h with
  | @adverb word i hword =>
    have hstarts : startsClause (toLower word) = true :=
      startsClause_iff.mpr (List.mem_append_right clauseWords (mem_adverbs hword))
    have hfirst := lowerWords_of_toLower (isPlainWord_of_startsClause hstarts) rfl
    refine ⟨toLower word, [], by simp [wordsOf, hfirst], hstarts, fun input p rest _ => ?_⟩
    unfold readClause
    rw [hword]
    rfl
  | @every every word unit hevery hword =>
    have hfirst := lowerWords_of_toLower (by decide) hevery
    refine ⟨"every", [toLower word], by simp [wordsOf, hfirst, lowerWords_unit hword], by decide,
      fun input p rest _ => ?_⟩
    exact readClause_every (readEvery?_unit hword rest)
  | @counted every word unit count width hevery hlow hhigh hword =>
    have hfirst := lowerWords_of_toLower (by decide) hevery
    have hdigits := readDigits?_zeroPadded width count
    have hnumber := lowerWords_plain (isPlainWord_of_isNumeric (isNumeric_of_readDigits? hdigits))
    have hcount := readNat32?_of_digits hdigits hhigh
    refine ⟨"every", [zeroPadded width count, toLower word],
      by simp [wordsOf, hfirst, hnumber, lowerWords_unit hword], by decide,
      fun input p rest _ => ?_⟩
    exact readClause_every (readEvery?_counted hcount hlow hword rest)
  | @start keyword spec r hkeyword hspec =>
    simp only [List.mem_cons, List.not_mem_nil, or_false] at hkeyword
    rcases hkeyword with hword | hword
    · exact reads_bound ⟨hword, by decide, by decide⟩ hspec fun _ => rfl
    · exact reads_bound ⟨hword, by decide, by decide⟩ hspec fun _ => rfl
  | @stop keyword spec r hkeyword hspec =>
    simp only [List.mem_cons, List.not_mem_nil, or_false] at hkeyword
    rcases hkeyword with hword | hword | hword
    · exact reads_bound ⟨hword, by decide, by decide⟩ hspec fun _ => rfl
    · exact reads_bound ⟨hword, by decide, by decide⟩ hspec fun _ => rfl
    · exact reads_bound ⟨hword, by decide, by decide⟩ hspec fun _ => rfl
  | @within keyword spec r hkeyword hspec =>
    exact reads_bound ⟨hkeyword, by decide, by decide⟩ hspec fun _ => rfl

theorem wordsOf_append (texts texts' : List String) :
    wordsOf (texts ++ texts') = wordsOf texts ++ wordsOf texts' := List.flatMap_append

/-- Written clauses are read one behind the other. -/
theorem readClauses_writes {cs : List Clause} {textss : List (List String)}
    (h : List.Forall₂ (Clause.Writes today) cs textss) :
    (∀ w ∈ (wordsOf textss.flatten).head?, startsClause w = true) ∧
      ∀ input p, readClauses input today p (wordsOf textss.flatten) =
        .ok (cs.foldl (fun p c => c.apply p) p) := by
  induction h with
  | nil =>
    refine ⟨by simp [wordsOf], fun input p => ?_⟩
    show readClauses input today p [] = .ok p
    rw [readClauses]
  | @cons c texts cs textss hc _ ih =>
    obtain ⟨hhead, hrest⟩ := ih
    obtain ⟨word, ws, hwords, hstarts, hreads⟩ := hc.reads
    have hsplit : wordsOf (texts :: textss).flatten =
        word :: (ws ++ wordsOf textss.flatten) := by
      rw [List.flatten_cons, wordsOf_append, hwords, List.cons_append]
    rw [hsplit]
    -- The rest begins with a clause again, which is where the first specification has to end.
    refine ⟨by simpa using hstarts, fun input p => ?_⟩
    rw [readClauses_cons, hreads input p _ hhead]
    exact hrest input (c.apply p)

/-! ## The order of the clauses -/

/-- The bounds of a period: a first day and a day before which it ends, each of which may be missing,
or the ends of a range. -/
inductive Bounds where
  | between (start stop : Option Date)
  | within (r : DateRange)

namespace Bounds

def start? : Bounds → Option Date
  | between start _ => start
  | within r => some r.start

def stop? : Bounds → Option Date
  | between _ stop => stop
  | within r => some r.stop

def clauses : Bounds → List Clause
  | between start stop => (start.map .start).toList ++ (stop.map .stop).toList
  | within r => [.within r]

end Bounds

def clausesOf (interval : Option Interval) (bounds : Bounds) : List Clause :=
  (interval.map .interval).toList ++ bounds.clauses

variable {interval : Option Interval} {bounds : Bounds} {c c' : Clause} {cs : List Clause}

theorem apply_apply (hc : c ∈ clausesOf interval bounds) (hc' : c' ∈ clausesOf interval bounds)
    (p : Period) : c'.apply (c.apply p) = c.apply (c'.apply p) := by
  cases bounds with
  | between start stop =>
    simp only [clausesOf, Bounds.clauses, List.mem_append, Option.mem_toList,
      Option.map_eq_some_iff] at hc hc'
    rcases hc with ⟨i, hi, rfl⟩ | ⟨d, hd, rfl⟩ | ⟨d, hd, rfl⟩ <;>
      rcases hc' with ⟨i', hi', rfl⟩ | ⟨d', hd', rfl⟩ | ⟨d', hd', rfl⟩ <;>
        simp_all [Clause.apply]
  | within r =>
    simp only [clausesOf, Bounds.clauses, List.mem_append, Option.mem_toList,
      Option.map_eq_some_iff, List.mem_singleton] at hc hc'
    rcases hc with ⟨i, hi, rfl⟩ | rfl <;> rcases hc' with ⟨i', hi', rfl⟩ | rfl <;>
      simp_all [Clause.apply]

theorem foldl_apply (hcs : cs.Perm (clausesOf interval bounds)) :
    cs.foldl (fun p c => c.apply p) always = ⟨interval, bounds.start?, bounds.stop?⟩ := by
  -- As any two of the clauses commute, they may be taken in the order of the list itself.
  have hperm := hcs.symm.foldl_eq' (f := fun p c => c.apply p)
    (fun c hc c' hc' p => apply_apply hc hc' p) always
  rw [← hperm]
  cases interval <;> rcases bounds with ⟨_ | _, _ | _⟩ | _ <;> rfl

theorem read_eq (h : lowerWords input.toList ≠ []) : read input today =
    readClauses (String.ofList (trim input.toList)) today always (lowerWords input.toList) := by
  have hwords : (words (toLower input).toList).map String.ofList = lowerWords input.toList := by
    rw [lowerWords, toLower, String.toList_ofList]
  unfold read
  rw [hwords]
  split
  case h_1 heq => exact absurd heq h
  case h_2 => rfl

/-- A text that writes the clauses is read as the period that they are about, in whatever order they
stand. -/
theorem read_of_writes {textss : List (List String)} {text : String}
    (hcs : cs.Perm (clausesOf interval bounds)) (hne : cs ≠ [])
    (hwrites : List.Forall₂ (Clause.Writes today) cs textss)
    (htext : SetApart textss.flatten text.toList) :
    read text today = .ok ⟨interval, bounds.start?, bounds.stop?⟩ := by
  obtain ⟨-, hread⟩ := readClauses_writes hwrites
  have hwords := lowerWords_setApart htext
  have hnonempty : wordsOf textss.flatten ≠ [] := by
    obtain ⟨c, cs', rfl⟩ := List.exists_cons_of_ne_nil hne
    obtain ⟨texts, textss', hc, -, rfl⟩ := List.forall₂_cons_left_iff.mp hwrites
    obtain ⟨word, ws, hfirst, -⟩ := hc.reads
    rw [List.flatten_cons, wordsOf_append, hfirst]
    exact List.cons_ne_nil _ _
  rw [read_eq (hwords ▸ hnonempty), hwords, hread, foldl_apply hcs]

theorem read_within {spec first last : String} {s t : DateRange}
    (hspec : readRange spec today = .ok r) (hfirst : readRange first today = .ok s)
    (hlast : readRange last today = .ok t) (hstart : s.start = r.start) (hstop : t.start = r.stop) :
    read ("in " ++ spec) today = read ("from " ++ first ++ " to " ++ last) today := by
  have hwithin : read ("in " ++ spec) today = .ok ⟨none, some r.start, some r.stop⟩ := by
    have htext : ("in " ++ spec).toList = [' '].intercalate (["in", spec].map String.toList) := by
      simp [String.toList_append]
    have hclause : Clause.Writes today (.within r) ["in", spec] := .within (by decide) hspec
    have hperm : List.Perm [.within r] (clausesOf none (.within r)) := .refl _
    apply read_of_writes hperm (List.cons_ne_nil _ _) (.cons hclause .nil)
    rw [htext]
    exact setApart_intercalate ["in", spec]
  have hbetween : read ("from " ++ first ++ " to " ++ last) today =
      .ok ⟨none, some r.start, some r.stop⟩ := by
    have htext : ("from " ++ first ++ " to " ++ last).toList =
        [' '].intercalate (["from", first, "to", last].map String.toList) := by
      simp [String.toList_append]
    have hbegin : Clause.Writes today (.start s.start) ["from", first] := .start (by decide) hfirst
    have hend : Clause.Writes today (.stop t.start) ["to", last] := .stop (by decide) hlast
    have hperm : List.Perm [.start s.start, .stop t.start]
        (clausesOf none (.between (some s.start) (some t.start))) := .refl _
    rw [← hstart, ← hstop]
    apply read_of_writes hperm (List.cons_ne_nil _ _) (.cons hbegin (.cons hend .nil))
    rw [htext]
    exact setApart_intercalate ["from", first, "to", last]
  rw [hwithin, hbetween]

/-- The clauses that are present, at least one, are read in any order, with any blanks and in any
letter case, as the period with the interval and the bounds that they name. A range names the same
bounds as its first day and the day behind it, however these are specified. Reading ends: there are
no more clauses than words. -/
theorem read_clauses (today : Date) :
    (∀ interval bounds cs textss text, cs.Perm (clausesOf interval bounds) → cs ≠ [] →
      List.Forall₂ (Clause.Writes today) cs textss → SetApart textss.flatten text.toList →
      read text today = .ok ⟨interval, bounds.start?, bounds.stop?⟩) ∧
      (∀ spec first last r s t, readRange spec today = .ok r → readRange first today = .ok s →
        readRange last today = .ok t → s.start = r.start → t.start = r.stop →
        read ("in " ++ spec) today = read ("from " ++ first ++ " to " ++ last) today) ∧
      ∀ input, lowerWords input.toList ≠ [] →
        readWithin (String.ofList (trim input.toList)) today (lowerWords input.toList).length always
          (lowerWords input.toList) = some (read input today) := by
  refine ⟨fun interval bounds cs textss text => read_of_writes,
    fun spec first last r s t => read_within, fun input hwords => ?_⟩
  rw [readWithin_eq (Nat.le_refl _), read_eq hwords]

/-- An end, an interval and a begin, in mixed letter case; and a month as a range, between a day and
another month. -/
theorem read_clauses_mixed :
    let today : Date := ⟨2024, 5, 20, by decide⟩
    let i : Interval := ⟨.week, 2⟩
    let r : DateRange := ⟨⟨2024, 4, 1, by decide⟩, ⟨2024, 5, 1, by decide⟩⟩
    let s : DateRange := ⟨⟨2024, 4, 1, by decide⟩, ⟨2024, 4, 2, by decide⟩⟩
    let t : DateRange := ⟨⟨2024, 5, 1, by decide⟩, ⟨2024, 6, 1, by decide⟩⟩
    let cs : List Clause := [.stop t.start, .interval i, .start r.start]
    let textss := [["UNTIL", "2024/5"], ["Every", "02", "weeks"], ["since", "last  Month"]]
    let text := "\t UNTIL 2024/5 Every 02 weeks since last  Month"
    (cs.Perm (clausesOf (some i) (.between (some r.start) (some t.start))) ∧ cs ≠ [] ∧
      List.Forall₂ (Clause.Writes today) cs textss ∧ SetApart textss.flatten text.toList ∧
      read text today = .ok ⟨some i, some r.start, some t.start⟩) ∧
      (readRange "april" today = .ok r ∧ readRange "4-1" today = .ok s ∧
        readRange "this month" today = .ok t ∧ s.start = r.start ∧ t.start = r.stop ∧
        read ("in " ++ "april") today =
          read ("from " ++ "4-1" ++ " to " ++ "this month") today) ∧
      lowerWords text.toList ≠ [] ∧
        readWithin (String.ofList (trim text.toList)) today (lowerWords text.toList).length always
          (lowerWords text.toList) = some (read text today) := by
  intro today i r s t cs textss text
  have hcs : cs.Perm (clausesOf (some i) (.between (some r.start) (some t.start))) := by decide
  have hwrites : List.Forall₂ (Clause.Writes today) cs textss := by
    have hstop : readRange "2024/5" today = .ok t := by decide +kernel
    have hstart : readRange "last  Month" today = .ok r := by decide +kernel
    exact .cons (.stop (by decide +kernel) hstop)
      (.cons (.counted 2 (by decide +kernel) (by decide) (by decide) (by decide +kernel))
        (.cons (.start (by decide +kernel) hstart) .nil))
  have htext : SetApart textss.flatten text.toList := by
    have hjoined : text.toList =
        '\t' :: ' ' :: [' '].intercalate (textss.flatten.map String.toList) := by decide +kernel
    rw [hjoined]
    exact ((setApart_intercalate _).cons_blank (by decide)).cons_blank (by decide)
  have hr : readRange "april" today = .ok r := by decide +kernel
  have hs : readRange "4-1" today = .ok s := by decide +kernel
  have ht : readRange "this month" today = .ok t := by decide +kernel
  have hwords : lowerWords text.toList ≠ [] := by decide +kernel
  obtain ⟨hread, hwithin, hends⟩ := read_clauses today
  exact ⟨⟨hcs, by decide, hwrites, htext, hread _ _ cs textss text hcs (by decide) hwrites htext⟩,
    ⟨hr, hs, ht, rfl, rfl, hwithin _ _ _ r s t hr hs ht rfl rfl⟩, hwords, hends text hwords⟩

/-- A count that is too large is taken for the unit. -/
theorem large_count_refused :
    1 ≤ 4294967296 ∧ read "every 4294967296 days" ⟨2024, 6, 15, by decide⟩ =
      .error (.invalidPeriod "every 4294967296 days") := by
  decide +kernel

end Daybook.Period
