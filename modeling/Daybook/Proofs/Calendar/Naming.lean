import Daybook.Proofs.Calendar.Unit
import Daybook.Proofs.Result
import Daybook.Proofs.Text.LowerCase
import Daybook.Proofs.Text.Numeral
import Daybook.Calendar.Spec

/-!
# What date specifications name

A specification is read word by word in lower case: a day near today, a unit seen from today, a month
by its name, or numbers (`Names`). Main statement: the range that is read is the one that the words
name (`readRange_eq_ok_iff`), and so blanks and letter case do not matter.
-/

namespace Daybook

open Daybook.Text Daybook.Result

/-- The range is the unit that starts with the given day. -/
def DateRange.IsUnit (unit : CalendarUnit) (start : Date) (r : DateRange) : Prop :=
  r.start = start ∧ unit.shift? start 1 = some r.stop

theorem CalendarUnit.ofWord?_eq_some_iff {unit : CalendarUnit} {word : String} :
    ofWord? word = some unit ↔ word = unit.name ∨ word = unit.name ++ "s" := by
  constructor
  · intro h
    unfold ofWord? at h
    split at h
    case h_11 => cases h
    all_goals
      obtain rfl := Option.some.inj h
      decide
  · rintro (rfl | rfl) <;> cases unit <;> rfl

theorem CalendarUnit.isPlainWord_of_ofWord? {unit : CalendarUnit} {word : String}
    (h : ofWord? word = some unit) : IsPlainWord word := by
  rcases ofWord?_eq_some_iff.mp h with rfl | rfl <;> cases unit <;> decide

namespace DateSpec

def nearDays : List (String × Int) := [("yesterday", -1), ("today", 0), ("tomorrow", 1)]

/-- The words for the units before and after the one of today. -/
def modifiers : List (String × Int) := [("last", -1), ("this", 0), ("next", 1)]

/-- Whether the words name the range, seen from today. -/
inductive Names (today : Date) : List String → DateRange → Prop
  | day {word : String} {n : Int} {d : Date} {r : DateRange} (hword : (word, n) ∈ nearDays)
      (hday : today.addDays? n = some d) (hr : r.IsUnit .day d) : Names today [word] r
  | unit {modifier word : String} {n : Int} {unit : CalendarUnit} {d : Date} {r : DateRange}
      (hmodifier : (modifier, n) ∈ modifiers) (hword : CalendarUnit.ofWord? word = some unit)
      (hstart : unit.shift? (unit.startOf today) n = some d) (hr : r.IsUnit unit d) :
      Names today [modifier, word] r
  | month {word : String} {m : Nat} {d : Date} {r : DateRange}
      (hword : monthNames.lookup word = some m) (hstart : Date.ofYmd? today.year m 1 = some d)
      (hr : r.IsUnit .month d) : Names today [word] r
  | numeric {word : String} {r : DateRange} (hr : readNumeric word today.year = .ok r) :
      Names today [word] r

variable {raw input modifier word : String} {today start d : Date} {unit : CalendarUnit}
  {r : DateRange} {ws : List String} {n year : Int}

/-! ## Steps of the reading -/

theorem ofUnit_eq_ok_iff : DateRange.ofUnit raw unit start = .ok r ↔ r.IsUnit unit start := by
  unfold DateRange.ofUnit DateRange.IsUnit
  obtain ⟨start', stop'⟩ := r
  cases hshift : unit.shift? start 1 with
  | none => simp
  | some stop => simp [eq_comm]

theorem dayOf_eq_ok_iff {m k : Nat} : dayOf raw year m k = .ok d ↔ Date.ofYmd? year m k = some d := by
  unfold dayOf
  cases Date.ofYmd? year m k <;> simp

theorem nearDay_eq_ok_iff :
    nearDay raw today n = .ok r ↔ ∃ d, today.addDays? n = some d ∧ r.IsUnit .day d := by
  unfold nearDay
  cases today.addDays? n with
  | none => simp
  | some d => simp [ofUnit_eq_ok_iff]

/-- How a unit is read behind one of the three words. -/
theorem readRelative_of_mem (hmodifier : (modifier, n) ∈ modifiers)
    (hword : CalendarUnit.ofWord? word = some unit) :
    readRelative raw modifier word today = match unit.shift? (unit.startOf today) n with
      | some start => DateRange.ofUnit raw unit start
      | none => .error (.outOfRange raw) := by
  simp only [modifiers, List.mem_cons, Prod.mk.injEq, List.not_mem_nil, or_false] at hmodifier
  unfold readRelative
  rw [hword]
  rcases hmodifier with ⟨rfl, rfl⟩ | ⟨rfl, rfl⟩ | ⟨rfl, rfl⟩ <;> rfl

theorem readRelative_eq_ok_iff : readRelative raw modifier word today = .ok r ↔
    ∃ n unit d, (modifier, n) ∈ modifiers ∧ CalendarUnit.ofWord? word = some unit ∧
      unit.shift? (unit.startOf today) n = some d ∧ r.IsUnit unit d := by
  constructor
  · intro h
    have hread := h
    unfold readRelative at h
    cases hword : CalendarUnit.ofWord? word with
    | none => simp [hword] at h
    | some unit =>
      have hmodifier : ∃ n, (modifier, n) ∈ modifiers := by
        simp only [hword] at h
        split at h
        case h_1 => exact ⟨-1, by decide⟩
        case h_2 => exact ⟨0, by decide⟩
        case h_3 => exact ⟨1, by decide⟩
        case h_4 => cases h
      obtain ⟨n, hn⟩ := hmodifier
      rw [readRelative_of_mem hn hword] at hread
      cases hshift : unit.shift? (unit.startOf today) n with
      | none => simp [hshift] at hread
      | some d =>
        rw [hshift] at hread
        exact ⟨n, unit, d, hn, rfl, hshift, ofUnit_eq_ok_iff.mp hread⟩
  · rintro ⟨n, unit, d, hmodifier, hword, hstart, hr⟩
    rw [readRelative_of_mem hmodifier hword, hstart]
    exact ofUnit_eq_ok_iff.mpr hr

/-! ## Numbers -/

theorem mem_pieces {p : Char → Bool} {cs : List Char} {c : Char} (hc : c ∈ cs) :
    p c = true ∨ ∃ q ∈ pieces p cs, c ∈ q := by
  induction cs with
  | nil => cases hc
  | cons x cs ih =>
    obtain ⟨q, qs, hq⟩ := List.exists_cons_of_ne_nil (pieces_ne_nil p cs)
    rw [pieces, hq]
    rw [hq] at ih
    rcases List.mem_cons.mp hc with rfl | hc
    · cases hp : p c with
      | true => exact .inl rfl
      | false => exact .inr ⟨c :: q, by simp, by simp⟩
    · rcases ih hc with hp | ⟨q', hq', hmem⟩
      · exact .inl hp
      · right
        cases hp : p x with
        | true => exact ⟨q', List.mem_cons_of_mem _ hq', hmem⟩
        | false =>
          rcases List.mem_cons.mp hq' with rfl | hq'
          · exact ⟨x :: q', by simp, List.mem_cons_of_mem _ hmem⟩
          · exact ⟨q', List.mem_cons_of_mem _ hq', hmem⟩

/-- The characters of which numbers and the separators between them are made. -/
def IsNumeric (word : String) : Prop :=
  word.toList ≠ [] ∧ ∀ c ∈ word.toList, isDigit c = true ∨ isSeparator c = true

instance (word : String) : Decidable (IsNumeric word) :=
  @instDecidableAnd _ _ _ (List.decidableBAll _ _)

theorem isNumeric_of_readNumeric (h : readNumeric word year = .ok r) : IsNumeric word := by
  have hall : ∀ q ∈ pieces isSeparator word.toList, q ≠ [] ∧ q.all isDigit = true := by
    simp only [readNumeric] at h
    split at h
    case isTrue => cases h
    case isFalse hany => simpa using hany
  constructor
  · intro hnil
    rw [hnil] at hall
    exact (hall [] (by simp [pieces])).1 rfl
  · intro c hc
    rcases mem_pieces (p := isSeparator) hc with hseparator | ⟨q, hq, hmem⟩
    · exact .inr hseparator
    · exact .inl (List.all_eq_true.mp (hall q hq).2 c hmem)

theorem isNumeric_of_readDigits? {m : Nat} (h : readDigits? word.toList = some m) :
    IsNumeric word := by
  obtain ⟨hne, hdigits⟩ := digits_of_readDigits? h
  exact ⟨hne, fun c hc => .inl (hdigits c hc)⟩

theorem isPlainWord_of_isNumeric (h : IsNumeric word) : IsPlainWord word := by
  refine ⟨h.1, fun c hc => ?_⟩
  rcases h.2 c hc with hdigit | hseparator
  · have hrange := isDigit_iff.mp hdigit
    have hdigits : ∀ n < 10, Char.ofNat (48 + n) ∈ plainChars := by decide
    have hc := hdigits (c.toNat - 48) (by omega)
    rwa [show 48 + (c.toNat - 48) = c.toNat by omega, Char.ofNat_toNat] at hc
  · simp only [isSeparator, Bool.or_eq_true, decide_eq_true_eq] at hseparator
    rcases hseparator with (rfl | rfl) | rfl <;> decide

theorem not_isNumeric_of_mem : (∀ w ∈ nearDays, ¬IsNumeric w.1) ∧ ∀ w ∈ monthNames, ¬IsNumeric w.1 := by
  decide

/-! ## The whole specification -/

theorem mem_of_lookup {m : Nat} (h : monthNames.lookup word = some m) : (word, m) ∈ monthNames := by
  obtain ⟨before, after, heq, -⟩ := List.lookup_eq_some_iff.mp h
  rw [heq]
  exact List.mem_append_right before List.mem_cons_self

theorem map_words_toLower (input : String) :
    (words (toLower (String.ofList (trim input.toList))).toList).map String.ofList =
      lowerWords input.toList := by
  rw [← lowerWords_trim, lowerWords, toLower, String.toList_ofList, String.toList_ofList]

theorem readRange_relative (h : lowerWords input.toList = [modifier, word]) :
    readRange input today =
      readRelative (String.ofList (trim input.toList)) modifier word today := by
  have htrim : trim input.toList ≠ [] := trim_ne_nil (by simp [h])
  simp only [readRange, map_words_toLower, h, if_neg htrim]

/-- How a single word is read that is not the name of a day. -/
theorem readRange_word (hword : ∀ n, (word, n) ∉ nearDays)
    (h : lowerWords input.toList = [word]) :
    readRange input today = match monthNames.lookup word with
      | some m => dayOf (String.ofList (trim input.toList)) today.year m 1 >>=
          DateRange.ofUnit (String.ofList (trim input.toList)) .month
      | none => readNumeric word today.year := by
  have htrim : trim input.toList ≠ [] := trim_ne_nil (by simp [h])
  simp only [readRange, map_words_toLower, h, if_neg htrim]
  split
  case h_1 heq =>
    obtain rfl : word = "today" := by simpa using heq
    exact absurd (by decide) (hword 0)
  case h_2 heq =>
    obtain rfl : word = "yesterday" := by simpa using heq
    exact absurd (by decide) (hword (-1))
  case h_3 heq =>
    obtain rfl : word = "tomorrow" := by simpa using heq
    exact absurd (by decide) (hword 1)
  case h_4 heq => simp at heq
  case h_5 heq =>
    obtain rfl : word = _ := by simpa using heq
    rfl
  case h_6 hother => exact absurd rfl (hother word)

theorem readRange_numeric (hword : IsNumeric word) (h : lowerWords input.toList = [word]) :
    readRange input today = readNumeric word today.year := by
  obtain ⟨hnear, hmonths⟩ := not_isNumeric_of_mem
  have hmonth : monthNames.lookup word = none := by
    cases hlookup : monthNames.lookup word with
    | none => rfl
    | some m => exact absurd hword (hmonths _ (mem_of_lookup hlookup))
  rw [readRange_word (fun n hn => hnear _ hn hword) h, hmonth]

theorem lookup_of_mem_nearDays : ∀ w ∈ nearDays, monthNames.lookup w.1 = none := by
  decide

theorem names_today (h : r.IsUnit .day today) : Names today ["today"] r := by
  refine .day (n := 0) (by decide) (CalendarUnit.addDays?_eq_some_iff.mpr ?_) h
  omega

theorem readRange_eq_ok_iff :
    readRange input today = .ok r ↔ Names today (lowerWords input.toList) r := by
  constructor
  · intro h
    by_cases htrim : trim input.toList = []
    · simp [readRange, htrim] at h
    simp only [readRange, map_words_toLower, if_neg htrim] at h
    split at h
    case h_1 heq =>
      rw [heq]
      exact names_today (ofUnit_eq_ok_iff.mp h)
    case h_2 heq =>
      obtain ⟨d, hday, hr⟩ := nearDay_eq_ok_iff.mp h
      rw [heq]
      exact .day (by decide) hday hr
    case h_3 heq =>
      obtain ⟨d, hday, hr⟩ := nearDay_eq_ok_iff.mp h
      rw [heq]
      exact .day (by decide) hday hr
    case h_4 heq =>
      obtain ⟨n, unit, d, hmodifier, hword, hstart, hr⟩ := readRelative_eq_ok_iff.mp h
      rw [heq]
      exact .unit hmodifier hword hstart hr
    case h_5 word hother _ _ heq =>
      rw [heq]
      split at h
      case h_1 m hword =>
        obtain ⟨d, hday, hr⟩ := bind_eq_ok_iff.mp h
        exact .month hword (dayOf_eq_ok_iff.mp hday) (ofUnit_eq_ok_iff.mp hr)
      case h_2 => exact .numeric h
    case h_6 => cases h
  · intro h
    generalize hws : lowerWords input.toList = ws at h
    have htrim : trim input.toList ≠ [] := trim_ne_nil (by rw [hws]; cases h <;> simp)
    cases h with
    | @day word n d r hword hday hr =>
      simp only [readRange, map_words_toLower, hws, if_neg htrim]
      simp only [nearDays, List.mem_cons, Prod.mk.injEq, List.not_mem_nil, or_false] at hword
      rcases hword with ⟨rfl, rfl⟩ | ⟨rfl, rfl⟩ | ⟨rfl, rfl⟩
      · exact nearDay_eq_ok_iff.mpr ⟨_, hday, hr⟩
      · obtain rfl : d = today := by
          have hnumber := CalendarUnit.addDays?_eq_some_iff.mp hday
          exact Date.eq_of_dayNumber_eq (by omega)
        exact ofUnit_eq_ok_iff.mpr hr
      · exact nearDay_eq_ok_iff.mpr ⟨_, hday, hr⟩
    | unit hmodifier hword hstart hr =>
      rw [readRange_relative hws]
      exact readRelative_eq_ok_iff.mpr ⟨_, _, _, hmodifier, hword, hstart, hr⟩
    | @month word m d r hword hstart hr =>
      have hnear : ∀ n, (word, n) ∉ nearDays := fun n hn => by
        rw [lookup_of_mem_nearDays _ hn] at hword
        cases hword
      rw [readRange_word hnear hws, hword]
      exact bind_eq_ok_iff.mpr ⟨d, dayOf_eq_ok_iff.mpr hstart, ofUnit_eq_ok_iff.mpr hr⟩
    | numeric hr =>
      rw [readRange_numeric (isNumeric_of_readNumeric hr) hws]
      exact hr

theorem Names.isPlainWord (h : Names today ws r) : ws ≠ [] ∧ ∀ w ∈ ws, IsPlainWord w := by
  have hnear : ∀ w ∈ nearDays, IsPlainWord w.1 := by decide
  have hmodifiers : ∀ w ∈ modifiers, IsPlainWord w.1 := by decide
  have hmonths : ∀ w ∈ monthNames, IsPlainWord w.1 := by decide
  refine ⟨by cases h <;> simp, ?_⟩
  cases h with
  | day hword => simpa using hnear _ hword
  | unit hmodifier hword =>
    simpa using ⟨hmodifiers _ hmodifier, CalendarUnit.isPlainWord_of_ofWord? hword⟩
  | month hword => simpa using hmonths _ (mem_of_lookup hword)
  | numeric hr => simpa using isPlainWord_of_isNumeric (isNumeric_of_readNumeric hr)

end DateSpec

end Daybook
