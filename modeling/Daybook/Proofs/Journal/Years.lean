import Daybook.Proofs.Calendar.Numeric
import Daybook.Proofs.Journal.Insertion
import Daybook.Proofs.Journal.QuotedNames
import Daybook.Proofs.Journal.WrittenHead

/-!
# Years that are completed

A year of at most two digits is taken to lie in the century of the year in force, in numbers of 32
bits. The year in force is such a number on every line (`Reading.fits_steps`), but a year directive
may set any of them, and at both ends of the range the century or the sum leaves it
(`DateSpec.fits_promotion_iff`). Main statement: a text overflows exactly if a date on one of its
lines has a year that cannot be completed, wherever the date stands, and a date whose year the
calendar does not have is otherwise a fault of its line (`Journal.ofText_years`).
-/

namespace Daybook

open Daybook.Text Daybook.Result

namespace DateSpec

variable {year yy : Int} {raw : String} {e : DateError}

/-! ## Years that cannot be completed -/

/-- The text is three numbers, and the first one is a year that cannot be completed in 32 bits. -/
def Overflows (year : Int) (cs : List Char) : Prop :=
  ∃ y m d Y, pieces isSeparator (trim cs) = [y, m, d] ∧ readDigits? y = some Y ∧
    (readDigits? m).isSome ∧ (readDigits? d).isSome ∧ ¬Completes year y Y

theorem readPart_ne_overflow {cs : List Char} : readPart raw cs ≠ .error .overflow := by
  rw [readPart]
  split <;> simp

theorem readYear_ne_overflow {cs : List Char} : readYear raw cs ≠ .error .overflow := by
  rw [readYear]
  split <;> simp

theorem dayRange_ne_overflow {unit : CalendarUnit} {month day : Nat} :
    dayOf raw year month day >>= DateRange.ofUnit raw unit ≠ .error .overflow := by
  refine bind_ne_error ?_ fun d => ?_
  · rw [dayOf]
    split <;> simp
  · rw [DateRange.ofUnit]
    split <;> simp

theorem readFullYear_eq_overflow_iff {cs : List Char} {Y : Nat} (hyear : fitsInt32 year = true)
    (h : readDigits? cs = some Y) :
    readFullYear raw year cs = .error .overflow ↔ ¬Completes year cs Y := by
  by_cases hlength : cs.length ≤ 2
  · have hY : Y < 2 ^ 31 := by
      have hbound := le_of_length_le_two h hlength
      omega
    have hread : readFullYear raw year cs =
        (expandYear? Y year).elim (.error .overflow) .ok := by
      rw [readFullYear, readYear_eq h, if_pos hY]
      change (if cs.length ≤ 2 then _ else _) = _
      rw [if_pos hlength]
      cases expandYear? Y year <;> rfl
    rw [hread, Completes, forall_prop_of_true hlength, ← expandYear?_eq_none_iff hyear]
    cases expandYear? Y year <;> simp
  · refine iff_of_false (fun hread => ?_) (not_not.mpr fun hshort => absurd hshort hlength)
    rcases bind_eq_error_iff.mp hread with hread | ⟨n, -, hread⟩
    · exact readYear_ne_overflow hread
    · rw [if_neg hlength] at hread
      cases hread

/-- Three numbers overflow if the first one cannot be completed; no other date does. -/
theorem readNumeric_eq_overflow_iff (hyear : fitsInt32 year = true) :
    readNumeric raw year = .error .overflow ↔ ∃ y m d Y, pieces isSeparator raw.toList = [y, m, d] ∧
      readDigits? y = some Y ∧ (readDigits? m).isSome ∧ (readDigits? d).isSome ∧
        ¬Completes year y Y := by
  have hdigits (cs : List Char) :
      (decide (cs = []) || !cs.all isDigit) = false ↔ (readDigits? cs).isSome := by
    rw [readDigits?]
    simp
  constructor
  · intro h
    simp only [readNumeric] at h
    split at h
    case isTrue => cases h
    case isFalse hnumbers =>
      rw [Bool.not_eq_true, List.any_eq_false] at hnumbers
      have hparts : ∀ p ∈ pieces isSeparator raw.toList, (readDigits? p).isSome := fun p hp =>
        (hdigits p).mp (Bool.eq_false_iff.mpr (hnumbers p hp))
      split at h
      case h_1 y m d hpieces =>
        rw [hpieces] at hparts
        obtain ⟨Y, hY⟩ := Option.isSome_iff_exists.mp (hparts y (by simp))
        refine ⟨y, m, d, Y, hpieces, hY, hparts m (by simp), hparts d (by simp), ?_⟩
        rcases bind_eq_error_iff.mp h with h | ⟨n, -, h⟩
        · exact (readFullYear_eq_overflow_iff hyear hY).mp h
        · exact absurd h (bind_ne_error readPart_ne_overflow fun _ =>
            bind_ne_error readPart_ne_overflow fun _ => dayRange_ne_overflow)
      case h_2 =>
        split at h
        · exact absurd h (bind_ne_error readYear_ne_overflow fun _ =>
            bind_ne_error readPart_ne_overflow fun _ => dayRange_ne_overflow)
        · exact absurd h (bind_ne_error readPart_ne_overflow fun _ =>
            bind_ne_error readPart_ne_overflow fun _ => dayRange_ne_overflow)
      case h_3 =>
        split at h
        · exact absurd h (bind_ne_error readYear_ne_overflow fun _ => dayRange_ne_overflow)
        split at h
        · exact absurd h (bind_ne_error readPart_ne_overflow fun _ => dayRange_ne_overflow)
        · cases h
      case h_4 => cases h
  · rintro ⟨y, m, d, Y, hpieces, hY, hm, hd, hcompletes⟩
    have hy : (readDigits? y).isSome := Option.isSome_of_eq_some hY
    simp only [readNumeric, hpieces, List.any_cons, List.any_nil, (hdigits _).mpr hy,
      (hdigits _).mpr hm, (hdigits _).mpr hd, Bool.or_false, Bool.false_eq_true, if_false]
    exact bind_eq_error_iff.mpr (.inl ((readFullYear_eq_overflow_iff hyear hY).mpr hcompletes))

theorem readJournalDate_eq_overflow_iff {cs : List Char} (hyear : fitsInt32 year = true) :
    readJournalDate (String.ofList cs) year = .error .overflow ↔ Overflows year cs := by
  have hnumeric : readNumeric (String.ofList (trim cs)) year = .error .overflow ↔
      Overflows year cs := by
    rw [readNumeric_eq_overflow_iff hyear, String.toList_ofList, Overflows]
  rw [← hnumeric, readJournalDate, String.toList_ofList]
  by_cases hempty : trim cs = []
  · simp only [if_pos hempty]
    refine iff_of_false (fun h => ?_) fun h => ?_
    · cases h
    · obtain ⟨y, m, d, Y, hpieces, -⟩ := hnumeric.mp h
      rw [hempty] at hpieces
      cases hpieces
  · simp only [if_neg hempty]
    constructor
    · intro h
      rcases bind_eq_error_iff.mp h with h | ⟨range, -, h⟩
      · exact h
      · split at h <;> cases h
    · exact fun h => bind_eq_error_iff.mpr (.inl h)

theorem eq_invalidTime {input : String} (h : readTime input = .error e) : e = .invalidTime input := by
  simp only [readTime] at h
  split at h <;> cases h
  rfl

/-! ## Dates without a year of the calendar -/

/-- The text is a date in numbers, but the calendar does not have its year, be it written or in
force. It is refused with the error: the date is out of range, or not recognized if a number is too
large. A year of at most two digits can be completed. -/
inductive YearOff (year : Int) : String → DateError → Prop where
  | triple {y m d : List Char} {Y M D : Nat} {s s' : Char} (hy : readDigits? y = some Y)
      (hm : readDigits? m = some M) (hd : readDigits? d = some D) (hs : s ∈ separators)
      (hs' : s' ∈ separators) (hcompletes : Completes year y Y)
      (hoff : ¬(firstYear ≤ yearOf year y Y ∧ yearOf year y Y ≤ lastYear)) :
      YearOff year (tripleText y m d s s')
        (if Y < 2 ^ 31 ∧ M < 2 ^ 32 ∧ D < 2 ^ 32 then .outOfRange (tripleText y m d s s')
        else .unrecognized (tripleText y m d s s'))
  | pair {m d : List Char} {M D : Nat} {s : Char} (hm : readDigits? m = some M)
      (hd : readDigits? d = some D) (hs : s ∈ separators) (hlength : m.length ≠ 4)
      (hM : M < 2 ^ 32) (hD : D < 2 ^ 32) (hoff : ¬(firstYear ≤ year ∧ year ≤ lastYear)) :
      YearOff year (pairText m d s) (.outOfRange (pairText m d s))

theorem YearOff.readJournalDate (h : YearOff year raw e) : readJournalDate raw year = .error e := by
  cases h with
  | @triple y m d Y M D s s' hy hm hd hs hs' hcompletes hoff =>
    have hseparator := isSeparator_of_mem hs
    have hseparator' := isSeparator_of_mem hs'
    have hnone : ¬IsDay (yearOf year y Y) M D := fun h => hoff h.1
    exact (reads_of_error (isNumeric_tripleText hy hm hd hseparator hseparator')
      (refuses_tripleText hy hm hd hseparator hseparator' hcompletes hnone)).2
  | @pair m d M D s hm hd hs hlength hM hD hoff =>
    have hseparator := isSeparator_of_mem hs
    have hdate : Date.ofYmd? year M D = none := dif_neg fun h => hoff h.1
    have hday : dayOf (pairText m d s) year M D = .error (.outOfRange (pairText m d s)) := by
      rw [dayOf, hdate]
    refine (reads_of_error (isNumeric_pairText hm hd hseparator) ?_).2
    rw [readNumeric_pair hm hd hseparator hlength hM hD, hday]
    rfl

end DateSpec

/-! ## Where dates stand -/

namespace Line

variable {cs written behind : List Char} {clearing : Option Clearing} {tail : PostingTail}
  {year : Int} {fault : LineFault} {α : Type} {E : Prop}

theorem Splits.head?_ne (h : Splits cs clearing written behind) (hwritten : written ≠ []) :
    cs.head? ≠ some ';' := by
  rintro hhead
  obtain ⟨rest, rfl⟩ := List.head?_eq_some_iff.mp hhead
  obtain ⟨rest', account, hclearing, haccount, rfl⟩ := h
  obtain ⟨-, rfl⟩ := Prod.mk.inj hclearing
  obtain ⟨rfl, -⟩ := Prod.mk.inj haccount
  exact hwritten rfl

/-- Behind an account and amounts that are read, the date of a lot may be refused. -/
theorem readPosting_of_readLotDate (hsplits : Splits cs clearing written behind)
    (hwritten : written ≠ []) (hname : trim (readAccount written).2 ≠ [])
    (htail : Amount.readTail behind = .ok tail)
    (hdate : readLotDate tail.lotDate year = .error fault) :
    readPosting cs year = .error fault := by
  obtain ⟨rest, account, hclearing, haccount, rfl⟩ := hsplits
  rcases hkind : readAccount (trim account) with ⟨kind, name⟩
  rw [hkind] at hname
  rw [readPosting_eq hclearing haccount hkind, if_neg hwritten, if_neg hname, htail]
  change (do
    let lotDate ← readLotDate tail.lotDate year
    return postingOf clearing kind name tail lotDate) = _
  rw [hdate]
  rfl

/-! ## What an overflow tells -/

/-- If the reading fails because a year overflows, then `E` holds. -/
def Blames (E : Prop) (x : Result α) : Prop := ∀ e, x = .error e → e.overflows = true → E

theorem blames_ok {a : α} : Blames E (.ok a) := nofun

theorem blames_error (h : fault.overflows = false) : Blames E (.error fault : Result α) := by
  rintro _ ⟨⟩ hover
  rw [h] at hover
  cases hover

theorem Blames.bind {β : Type} {x : Result α} {f : α → Result β} (hx : Blames E x)
    (hf : ∀ a, x = .ok a → Blames E (f a)) : Blames E (x >>= f) := by
  cases x with
  | error e =>
    rintro _ ⟨⟩
    exact hx e rfl
  | ok a => exact hf a rfl

theorem Blames.map {β : Type} {x : Result α} {f : α → β} (hx : Blames E x) : Blames E (f <$> x) := by
  cases x with
  | error e =>
    rintro _ ⟨⟩
    exact hx e rfl
  | ok a => exact blames_ok

theorem Blames.mono {E' : Prop} {x : Result α} (hx : Blames E x) (h : E → E') : Blames E' x :=
  fun e he hover => h (hx e he hover)

theorem blames_readDate (hyear : fitsInt32 year = true) :
    Blames (DateSpec.Overflows year cs) (readDate cs year) := by
  rw [readDate]
  cases hread : DateSpec.readJournalDate (String.ofList cs) year with
  | ok d => exact blames_ok
  | error e =>
    rintro _ ⟨⟩ hover
    cases e with
    | overflow => exact (DateSpec.readJournalDate_eq_overflow_iff hyear).mp hread
    | _ => cases hover

theorem blames_readAmount : Blames E (readAmount cs) := by
  rw [readAmount]
  cases Amount.read cs with
  | error e => exact blames_error rfl
  | ok c => exact blames_ok

theorem blames_readValue {moment : Moment} : Blames E (readValue moment cs) := by
  simp only [readValue]
  split
  · exact blames_error rfl
  · exact blames_readAmount.bind fun _ _ => blames_ok

theorem blames_required {what : String} : Blames E (required what cs) := by
  rw [required]
  split
  · exact blames_error rfl
  · exact blames_ok

theorem blames_takeCode : Blames E (takeCode cs) := by
  unfold takeCode
  split
  · split
    · exact blames_ok
    · exact blames_error rfl
  · exact blames_ok

theorem blames_readEquation {what form : String} : Blames E (readEquation what form cs) := by
  refine blames_required.bind fun _ _ => ?_
  split
  · exact blames_ok
  · exact blames_error rfl

theorem blames_readApply : Blames E (readApply cs) := by
  simp only [readApply]
  split
  · exact blames_required.map
  · exact blames_error rfl

theorem blames_readCapture : Blames E (readCapture cs) := by
  refine blames_required.bind fun _ _ => ?_
  dsimp only
  split
  · exact blames_error rfl
  · exact blames_ok

theorem blames_readDirective {keyword : String} : Blames E (readDirective keyword cs) := by
  unfold readDirective
  split
  case h_1 => exact blames_readApply
  case h_2 =>
    split
    · exact blames_ok
    · exact blames_error rfl
  case h_3 | h_12 | h_13 => exact blames_readEquation.bind fun _ _ => blames_ok
  case h_4 | h_5 =>
    rw [readYear]
    split
    · exact blames_ok
    · exact blames_error rfl
  case h_8 => exact blames_readCapture
  case h_14 =>
    exact blames_required.bind fun _ _ => blames_readAmount.bind fun _ _ => blames_ok
  case h_15 => exact blames_error rfl
  all_goals exact blames_required.map

theorem blames_otherwise {d : α} : Blames E (otherwise d cs) := by
  rw [otherwise]
  split
  · exact blames_ok
  · exact blames_error rfl

theorem blames_addToAccount {d : AccountDeclaration} : Blames E (addToAccount d cs) := by
  unfold addToAccount
  dsimp only
  split
  case h_9 => exact blames_otherwise
  all_goals exact blames_ok

theorem blames_addToCommodity {d : CommodityDeclaration} : Blames E (addToCommodity d cs) := by
  unfold addToCommodity
  dsimp only
  split
  case h_2 => exact blames_readAmount.bind fun _ _ => blames_ok
  case h_6 => exact blames_otherwise
  all_goals exact blames_ok

theorem blames_addToPayee {d : PayeeDeclaration} : Blames E (addToPayee d cs) := by
  unfold addToPayee
  dsimp only
  split
  case h_3 => exact blames_otherwise
  all_goals exact blames_ok

end Line

namespace Journal

/-- The first date of the line that may be refused when it is read in the state `r`: the date of a
transaction, the effective date behind a date that is read, the date of a price, and the date of a
lot behind an account. -/
inductive Reading.Dates (r : Reading) : List Char → List Char → Prop where
  | head {c : Char} {rest word behind : List Char} (hc : isDigit c = true)
      (hword : firstWord (Line.cutComment (c :: rest)).1 = (word, behind)) :
      Dates r (c :: rest) (((cut? (· = '=') word).map (·.1)).getD word)
  | effective {c : Char} {rest word behind date raw : List Char} {d : Date} (hc : isDigit c = true)
      (hword : firstWord (Line.cutComment (c :: rest)).1 = (word, behind))
      (hcut : cut? (· = '=') word = some (date, raw)) (hdate : Line.readDate date r.year = .ok d) :
      Dates r (c :: rest) raw
  | price {text raw behind : List Char} (htext : text.head?.any isSpacing = true)
      (hword : firstWord (trim text) = (raw, behind)) : Dates r ('P' :: text) raw
  | lot {line written behind : List Char} {t : Transaction} {span : Span} {kept : List (List Char)}
      {clearing : Option Clearing} {tail : PostingTail} {raw : String}
      (hblock : r.block = .transaction t span kept) (hline : Line.Indented line)
      (hsplits : Line.Splits (trim line) clearing written behind) (hwritten : written ≠ [])
      (hname : trim (Line.readAccount written).2 ≠ []) (htail : Amount.readTail behind = .ok tail)
      (hdate : tail.lotDate = some raw) : Dates r line raw.toList

variable {r : Reading} {line raw : List Char} {e : DateError}

theorem Reading.Dates.mem_faults (h : r.Dates line raw) (hread : r.block.isVerbatim = false)
    (he : DateSpec.readJournalDate (String.ofList raw) r.year = .error e) (n : Nat) :
    ⟨.invalidDate e, .line n, String.ofList line⟩ ∈ (r.step n line).faults := by
  have hdate : Line.readDate raw r.year = .error (.invalidDate e) := by
    rw [Line.readDate, he]
    rfl
  have hheadFault : ∀ {c rest word behind}, isDigit c = true →
      firstWord (Line.cutComment (c :: rest)).1 = (word, behind) →
      Line.readDates word r.year = .error (.invalidDate e) →
      ⟨.invalidDate e, .line n, String.ofList (c :: rest)⟩ ∈ (r.step n (c :: rest)).faults := by
    intro c rest word behind hc hword hdates
    have hfault : Line.readHead (c :: rest) r.year = .error (.invalidDate e) := by
      rw [Line.readHead_eq rfl hword rfl, hdates]
      rfl
    rw [step_head hread hc, hfault]
    exact List.mem_cons_self
  cases h with
  | @head c rest word behind hc hword =>
    refine hheadFault hc hword ?_
    rw [Line.readDates]
    cases hcut : cut? (· = '=') word with
    | none =>
      rw [hcut] at hdate
      simp only [Option.map_none, Option.getD_none] at hdate
      simp only [hdate]
      rfl
    | some parts =>
      rw [hcut] at hdate
      simp only [Option.map_some, Option.getD_some] at hdate
      simp only [hdate]
      rfl
  | @effective c rest word behind date raw d hc hword hcut hd =>
    refine hheadFault hc hword ?_
    simp only [Line.readDates, hcut, hd]
    simp [hdate]
    rfl
  | @price text raw behind htext hword =>
    have hfault : Line.readPrice text r.year = .error (.invalidDate e) := by
      simp only [Line.readPrice, hword, hdate]
      rfl
    rw [step_price hread htext, hfault]
    exact List.mem_cons_self
  | @lot line written behind t span kept clearing tail raw hblock hline hsplits hwritten hname htail
      hlot =>
    have hposting : Line.readPosting (trim line) r.year = .error (.invalidDate e) := by
      refine Line.readPosting_of_readLotDate hsplits hwritten hname htail ?_
      rw [hlot, Line.readLotDate, hdate]
      rfl
    have hadd : addToTransaction t (trim line) r.year = .error (.invalidDate e) := by
      rw [Transaction.addToTransaction_body (hsplits.head?_ne hwritten), hposting]
      rfl
    rw [step_of_read hread, if_neg hline.1, if_pos hline.2]
    simp only [indented, hblock, hadd]
    exact List.mem_cons_self

/-! ## Where an overflow comes from -/

namespace Reading

open Line (Blames blames_ok blames_error)

def DateOverflows (r : Reading) (line : List Char) : Prop :=
  ∃ raw, r.Dates line raw ∧ DateSpec.Overflows r.year raw

/-- The line is read, and has a date that overflows. -/
def Overflows (r : Reading) (line : List Char) : Prop :=
  r.block.isVerbatim = false ∧ r.DateOverflows line

theorem Dates.blames (hyear : fitsInt32 r.year = true) (h : r.Dates line raw) :
    Blames (r.DateOverflows line) (Line.readDate raw r.year) :=
  (Line.blames_readDate hyear).mono fun hraw => ⟨raw, h, hraw⟩

theorem blames_readHead (hyear : fitsInt32 r.year = true) {c : Char} {rest : List Char}
    (hc : isDigit c = true) :
    Blames (r.DateOverflows (c :: rest)) (Line.readHead (c :: rest) r.year) := by
  rcases hword : firstWord (Line.cutComment (c :: rest)).1 with ⟨word, behind⟩
  have hhead := Reading.Dates.head (r := r) hc hword
  rw [Line.readHead_eq rfl hword rfl]
  refine Blames.bind ?_ fun _ _ => Line.blames_takeCode.bind fun _ _ => blames_ok
  rw [Line.readDates]
  cases hcut : cut? (· = '=') word with
  | none =>
    rw [hcut] at hhead
    exact (hhead.blames hyear).bind fun _ _ => blames_ok
  | some parts =>
    rw [hcut] at hhead
    refine (hhead.blames hyear).bind fun d hd => ?_
    exact ((Dates.effective hc hword hcut hd).blames hyear).bind fun _ _ => blames_ok

theorem blames_readPrice (hyear : fitsInt32 r.year = true) {text : List Char}
    (htext : text.head?.any isSpacing = true) :
    Blames (r.DateOverflows ('P' :: text)) (Line.readPrice text r.year) := by
  rcases hword : firstWord (trim text) with ⟨raw, behind⟩
  rcases hnext : firstWord behind with ⟨next, rest⟩
  cases hread : Line.readDate raw r.year with
  | error fault =>
    have hfault : Line.readPrice text r.year = .error fault := by
      simp only [Line.readPrice, hword, hread]
      rfl
    rw [hfault]
    rintro _ ⟨⟩
    exact (Dates.price htext hword).blames hyear fault hread
  | ok d =>
    by_cases htimed : ':' ∈ next
    · rw [Line.readPrice_of_timed hword hread hnext htimed]
      cases htime : DateSpec.readTime (String.ofList next) with
      | ok time => exact Line.blames_readValue
      | error e =>
        rw [DateSpec.eq_invalidTime htime]
        exact blames_error rfl
    · rw [Line.readPrice_of_untimed hword hread hnext htimed]
      exact Line.blames_readValue

theorem blames_readPosting (hyear : fitsInt32 r.year = true) {t : Transaction} {span : Span}
    {kept : List (List Char)} (hblock : r.block = .transaction t span kept)
    (hline : Line.Indented line) :
    Blames (r.DateOverflows line) (Line.readPosting (trim line) r.year) := by
  rcases hclearing : Line.takeClearing (trim line) with ⟨clearing, rest⟩
  rcases haccount : Line.cutAccount rest with ⟨account, behind⟩
  rcases hkind : Line.readAccount (trim account) with ⟨kind, name⟩
  rw [Line.readPosting_eq hclearing haccount hkind]
  split
  case isTrue => exact blames_error rfl
  case isFalse hwritten =>
  split
  case isTrue => exact blames_error rfl
  case isFalse hname =>
  refine Blames.bind ?_ fun tail htail => Blames.bind ?_ fun _ _ => blames_ok
  · cases Amount.readTail behind with
    | error e => exact blames_error rfl
    | ok tail => exact blames_ok
  · rw [mapError_eq_ok_iff] at htail
    cases hraw : tail.lotDate with
    | none => exact blames_ok
    | some raw =>
      have hdates : r.Dates line raw.toList :=
        .lot hblock hline ⟨rest, account, hclearing, haccount, rfl⟩ hwritten
          (by rwa [hkind]) htail hraw
      exact (hdates.blames hyear).bind fun _ _ => blames_ok

theorem blames_addToTransaction (hyear : fitsInt32 r.year = true) {t : Transaction} {span : Span}
    {kept : List (List Char)} (hblock : r.block = .transaction t span kept)
    (hline : Line.Indented line) :
    Blames (r.DateOverflows line) (addToTransaction t (trim line) r.year) := by
  unfold addToTransaction
  split
  · split <;> exact blames_ok
  · exact (blames_readPosting hyear hblock hline).bind fun _ _ => blames_ok

theorem blames_directive {E : Prop} {n : Nat} : Blames E (r.directive n line) := by
  simp only [directive]
  split
  case h_1 | h_2 | h_3 => exact Line.blames_required.bind fun _ _ => blames_ok
  case h_4 | h_5 => exact blames_ok
  case h_6 =>
    refine Line.blames_readDirective.bind fun d _ => ?_
    split <;> exact blames_ok

theorem blames_unindented (hyear : fitsInt32 r.year = true) (n : Nat) :
    Blames (r.DateOverflows line) (r.close.unindented n line) := by
  have hclose : r.close.year = r.year := by rw [close_eq]
  unfold unindented
  split
  case h_2 => exact blames_directive
  case h_1 c rest =>
  split
  case isTrue hc =>
    rw [hclose]
    exact (blames_readHead hyear hc).bind fun _ _ => blames_ok
  split
  case isTrue => exact blames_ok
  split
  case isTrue hprice =>
    simp only [Bool.and_eq_true, decide_eq_true_eq] at hprice
    obtain ⟨rfl, htext⟩ := hprice
    rw [hclose]
    exact (blames_readPrice hyear htext).bind fun _ _ => blames_ok
  case isFalse => exact blames_directive

theorem Begins.faults {n : Nat} {r' : Reading} (h : Begins r n line r') : r'.faults = r.faults := by
  cases h <;> rfl

theorem mem_faults_continueWith {α : Type} {result : Line.Result α} {unchanged : α}
    {block : α → Block} {f : JournalFault} {n : Nat}
    (hf : f ∈ (r.continueWith n line unchanged result block).faults) :
    f ∈ r.faults ∨ result = .error f.fault := by
  cases result with
  | ok a => exact .inl hf
  | error fault =>
    rcases List.mem_cons.mp hf with rfl | hf
    · exact .inr rfl
    · exact .inl hf

theorem overflows_of_mem_step (hyear : fitsInt32 r.year = true) {f : JournalFault} {n : Nat}
    (hf : f ∈ (r.step n line).faults) (hover : f.fault.overflows = true) :
    f ∈ r.faults ∨ r.Overflows line := by
  cases hread : r.block.isVerbatim with
  | true =>
    obtain ⟨kind, opening, body, span, hverbatim⟩ := Block.isVerbatim_iff.mp hread
    rw [step_of_verbatim hverbatim] at hf
    split at hf
    · rw [faults_close] at hf
      exact .inl hf
    · exact .inl hf
  | false =>
    have hblamed {α : Type} {x : Line.Result α} (herror : x = .error f.fault)
        (hx : Blames (r.DateOverflows line) x) :
        r.Overflows line := by
      exact ⟨hread, hx _ herror hover⟩
    rw [step_of_read hread] at hf
    split at hf
    case isTrue =>
      rw [faults_close] at hf
      exact .inl hf
    case isFalse hblank =>
    split at hf
    case isTrue hspacing =>
      unfold indented at hf
      split at hf
      case h_1 =>
        rcases List.mem_cons.mp hf with rfl | hf
        · cases hover
        · exact .inl hf
      case h_2 => exact .inl hf
      case h_3 t span kept hblock =>
        refine (mem_faults_continueWith hf).imp_right fun herror => hblamed herror ?_
        exact blames_addToTransaction hyear hblock ⟨hblank, hspacing⟩
      case h_4 =>
        exact (mem_faults_continueWith hf).imp_right (hblamed · Line.blames_addToAccount)
      case h_5 =>
        exact (mem_faults_continueWith hf).imp_right (hblamed · Line.blames_addToCommodity)
      case h_6 =>
        exact (mem_faults_continueWith hf).imp_right (hblamed · Line.blames_addToPayee)
      case h_7 => exact .inl hf
    case isFalse =>
      split at hf
      case h_1 r' hr' =>
        rw [(begins_of_unindented hr').faults, faults_close] at hf
        exact .inl hf
      case h_2 fault hfault =>
        rcases List.mem_cons.mp hf with rfl | hf
        · exact .inr (hblamed hfault (blames_unindented hyear n))
        · rw [faults_close] at hf
          exact .inl hf

theorem mem_of_mem_finish {f : JournalFault} (hf : f ∈ r.finish.faults)
    (hover : f.fault.overflows = true) : f ∈ r.faults := by
  cases hread : r.block.isVerbatim with
  | true =>
    obtain ⟨kind, opening, body, span, hverbatim⟩ := Block.isVerbatim_iff.mp hread
    rw [finish_of_verbatim hverbatim] at hf
    rcases List.mem_append.mp hf with hf | hf
    · exact List.mem_reverse.mp hf
    · obtain rfl := List.mem_singleton.mp hf
      cases hover
  | false =>
    rw [finish_of_read hread, faults_close] at hf
    exact List.mem_reverse.mp hf

end Reading

/-! ## Every line -/

theorem Reaches.fits {year : Int} {lines : List (List Char)} {k : Nat}
    (h : Reaches year lines k line r) (hyear : fitsInt32 year = true) :
    fitsInt32 r.year = true := by
  obtain ⟨above, -, -, -, rfl⟩ := h
  exact Reading.fits_steps hyear above

theorem Reaches.append {year : Int} {lines : List (List Char)} {k : Nat}
    (h : Reaches year lines k line r) (more : List (List Char)) :
    Reaches year (lines ++ more) k line r := by
  obtain ⟨above, below, rfl, hk, hr⟩ := h
  exact ⟨above, below ++ more, by simp, hk, hr⟩

/-- A fault is no overflow after any number of lines, unless one of them has a date that overflows. -/
theorem exists_reaches_of_overflow {year : Int} (hyear : fitsInt32 year = true)
    {lines : List (List Char)} {f : JournalFault}
    (hf : f ∈ ((Reading.fresh year).steps 1 lines).faults) (hover : f.fault.overflows = true) :
    ∃ k line r, Reaches year lines k line r ∧ r.Overflows line := by
  induction lines using List.reverseRecOn with
  | nil => cases hf
  | append_singleton lines last ih =>
    rw [Reading.steps_append] at hf
    have hreaches : Reaches year (lines ++ [last]) (lines.length + 1) last
      ((Reading.fresh year).steps 1 lines) := ⟨lines, [], rfl, rfl, rfl⟩
    rcases Reading.overflows_of_mem_step (hreaches.fits hyear) hf hover with hf | hoverflows
    · obtain ⟨k, line, r, hreaches, hoverflows⟩ := ih hf
      exact ⟨k, line, r, hreaches.append [last], hoverflows⟩
    · exact ⟨_, last, _, hreaches, hoverflows⟩

theorem ofText_overflows_iff (source : String) (today : Date) :
    (ofText source today).overflows = true ↔
      ∃ k line r, Reaches today.year (Text.lines source.toList) k line r ∧ r.Overflows line := by
  have hyear := fitsInt32_year today
  rw [overflows, List.any_eq_true]
  constructor
  · rintro ⟨f, hf, hover⟩
    exact exists_reaches_of_overflow hyear (Reading.mem_of_mem_finish hf hover) hover
  · rintro ⟨k, line, r, hreaches, hread, raw, hdates, hraw⟩
    have he := (DateSpec.readJournalDate_eq_overflow_iff (hreaches.fits hyear)).mpr hraw
    exact ⟨_, hreaches.mem_faults (hdates.mem_faults hread he k), rfl⟩

/-- On every line the year in force is a number of 32 bits, but completing a year leaves them in the
first and the last century of such numbers. Where it does not, the completed year is what it should
be, and a date whose year the calendar does not have is a fault of its line. A text overflows exactly
if one of its lines has a date whose year cannot be completed; then it is not read at all. -/
theorem ofText_years (source : String) (today : Date) :
    (∀ {k line r}, Reaches today.year (Text.lines source.toList) k line r →
      fitsInt32 r.year = true ∧
      (∀ yy, 0 ≤ yy → yy ≤ 99 →
        ((∀ n ∈ DateSpec.promotion yy r.year, fitsInt32 n = true) ↔
          -2147483600 ≤ r.year ∧ (2147483600 ≤ r.year → yy ≤ 47)) ∧
        DateSpec.expandYear? yy r.year =
          if ∀ n ∈ DateSpec.promotion yy r.year, fitsInt32 n = true then
            some (DateSpec.century r.year + yy)
          else none) ∧
      ∀ raw e, r.block.isVerbatim = false → r.Dates line raw →
        DateSpec.YearOff r.year (String.ofList raw) e → (ofText source today).overflows = false →
        ⟨.invalidDate e, .line k, String.ofList line⟩ ∈ (ofText source today).faults) ∧
    ((ofText source today).overflows = true ↔
      ∃ k line r, Reaches today.year (Text.lines source.toList) k line r ∧ r.Overflows line) := by
  refine ⟨fun {k line r} h => ?_, ofText_overflows_iff source today⟩
  have hyear := h.fits (fitsInt32_year today)
  refine ⟨hyear, fun yy hlow hhigh => ⟨DateSpec.fits_promotion_iff hyear hlow hhigh, ?_⟩,
    fun raw e hread hdates hoff _ => h.mem_faults (hdates.mem_faults hread hoff.readJournalDate k)⟩
  split
  case isTrue hfits => exact DateSpec.expandYear?_of_fits hfits
  case isFalse hfits => exact (DateSpec.expandYear?_eq_none_iff hyear).mpr hfits

/-- In the last century of 32 bits the years up to 47 can be completed. -/
theorem ofText_years_last_century :
    let today : Date := ⟨2024, 6, 1, by decide⟩
    let source := "year 2147483647\n10/01/01 Tea\n"
    DateSpec.expandYear? 10 2147483647 = some 2147483610 ∧
      ⟨.invalidDate (.outOfRange "10/01/01"), .line 2, "10/01/01 Tea"⟩ ∈
        (ofText source today).faults := by
  intro today source
  have hline : (Text.lines source.toList)[1]? = some "10/01/01 Tea".toList := by decide +kernel
  let before := (Reading.fresh today.year).steps 1 ((Text.lines source.toList).take 1)
  have hreaches : Reaches today.year (Text.lines source.toList) 2 _ before :=
    reaches_of_getElem? hline
  obtain ⟨hinForce, hread⟩ : before.year = 2147483647 ∧ before.block.isVerbatim = false := by
    decide +kernel
  obtain ⟨-, harithmetic, hfaults⟩ := (ofText_years source today).1 hreaches
  rw [hinForce] at harithmetic hfaults
  obtain ⟨hfits, hexpand⟩ := harithmetic 10 (by decide) (by decide)
  have hcompletes := hfits.mpr (by decide)
  rw [if_pos hcompletes] at hexpand
  have hoff := @DateSpec.YearOff.triple 2147483647 ['1', '0'] ['0', '1'] ['0', '1'] 10 1 1 '/' '/'
    (by decide) (by decide) (by decide) (by decide) (by decide) (fun _ => hcompletes) (by decide)
  exact ⟨hexpand, hfaults "10/01/01".toList _ hread (.head (by decide) rfl) hoff (by decide +kernel)⟩

/-- The year 99 cannot be completed in the last century of 32 bits. -/
theorem ofText_overflows :
    let today : Date := ⟨2024, 6, 1, by decide⟩
    let source := "year 2147483647\n99/01/01 Tea\n"
    (∃ line r, Reaches today.year (Text.lines source.toList) 2 line r ∧
      r.Dates line "99/01/01".toList ∧ DateSpec.century r.year + 99 = 2147483699 ∧
      fitsInt32 2147483699 = false ∧ DateSpec.expandYear? 99 r.year = none) ∧
    (ofText source today).overflows = true := by
  intro today source
  have hline : (Text.lines source.toList)[1]? = some "99/01/01 Tea".toList := by decide +kernel
  exact ⟨⟨_, _, reaches_of_getElem? hline, .head (by decide) rfl, by decide +kernel, by decide,
    by decide +kernel⟩, by decide +kernel⟩

end Journal

end Daybook
