import Daybook.Calendar.Spec

/-!
# Periods

A period has a first day, a day before which it ends, and an interval that divides it; each may be
missing. It is written as clauses in any order.
-/

namespace Daybook

open Daybook.Text

/-- A step of `count` units. -/
structure Interval where
  unit : CalendarUnit
  count : Nat
  deriving DecidableEq, Repr

namespace Interval

def ofAdverb? : String → Option Interval
  | "daily" => some ⟨.day, 1⟩
  | "weekly" => some ⟨.week, 1⟩
  | "biweekly" => some ⟨.week, 2⟩
  | "monthly" => some ⟨.month, 1⟩
  | "bimonthly" => some ⟨.month, 2⟩
  | "quarterly" => some ⟨.quarter, 1⟩
  | "yearly" | "annually" => some ⟨.year, 1⟩
  | _ => none

def advance? (i : Interval) (d : Date) : Option Date :=
  if fitsInt32 i.count then i.unit.shift? d i.count else none

def text (i : Interval) : String :=
  if i.count = 1 then "every " ++ i.unit.name
  else "every " ++ toString i.count ++ " " ++ i.unit.name ++ "s"

end Interval

/-- The days from `start` up to, but not with, `stop`, divided by an interval. -/
structure Period where
  interval : Option Interval
  start : Option Date
  stop : Option Date
  deriving DecidableEq, Repr

namespace Period

/-- The period without an interval and without ends. -/
def always : Period := ⟨none, none, none⟩

def contains (p : Period) (d : Date) : Bool :=
  p.start.all (· ≤ d) && p.stop.all (d < ·)

/-- At most `limit` consecutive ranges from `start` to `stop`, each as long as the interval; the
last one is cut off at the end. -/
def rangesFrom (interval : Option Interval) (stop : Date) :
    (limit : Nat) → (start : Date) → List DateRange
  | 0, _ => []
  | limit + 1, start =>
    let next := match interval.bind (·.advance? start) with
      | some d => d.earlier stop
      | none => stop
    ⟨start, next⟩ ::
      if next < stop ∧ start < next then rangesFrom interval stop limit next else []

/-- The first `limit` ranges into which the interval divides the period. -/
def ranges (p : Period) (limit : Nat) : List DateRange :=
  match p.start, p.stop with
  | some start, some stop => if start < stop then rangesFrom p.interval stop limit start else []
  | _, _ => []

/-- The words that begin a clause, the adverbs apart. -/
def clauseWords : List String := ["every", "in", "from", "since", "to", "until", "till"]

def startsClause (word : String) : Bool :=
  clauseWords.contains word || (Interval.ofAdverb? word).isSome

/-- What a bound clause says of the range that it names. -/
def bound (keyword : Option String) (r : DateRange) (p : Period) : Period :=
  match keyword with
  | some "from" | some "since" => { p with start := some r.start }
  | some "to" | some "until" | some "till" => { p with stop := some r.start }
  | _ => { p with start := some r.start, stop := some r.stop }

/-- The interval after the word `every`, and the words behind it. -/
def readEvery? : List String → Option (Interval × List String)
  | [] => none
  | word :: rest =>
    match readNat32? word.toList with
    | some 0 => none
    | some count =>
      match rest with
      | [] => none
      | unit :: rest => (CalendarUnit.ofWord? unit).map fun u => (⟨u, count⟩, rest)
    | none => (CalendarUnit.ofWord? word).map fun u => (⟨u, 1⟩, rest)

theorem readEvery?_length {ws rest : List String} {i : Interval}
    (h : readEvery? ws = some (i, rest)) : rest.length < ws.length := by
  cases ws with
  | nil => simp [readEvery?] at h
  | cons w ws =>
    simp only [readEvery?] at h
    split at h
    · simp at h
    · cases ws with
      | nil => simp at h
      | cons u ws =>
        simp only [Option.map_eq_some_iff, Prod.mk.injEq] at h
        obtain ⟨_, _, _, rfl⟩ := h
        simp only [List.length_cons]; omega
    · simp only [Option.map_eq_some_iff, Prod.mk.injEq] at h
      obtain ⟨_, _, _, rfl⟩ := h
      simp

/-- Reads clauses to the end of the words; `input` is the text that an error shows. -/
def readClauses (input : String) (today : Date) (p : Period) :
    List String → Except DateError Period
  | [] => .ok p
  | word :: rest =>
    match Interval.ofAdverb? word with
    | some i => readClauses input today { p with interval := some i } rest
    | none =>
      if word = "every" then
        match h : readEvery? rest with
        | some (i, rest') =>
          have := readEvery?_length h
          readClauses input today { p with interval := some i } rest'
        | none => .error (.invalidPeriod input)
      else
        let keyword := if clauseWords.contains word then some word else none
        let spec := if keyword.isSome then rest else word :: rest
        let named := spec.takeWhile (!startsClause ·)
        if named = [] then .error (.invalidPeriod input)
        else
          have : (rest.dropWhile (!startsClause ·)).length ≤ rest.length :=
            (List.dropWhile_suffix _).length_le
          match DateSpec.readRange (" ".intercalate named) today with
          | .error e => .error e
          | .ok r => readClauses input today (bound keyword r p) (rest.dropWhile (!startsClause ·))
  termination_by ws => ws.length
  decreasing_by all_goals (simp only [List.length_cons]; omega)

def read (input : String) (today : Date) : Except DateError Period :=
  match (words (toLower input).toList).map String.ofList with
  | [] => .error .empty
  | ws => readClauses (String.ofList (trim input.toList)) today always ws

end Period

end Daybook
