import Daybook.Text.Numeral

/-!
# Arguments

The arguments of the command line: options, then the report that is asked for, with the words of a
filter. Options have long names, some of them letters too; letters can be joined, and a value can
stand in the argument of its option or in the next one. Behind two dashes all is words.
-/

namespace Daybook

open Daybook.Text

/-- The reports, with the words of their filters. -/
inductive ReportRequest where
  | balance (words : List String)
  | register (words : List String)
  | accounts (words : List String)
  | statistics
  deriving DecidableEq, Repr

/-- The options without values. -/
inductive Switch where
  | strict | pedantic | checkPayee | debitCredit | noSubtotal | verbose
  deriving DecidableEq, Repr

/-- The options with values. -/
inductive Setting where
  | file | start | stop | period | yearMonth | fiscalYear
  deriving DecidableEq, Repr

/-- The options. -/
inductive OptionKey where
  | switch (s : Switch)
  | setting (s : Setting)
  deriving DecidableEq, Repr

namespace OptionKey

def ofName? : String → Option OptionKey
  | "file" => some (setting .file)
  | "begin" => some (setting .start)
  | "end" => some (setting .stop)
  | "period" => some (setting .period)
  | "finyear" => some (setting .yearMonth)
  | "fy" => some (setting .fiscalYear)
  | "strict" => some (switch .strict)
  | "pedantic" => some (switch .pedantic)
  | "checkpayee" => some (switch .checkPayee)
  | "dc" => some (switch .debitCredit)
  | "nosubtotal" => some (switch .noSubtotal)
  | "verbose" => some (switch .verbose)
  | _ => none

def ofLetter? : Char → Option OptionKey
  | 'f' => some (setting .file)
  | 'b' => some (setting .start)
  | 'e' => some (setting .stop)
  | 'p' => some (setting .period)
  | 'v' => some (switch .verbose)
  | _ => none

end OptionKey

/-- The options that have been given. -/
structure GivenOptions where
  files : List String
  switches : List Switch
  start : Option String
  stop : Option String
  period : Option String
  yearMonth : Option Nat
  fiscalYear : Option Int
  deriving DecidableEq, Repr

namespace GivenOptions

def none : GivenOptions := ⟨[], [], .none, .none, .none, .none, .none⟩

/-- Adds a switch, which must not be given twice. -/
def turnOn? (g : GivenOptions) (s : Switch) : Option GivenOptions :=
  if g.switches.contains s then .none else some { g with switches := g.switches ++ [s] }

def readMonth? (value : String) : Option Nat := do
  let n ← readInt32? value.toList
  if 1 ≤ n ∧ n ≤ 12 then some n.toNat else .none

/-- Fills in a value that has not been there. -/
def fill? {α : Type} (old new : Option α) : Option (Option α) :=
  match old, new with
  | .none, some a => some (some a)
  | _, _ => .none

/-- Adds an option with its value. Only files may be named repeatedly. -/
def set? (g : GivenOptions) (s : Setting) (value : String) : Option GivenOptions := do
  match s with
  | .file => if value = "" then .none else some { g with files := g.files ++ [value] }
  | .start => return { g with start := ← fill? g.start (some value) }
  | .stop => return { g with stop := ← fill? g.stop (some value) }
  | .period => return { g with period := ← fill? g.period (some value) }
  | .yearMonth => return { g with yearMonth := ← fill? g.yearMonth (readMonth? value) }
  | .fiscalYear => return { g with fiscalYear := ← fill? g.fiscalYear (readInt32? value.toList) }

/-- Reads letters joined in one argument. An option with a value takes the rest of them, behind an
equals sign or not, or else waits for the next argument. -/
def readLetters? (g : GivenOptions) : List Char → Option (GivenOptions × Option Setting)
  | [] => some (g, .none)
  | c :: rest => do
    match ← OptionKey.ofLetter? c with
    | .switch s => readLetters? (← g.turnOn? s) rest
    | .setting s =>
      match rest with
      | [] => some (g, some s)
      | '=' :: value => return (← g.set? s (String.ofList value), .none)
      | value => return (← g.set? s (String.ofList value), .none)

/-- Reads a long name, which may have its value behind an equals sign. -/
def readName? (g : GivenOptions) (cs : List Char) : Option (GivenOptions × Option Setting) := do
  let name := String.ofList (cs.takeWhile (· ≠ '='))
  match ← OptionKey.ofName? name, cs.dropWhile (· ≠ '=') with
  | .switch s, [] => return (← g.turnOn? s, .none)
  | .switch _, _ => .none
  | .setting s, [] => return (g, some s)
  | .setting s, _ :: value => return (← g.set? s (String.ofList value), .none)

end GivenOptions

/-- The options and the report that is asked for. -/
structure Arguments where
  options : GivenOptions
  request : ReportRequest
  deriving DecidableEq, Repr

namespace Arguments

def usage : String :=
  "usage: daybook -f FILE [OPTION]... (balance | register | accounts) [WORD]...\n" ++
  "       daybook -f FILE [OPTION]... stats\n" ++
  "options: --begin DATE, --end DATE, --period PERIOD, --finyear MONTH, --fy YEAR, --strict,\n" ++
  "         --pedantic, --checkpayee, --dc, --nosubtotal, --verbose"

/-- Whether the argument is an option. A lone dash is none. -/
def isOption (argument : String) : Bool :=
  argument.toList.head? = some '-' && argument ≠ "-"

def words? : List String → Option (List String)
  | [] => some []
  | "--" :: rest => some rest
  | word :: rest => if isOption word then none else (words? rest).map (word :: ·)

def request? (name : String) (words : List String) : Option ReportRequest :=
  match name with
  | "balance" | "bal" => some (.balance words)
  | "register" | "reg" => some (.register words)
  | "accounts" => some (.accounts words)
  | "stats" | "stat" => if words = [] then some .statistics else none
  | _ => none

/-- Reads the arguments, the first of which may be the value that an option waits for. -/
def read? (g : GivenOptions) (waiting : Option Setting) : List String → Option Arguments
  | [] => none
  | argument :: rest => do
    match waiting with
    | some s => if isOption argument then none else read? (← g.set? s argument) none rest
    | none =>
      match argument.toList with
      | ['-', '-'] => none
      | '-' :: '-' :: name =>
        let (g, waiting) ← g.readName? name
        read? g waiting rest
      | '-' :: c :: letters =>
        let (g, waiting) ← g.readLetters? (c :: letters)
        read? g waiting rest
      | _ => return ⟨g, ← request? argument (← words? rest)⟩

/-- The arguments that a command line gives; at least one file must be named. -/
def ofList? (arguments : List String) : Option Arguments := do
  let a ← read? .none none arguments
  if a.options.files = [] then none else some a

end Arguments

end Daybook
