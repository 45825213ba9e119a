import Daybook.Calendar.Date
import Daybook.Text.Numeral

/-!
# Units of the calendar

Days, weeks from Sunday, months, quarters and years: where the unit that holds a date begins, and
what lies a number of units away.
-/

namespace Daybook

/-- A unit in which the calendar is divided. -/
inductive CalendarUnit where
  | day | week | month | quarter | year
  deriving DecidableEq, Repr

namespace CalendarUnit

def name : CalendarUnit → String
  | day => "day"
  | week => "week"
  | month => "month"
  | quarter => "quarter"
  | year => "year"

/-- The unit that a word names, in the singular or the plural. -/
def ofWord? : String → Option CalendarUnit
  | "day" | "days" => some day
  | "week" | "weeks" => some week
  | "month" | "months" => some month
  | "quarter" | "quarters" => some quarter
  | "year" | "years" => some year
  | _ => none

/-- The date `n` units later. A count of months is a number of 32 bits. -/
def shift? (unit : CalendarUnit) (d : Date) (n : Int) : Option Date :=
  match unit with
  | day => d.addDays? n
  | week => d.addDays? (7 * n)
  | month => d.addMonths? n
  | quarter => if Text.fitsInt32 (3 * n) then d.addMonths? (3 * n) else none
  | year => if Text.fitsInt32 (12 * n) then d.addMonths? (12 * n) else none

/-- The first day of the unit that holds the date. The first week of the calendar begins with its
first day. -/
def startOf (unit : CalendarUnit) (d : Date) : Date :=
  let firstOf (month : Nat) := (Date.ofYmd? d.year month 1).getD d
  match unit with
  | day => d
  | week => (d.addDays? (-d.sinceSunday)).getD Date.first
  | month => firstOf d.month
  | quarter => firstOf ((d.month - 1) / 3 * 3 + 1)
  | year => firstOf 1

end CalendarUnit

end Daybook
