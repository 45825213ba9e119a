import Daybook.Report.Basic

/-!
# Statistics

How much a journal holds, and what time it covers.
-/

namespace Daybook.Report

def countLines (n : Statistics) : List String :=
  [s!"Transactions:  {n.transactions}", s!"Postings:      {n.postings}",
    s!"Accounts:      {n.accounts}", s!"Commodities:   {n.commodities}",
    s!"Prices:        {n.prices}", s!"Duplicates:    {n.duplicates}"]

def timeLines (options : Options) (first last : Date) : List String :=
  ["Time period:   " ++ first.text ++ " to " ++ last.text,
    s!"Fiscal years:  {options.fiscalYear first} to {options.fiscalYear last}"]

def statisticsLines (s : Store) : List String :=
  let n := s.statistics
  countLines n ++
    match n.first, n.last with
    | some first, some last => timeLines s.options first last
    | _, _ => []

/-- Counts what a journal holds. -/
def statistics : Reporter (List String) :=
  { Reporter.silent (List String) with
    rendered := fun s => (statisticsLines s).forM writeLine }

end Daybook.Report
