import Daybook.Proofs.Files.Runs
import Daybook.Proofs.Journal.Insertion

/-!
# Included text in place

The directives of an included file stand in the place of the line that includes it, but the file is
read on its own: a year that one file sets is not in force in another. Main statement: an expansion
says what the text says that has the included text in the place of that line, between two lines that
set the years of either file (`ofPath_inPlace`).
-/

namespace Daybook

open Daybook.Text

def Journal.IncludesNone (ds : List (Spanned Directive)) : Prop :=
  ∀ d ∈ ds, ∀ path, d.value ≠ .includeFile path

instance (ds : List (Spanned Directive)) : Decidable (Journal.IncludesNone ds) :=
  decidable_of_iff ((ds.all fun d => match d.value with | .includeFile _ => false | _ => true) = true)
    (by
      simp only [List.all_eq_true, Journal.IncludesNone]
      refine forall₂_congr fun d _ => ?_
      cases d.value <;> simp)

namespace Expansion

variable {files : Files} {today : Date} {directory : String} {i j : Inclusions} {e : Expansion}

theorem expands_before {ds rest : List (Spanned Directive)} (hds : Journal.IncludesNone ds)
    (hrest : Expands files today (.rest directory rest) i e j) :
    Expands files today (.rest directory (ds ++ rest)) i (⟨ds, []⟩ ++ e) j := by
  induction ds with
  | nil => exact hrest
  | cons d ds ih =>
    obtain ⟨hd, hds⟩ := List.forall_mem_cons.mp hds
    exact .other hd (ih hds)

theorem expands_others {ds : List (Spanned Directive)} (hds : Journal.IncludesNone ds) :
    Expands files today (.rest directory ds) i ⟨ds, []⟩ i := by
  have hall := expands_before hds (.nil : Expands files today (.rest directory []) i .empty i)
  have happend : (⟨ds, []⟩ : Expansion) ++ .empty = ⟨ds, []⟩ := by
    change (⟨ds ++ [], []⟩ : Expansion) = ⟨ds, []⟩
    rw [List.append_nil]
  rwa [List.append_nil, happend] at hall

/-- The expansion of a file that includes a single other one, which includes none. -/
theorem expands_including {main inner : String} {journal innerJournal : Journal}
    {before after : List (Spanned Directive)} {d : Spanned Directive}
    (hmain : files.journal? today main = some journal) (hfaults : journal.faults = [])
    (hdirectives : journal.directives = before ++ d :: after)
    (hothers : Journal.IncludesNone (before ++ after))
    (htarget : files.target? (Path.directory main) d = some inner)
    (hinner : files.journal? today inner = some innerJournal)
    (hinnerFaults : innerJournal.faults = [])
    (hinnerOthers : Journal.IncludesNone innerJournal.directives) :
    ∃ e j, Expands files today (.file main) .none e j ∧
      e.directives = before ++ innerJournal.directives ++ after := by
  obtain ⟨path, hvalue, -⟩ := Files.target?_eq_some_iff.mp htarget
  -- The included file includes nothing, so it is another file.
  have hne : inner ≠ main := by
    rintro rfl
    obtain rfl := Option.some.inj (hmain.symm.trans hinner)
    exact hinnerOthers d (by simp [hdirectives]) path hvalue
  have hmainFresh : Inclusions.none.Fresh main := ⟨List.not_mem_nil, List.not_mem_nil⟩
  have hinnerFresh : (Inclusions.none.enter main).Fresh inner :=
    ⟨fun hmem => hne (List.mem_singleton.mp hmem), fun hmem => hne (List.mem_singleton.mp hmem)⟩
  obtain ⟨hbefore, hafter⟩ := List.forall_mem_append.mp hothers
  have hfile := Expands.opened hinnerFresh hinner hinnerFaults (expands_others hinnerOthers)
  have hrest := expands_before hbefore (.included htarget hfile (expands_others hafter))
  have hall := Expands.opened hmainFresh hmain hfaults (hdirectives ▸ hrest)
  exact ⟨_, _, hall, (List.append_assoc ..).symm⟩

/-- A file that includes a single other one, which includes none and is made of whole lines, both
without faults. Its expansion has the directives of the other file in place. The text that has the
other one's text in the place of the line says the same between two lines that set the years: that of
today, with which the other file is read, and the one that is in force behind the line. If the year in
force is that of today there, before the other file's text and behind it, then these lines are not
needed. -/
theorem ofPath_inPlace {path main inner written text innerText : String}
    {before after : List (Spanned Directive)} {d : Spanned Directive}
    (hmain : files.locate path = some main) (htext : files.texts.find? main = some text)
    (hread : Journal.ofText text today = ⟨before ++ d :: after, []⟩)
    (hd : d.value = .includeFile written) (hothers : Journal.IncludesNone (before ++ after))
    (hinner : files.locate (Path.join (Path.directory main) written) = some inner)
    (hinnerText : files.texts.find? inner = some innerText)
    (hinnerRead : (Journal.ofText innerText today).faults = [])
    (hinnerOthers : Journal.IncludesNone (Journal.ofText innerText today).directives)
    (hwhole : WholeLines innerText.toList) :
    let included := (Journal.ofText innerText today).directives
    let year := Journal.yearAfter today.year before
    let dated := Journal.yearLine today.year ++ innerText ++ Journal.yearLine year
    ∃ e, (outcome (ofPath files today path) .none).1 = .ok e ∧
      Journal.values e.directives =
        Journal.values before ++ Journal.values included ++ Journal.values after ∧
      (Journal.ofText (Journal.inPlaceOf d text dated) today).faults = [] ∧
      Journal.values (Journal.ofText (Journal.inPlaceOf d text dated) today).directives =
        Journal.values before ++
          (.year today.year :: Journal.values included ++ [.year year]) ++ Journal.values after ∧
      (year = today.year → Journal.yearAfter today.year included = today.year →
        (Journal.ofText (Journal.inPlaceOf d text innerText) today).faults = [] ∧
        Journal.values (Journal.ofText (Journal.inPlaceOf d text innerText) today).directives =
          Journal.values e.directives) := by
  intro included year dated
  have hjournal : files.journal? today main = some (Journal.ofText text today) := by
    rw [Files.journal?, htext, Option.map_some]
  have hinnerJournal : files.journal? today inner = some (Journal.ofText innerText today) := by
    rw [Files.journal?, hinnerText, Option.map_some]
  have htarget := Files.target?_eq_some_iff.mpr ⟨written, hd, hinner⟩
  obtain ⟨e, j, hexpands, hdirectives⟩ := expands_including hjournal (by rw [hread])
    (by rw [hread]) hothers htarget hinnerJournal hinnerRead hinnerOthers
  have hok := ofPath_eq_ok_iff.mpr ⟨main, hmain, hexpands⟩
  have hvalues : Journal.values e.directives =
      Journal.values before ++ Journal.values included ++ Journal.values after := by
    rw [hdirectives, Journal.values_append, Journal.values_append]
  have hfits : fitsInt32 today.year = true := Journal.fitsInt32_year today
  have hfitsYear : fitsInt32 year = true := by
    obtain ⟨_, _, _, _, _, _, habove, _⟩ := Journal.exists_around_include hread hd
    exact habove.fits hfits
  have hwrites : Journal.Writes today.year (lines innerText.toList) (Journal.values included)
      (Journal.yearAfter today.year included) := Journal.writes_of_faults hinnerRead
  obtain ⟨hdatedFaults, hdatedValues⟩ := Journal.ofText_inPlaceOf hread hd
    (Journal.wholeLines_between_years _ _ _)
    (Journal.writes_between_years hfits hfitsYear hwhole hwrites year)
  refine ⟨e, by rw [hok], hvalues, hdatedFaults, hdatedValues, fun hyear hkept => ?_⟩
  rw [hkept, ← hyear] at hwrites
  obtain ⟨hplainFaults, hplainValues⟩ := Journal.ofText_inPlaceOf hread hd hwhole hwrites
  exact ⟨hplainFaults, hplainValues.trans hvalues.symm⟩

/-- Two files in one directory. -/
def ratesBeside (text rates : String) : FileTree :=
  ⟨[(["main.ledger"], text.toUTF8), (["rates.ledger"], rates.toUTF8)]⟩

/-- The file sets the year of today, so that the text in place needs no further lines. -/
theorem ofPath_inPlace_rates :
    let today : Date := ⟨2024, 6, 1, by decide⟩
    let text := "year 2024\ninclude rates.ledger\nP 01/03 EUR 2 USD\n"
    let rates := "P 01/02 EUR 1 USD\n"
    let files := (ratesBeside text rates).files
    let d : Spanned Directive := ⟨.includeFile "rates.ledger", .line 2⟩
    let before := (Journal.ofText text today).directives.take 1
    let after := (Journal.ofText text today).directives.drop 2
    Journal.ofText text today = ⟨before ++ d :: after, []⟩ ∧
    Journal.IncludesNone (before ++ after) ∧
    (Journal.ofText rates today).faults = [] ∧
    Journal.IncludesNone (Journal.ofText rates today).directives ∧
    WholeLines rates.toList ∧
    ∃ e, (outcome (ofPath files today "main.ledger") .none).1 = .ok e ∧
      (Journal.ofText (Journal.inPlaceOf d text rates) today).faults = [] ∧
      Journal.values (Journal.ofText (Journal.inPlaceOf d text rates) today).directives =
        Journal.values e.directives := by
  intro today text rates files d before after
  have hmain : files.locate "main.ledger" = some "/main.ledger" := by decide +kernel
  have htext : files.texts.find? "/main.ledger" = some text := by decide +kernel
  have hread : Journal.ofText text today = ⟨before ++ d :: after, []⟩ := by decide +kernel
  have hothers : Journal.IncludesNone (before ++ after) := by decide +kernel
  have hinner : files.locate (Path.join (Path.directory "/main.ledger") "rates.ledger") =
      some "/rates.ledger" := by decide +kernel
  have hrates : files.texts.find? "/rates.ledger" = some rates := by decide +kernel
  have hratesRead : (Journal.ofText rates today).faults = [] := by decide +kernel
  have hratesOthers : Journal.IncludesNone (Journal.ofText rates today).directives := by
    decide +kernel
  have hwhole : WholeLines rates.toList := by decide +kernel
  obtain ⟨e, hok, -, -, -, hplain⟩ := ofPath_inPlace hmain htext hread rfl hothers hinner hrates
    hratesRead hratesOthers hwhole
  obtain ⟨hfaults, hvalues⟩ := hplain (by decide +kernel) (by decide +kernel)
  exact ⟨hread, hothers, hratesRead, hratesOthers, hwhole, e, hok, hfaults, hvalues⟩

/-- Where the year that the one file sets is not that of today, the expansion does not say what the
text in place says. -/
theorem dated_differs_inPlace :
    let today : Date := ⟨2024, 6, 1, by decide⟩
    let text := "year 2011\ninclude rates.ledger\n"
    let rates := "P 01/15 EUR 1 USD\n"
    let d : Spanned Directive := ⟨.includeFile "rates.ledger", .line 2⟩
    Journal.ofText text today = ⟨[⟨.year 2011, .line 1⟩, d], []⟩ ∧
    (Journal.ofText rates today).faults = [] ∧
    Journal.IncludesNone (Journal.ofText rates today).directives ∧
    rates.toList.getLast? = some '\n' ∧
    ∃ e, (outcome (ofPath (ratesBeside text rates).files today "main.ledger") .none).1 = .ok e ∧
      Journal.values e.directives ≠
        Journal.values (Journal.ofText (Journal.inPlaceOf d text rates) today).directives := by
  intro today text rates d
  refine ⟨by decide +kernel, by decide +kernel, by decide +kernel, by decide +kernel, ?_⟩
  have hdiffers : ∃ e ∈ (outcome (ofPath (ratesBeside text rates).files today
      "main.ledger") .none).1.toOption, Journal.values e.directives ≠
        Journal.values (Journal.ofText (Journal.inPlaceOf d text rates) today).directives := by
    decide +kernel
  obtain ⟨e, he, hvalues⟩ := hdiffers
  refine ⟨e, ?_, hvalues⟩
  cases hout : (outcome (ofPath (ratesBeside text rates).files today "main.ledger") .none).1 with
  | error err =>
    rw [hout] at he
    cases he
  | ok e' =>
    rw [hout] at he
    exact congrArg Except.ok (Option.some.inj he)

end Expansion

end Daybook
