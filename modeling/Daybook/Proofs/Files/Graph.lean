import Mathlib.Logic.Relation
import Daybook.Proofs.Files.Runs

/-!
# What includes what

The graph of the files: which file includes which (`Includes`), which ones it reaches, and whether
it leads into a cycle (`Loops`). A place is the list of the positions of the directives that are
followed from a file; a file reaches another exactly if a place leads there
(`reaches_iff_follow?`).
-/

namespace Daybook.Files

open Relation

/-- Some path leads to the file. -/
def Located (files : Files) (file : String) : Prop := ∃ path, files.locate path = some file

def included? (files : Files) (today : Date) (file : String) (k : Nat) : Option String := do
  let journal ← files.journal? today file
  let d ← journal.directives[k]?
  files.target? (Path.directory file) d

def Includes (files : Files) (today : Date) (file other : String) : Prop :=
  ∃ k, files.included? today file k = some other

/-- The other file is the file itself, one that it includes, one that such a one includes, or so
on. -/
def Reaches (files : Files) (today : Date) : String → String → Prop :=
  ReflTransGen (files.Includes today)

/-- The file leads to one that includes itself, directly or through others. -/
def Loops (files : Files) (today : Date) (file : String) : Prop :=
  ∃ other, files.Reaches today file other ∧ TransGen (files.Includes today) other other

/-- The file that is reached from a file by the directives at the positions, each of them in the
file that the one before includes. -/
def follow? (files : Files) (today : Date) (file : String) : List Nat → Option String
  | [] => some file
  | k :: place => (files.included? today file k).bind fun other => files.follow? today other place

variable {files : Files} {today : Date} {file other : String} {journal : Journal}

theorem included?_eq_some_iff (hjournal : files.journal? today file = some journal) {k : Nat} :
    files.included? today file k = some other ↔
      ∃ d, journal.directives[k]? = some d ∧
        files.target? (Path.directory file) d = some other := by
  simp only [included?, hjournal, Option.bind_eq_bind, Option.bind_some, Option.bind_eq_some_iff]

theorem includes_iff (hjournal : files.journal? today file = some journal) :
    files.Includes today file other ↔
      ∃ d ∈ journal.directives, files.target? (Path.directory file) d = some other := by
  simp only [Includes, included?_eq_some_iff hjournal, List.mem_iff_getElem?]
  constructor
  · rintro ⟨k, d, hd, htarget⟩
    exact ⟨d, ⟨k, hd⟩, htarget⟩
  · rintro ⟨d, ⟨k, hd⟩, htarget⟩
    exact ⟨k, d, hd, htarget⟩

theorem Includes.located (h : files.Includes today file other) : files.Located other := by
  obtain ⟨k, hk⟩ := h
  simp only [included?, Option.bind_eq_bind, Option.bind_eq_some_iff] at hk
  obtain ⟨-, -, d, -, htarget⟩ := hk
  obtain ⟨path, -, hlocate⟩ := target?_eq_some_iff.mp htarget
  exact ⟨_, hlocate⟩

theorem Loops.of_reaches (h : files.Loops today other) (hreach : files.Reaches today file other) :
    files.Loops today file := by
  obtain ⟨last, hlast, hcycle⟩ := h
  exact ⟨last, ReflTransGen.trans hreach hlast, hcycle⟩

theorem reaches_iff_follow? :
    files.Reaches today file other ↔ ∃ place, files.follow? today file place = some other := by
  constructor
  · intro h
    induction h using ReflTransGen.head_induction_on with
    | refl => exact ⟨[], rfl⟩
    | head hfirst _ ih =>
      obtain ⟨k, hk⟩ := hfirst
      obtain ⟨place, hplace⟩ := ih
      refine ⟨k :: place, ?_⟩
      rw [follow?, hk]
      exact hplace
  · rintro ⟨place, hplace⟩
    induction place generalizing file with
    | nil =>
      obtain rfl := Option.some.inj hplace
      exact ReflTransGen.refl
    | cons k place ih =>
      obtain ⟨next, hk, hnext⟩ := Option.bind_eq_some_iff.mp hplace
      exact ReflTransGen.head ⟨k, hk⟩ (ih hnext)

end Daybook.Files

namespace Daybook.Expansion

/-- The file is the first to be expanded, or one of those that the directives include. -/
def Begins (files : Files) : Task → String → Prop
  | .file name, file => file = name
  | .rest directory ds, file => ∃ d ∈ ds, files.target? directory d = some file

variable {files : Files} {today : Date} {file directory : String} {d : Spanned Directive}
  {ds : List (Spanned Directive)}

theorem begins_cons_iff : Begins files (.rest directory (d :: ds)) file ↔
    files.target? directory d = some file ∨ Begins files (.rest directory ds) file := by
  simp [Begins]

theorem begins_rest_iff {journal : Journal} {other : String}
    (hjournal : files.journal? today file = some journal) :
    Begins files (.rest (Path.directory file) journal.directives) other ↔
      files.Includes today file other :=
  (Files.includes_iff hjournal).symm

end Daybook.Expansion
