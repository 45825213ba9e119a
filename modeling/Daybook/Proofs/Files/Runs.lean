import Daybook.Files.Expansion
import Daybook.Proofs.NameMap

/-!
# Runs of an expansion

`Expands` says what the expansion of a file, or of the rest of a file's directives, gives and what
it leaves behind; `Fails` says how one comes to an error and what it leaves behind then. Main
statement: every expansion of a file does one or the other (`results_expandFile`), and never two
different things (`Expands.unique`, `Expands.not_fails`).
-/

namespace Daybook

namespace Files

def journal? (files : Files) (today : Date) (file : String) : Option Journal :=
  (files.texts.find? file).map (Journal.ofText · today)

def target? (files : Files) (directory : String) (d : Spanned Directive) : Option String :=
  match d.value with
  | .includeFile path => files.locate (Path.join directory path)
  | _ => none

theorem target?_eq_some_iff {files : Files} {directory : String} {d : Spanned Directive}
    {file : String} :
    files.target? directory d = some file ↔
      ∃ path, d.value = .includeFile path ∧
        files.locate (Path.join directory path) = some file := by
  unfold target?
  split
  case h_1 path hvalue => simp [hvalue]
  case h_2 hvalue => simpa using fun path hpath => absurd hpath (hvalue path)

end Files

namespace Inclusions

/-- Neither being expanded nor read before. -/
def Fresh (i : Inclusions) (file : String) : Prop := file ∉ i.chain ∧ file ∉ i.known

def enter (i : Inclusions) (file : String) : Inclusions := ⟨file :: i.known, i.chain ++ [file]⟩

/-- With the innermost expansion ended. -/
def leave (i : Inclusions) : Inclusions := { i with chain := i.chain.dropLast }

end Inclusions

namespace Expansion

def outcome {α : Type} (step : Expanding α) (i : Inclusions) : Except LedgerError α × Inclusions :=
  step.run.run i

theorem outcome_bind {α β : Type} (step : Expanding α) (next : α → Expanding β) (i : Inclusions) :
    outcome (step >>= next) i = match outcome step i with
      | (.ok a, j) => outcome (next a) j
      | (.error e, j) => (.error e, j) := by
  simp only [outcome, bind, ExceptT.bind, ExceptT.mk, ExceptT.run, StateT.bind, StateT.run]
  rcases step i with ⟨_ | _, j⟩ <;> rfl

/-- What is expanded: a file, or the rest of the directives of a file in a directory. -/
inductive Task where
  | file (name : String)
  | rest (directory : String) (directives : List (Spanned Directive))

/-- The expansion succeeds. -/
inductive Expands (files : Files) (today : Date) :
    Task → Inclusions → Expansion → Inclusions → Prop where
  | known {file : String} {i : Inclusions} (hchain : file ∉ i.chain) (hknown : file ∈ i.known) :
      Expands files today (.file file) i .empty i
  | opened {file : String} {i j : Inclusions} {journal : Journal} {e : Expansion}
      (hfresh : i.Fresh file) (hjournal : files.journal? today file = some journal)
      (hfaults : journal.faults = [])
      (hrest : Expands files today (.rest (Path.directory file) journal.directives) (i.enter file)
        e j) :
      Expands files today (.file file) i ⟨e.directives, file :: e.files⟩ j.leave
  | nil {directory : String} {i : Inclusions} : Expands files today (.rest directory []) i .empty i
  | other {directory : String} {d : Spanned Directive} {ds : List (Spanned Directive)}
      {i j : Inclusions} {e : Expansion} (hvalue : ∀ path, d.value ≠ .includeFile path)
      (hrest : Expands files today (.rest directory ds) i e j) :
      Expands files today (.rest directory (d :: ds)) i (⟨[d], []⟩ ++ e) j
  | included {directory file : String} {d : Spanned Directive} {ds : List (Spanned Directive)}
      {i j k : Inclusions} {a e : Expansion} (htarget : files.target? directory d = some file)
      (hfile : Expands files today (.file file) i a j)
      (hrest : Expands files today (.rest directory ds) j e k) :
      Expands files today (.rest directory (d :: ds)) i (a ++ e) k

/-- The expansion ends with an error. -/
inductive Fails (files : Files) (today : Date) :
    Task → Inclusions → LedgerError → Inclusions → Prop where
  | cycle {file : String} {i : Inclusions} (hchain : file ∈ i.chain) :
      Fails files today (.file file) i (.includeCycle (i.chain ++ [file])) i
  | unreadable {file : String} {i : Inclusions} (hfresh : i.Fresh file)
      (hjournal : files.journal? today file = none) :
      Fails files today (.file file) i (.unreadable file) i
  | faulty {file : String} {i : Inclusions} {journal : Journal} (hfresh : i.Fresh file)
      (hjournal : files.journal? today file = some journal) (hfaults : journal.faults ≠ []) :
      Fails files today (.file file) i (.faults file journal.faults) (i.enter file)
  | within {file : String} {i j : Inclusions} {journal : Journal} {e : LedgerError}
      (hfresh : i.Fresh file) (hjournal : files.journal? today file = some journal)
      (hfaults : journal.faults = [])
      (hrest : Fails files today (.rest (Path.directory file) journal.directives) (i.enter file)
        e j) :
      Fails files today (.file file) i e j
  | missing {directory path : String} {d : Spanned Directive} {ds : List (Spanned Directive)}
      {i : Inclusions} (hvalue : d.value = .includeFile path)
      (hlocate : files.locate (Path.join directory path) = none) :
      Fails files today (.rest directory (d :: ds)) i (.unreadable (Path.join directory path)) i
  | included {directory file : String} {d : Spanned Directive} {ds : List (Spanned Directive)}
      {i j : Inclusions} {e : LedgerError} (htarget : files.target? directory d = some file)
      (hfile : Fails files today (.file file) i e j) :
      Fails files today (.rest directory (d :: ds)) i e j
  | other {directory : String} {d : Spanned Directive} {ds : List (Spanned Directive)}
      {i j : Inclusions} {e : LedgerError} (hvalue : ∀ path, d.value ≠ .includeFile path)
      (hrest : Fails files today (.rest directory ds) i e j) :
      Fails files today (.rest directory (d :: ds)) i e j
  | later {directory file : String} {d : Spanned Directive} {ds : List (Spanned Directive)}
      {i j k : Inclusions} {a : Expansion} {e : LedgerError}
      (htarget : files.target? directory d = some file)
      (hfile : Expands files today (.file file) i a j)
      (hrest : Fails files today (.rest directory ds) j e k) :
      Fails files today (.rest directory (d :: ds)) i e k

variable {files : Files} {today : Date} {task : Task} {i j : Inclusions} {e : Expansion}

/-! ## One thing only -/

theorem not_target_of_other {directory file : String} {d : Spanned Directive}
    (hvalue : ∀ path, d.value ≠ .includeFile path) : files.target? directory d ≠ some file := by
  intro htarget
  obtain ⟨path, hpath, -⟩ := Files.target?_eq_some_iff.mp htarget
  exact hvalue path hpath

theorem Expands.unique (h : Expands files today task i e j) {e' : Expansion} {k : Inclusions}
    (h' : Expands files today task i e' k) : e' = e ∧ k = j := by
  induction h generalizing e' k with
  | known _ hknown =>
    cases h' with
    | known => exact ⟨rfl, rfl⟩
    | opened hfresh => exact absurd hknown hfresh.2
  | opened hfresh hjournal _ _ ih =>
    cases h' with
    | known _ hknown => exact absurd hknown hfresh.2
    | opened _ hjournal' _ hrest =>
      obtain rfl := Option.some.inj (hjournal.symm.trans hjournal')
      obtain ⟨rfl, rfl⟩ := ih hrest
      exact ⟨rfl, rfl⟩
  | nil =>
    cases h'
    exact ⟨rfl, rfl⟩
  | other hvalue _ ih =>
    cases h' with
    | other _ hrest =>
      obtain ⟨rfl, rfl⟩ := ih hrest
      exact ⟨rfl, rfl⟩
    | included htarget => exact absurd htarget (not_target_of_other hvalue)
  | included htarget _ _ ihfile ihrest =>
    cases h' with
    | other hvalue => exact absurd htarget (not_target_of_other hvalue)
    | included htarget' hfile hrest =>
      obtain rfl := Option.some.inj (htarget.symm.trans htarget')
      obtain ⟨rfl, rfl⟩ := ihfile hfile
      obtain ⟨rfl, rfl⟩ := ihrest hrest
      exact ⟨rfl, rfl⟩

theorem Expands.not_fails (h : Expands files today task i e j) {err : LedgerError}
    {k : Inclusions} : ¬Fails files today task i err k := by
  intro hfails
  induction h generalizing k with
  | known hchain hknown =>
    cases hfails with
    | cycle hchain' => exact hchain hchain'
    | unreadable hfresh | faulty hfresh | within hfresh => exact hfresh.2 hknown
  | opened hfresh hjournal hfaults _ ih =>
    cases hfails with
    | cycle hchain => exact hfresh.1 hchain
    | unreadable _ hjournal' => exact absurd (hjournal.symm.trans hjournal') nofun
    | faulty _ hjournal' hfaults' =>
      obtain rfl := Option.some.inj (hjournal.symm.trans hjournal')
      exact hfaults' hfaults
    | within _ hjournal' _ hrest =>
      obtain rfl := Option.some.inj (hjournal.symm.trans hjournal')
      exact ih hrest
  | nil => cases hfails
  | other hvalue _ ih =>
    cases hfails with
    | missing hpath => exact hvalue _ hpath
    | included htarget | later htarget => exact not_target_of_other hvalue htarget
    | other _ hrest => exact ih hrest
  | included htarget hfile _ ihfile ihrest =>
    cases hfails with
    | missing hpath hlocate =>
      obtain ⟨path, hpath', hlocate'⟩ := Files.target?_eq_some_iff.mp htarget
      obtain rfl := Directive.includeFile.inj (hpath.symm.trans hpath')
      exact absurd (hlocate.symm.trans hlocate') nofun
    | included htarget' hfails =>
      obtain rfl := Option.some.inj (htarget.symm.trans htarget')
      exact ihfile hfails
    | other hvalue => exact not_target_of_other hvalue htarget
    | later htarget' hfile' hrest =>
      obtain rfl := Option.some.inj (htarget.symm.trans htarget')
      obtain ⟨-, rfl⟩ := hfile.unique hfile'
      exact ihrest hrest

/-! ## What an expansion comes to -/

/-- What is said of the task by what it results in. -/
def Results (files : Files) (today : Date) (task : Task) (i : Inclusions) :
    Except LedgerError Expansion × Inclusions → Prop
  | (.ok e, j) => Expands files today task i e j
  | (.error e, j) => Fails files today task i e j

theorem Expands.chain_eq (h : Expands files today task i e j) : j.chain = i.chain := by
  induction h with
  | known | nil => rfl
  | opened _ _ _ _ ih => simp [Inclusions.leave, ih, Inclusions.enter]
  | other _ _ ih => exact ih
  | included _ _ _ ihfile ihrest => exact ihrest.trans ihfile

/-- Whatever can be read and is not being expanded is still unopened. -/
def Covers (files : Files) (today : Date) (unopened : List String) (chain : List String) : Prop :=
  ∀ file journal, files.journal? today file = some journal → file ∉ chain → file ∈ unopened

theorem Covers.erase {unopened chain : List String} (h : Covers files today unopened chain)
    (file : String) : Covers files today (unopened.erase file) (chain ++ [file]) := by
  intro other journal hjournal hchain
  obtain ⟨hchain, hne⟩ : other ∉ chain ∧ other ≠ file := by simpa using hchain
  exact (List.mem_erase_of_ne hne).mpr (h other journal hjournal hchain)

theorem outcome_locating {expand : String → Expanding Expansion} {path : String} :
    outcome (locating files path expand) i = match files.locate path with
      | some file => outcome (expand file) i
      | none => (.error (.unreadable path), i) := by
  unfold locating
  cases files.locate path with
  | none => rfl
  | some file => rfl

theorem outcome_append (a : Expansion) (step : Expanding Expansion) :
    outcome (do return a ++ (← step)) i = match outcome step i with
      | (.ok e, j) => (.ok (a ++ e), j)
      | (.error e, j) => (.error e, j) := by
  rw [outcome_bind]
  rcases outcome step i with ⟨_ | _, _⟩ <;> rfl

theorem results_expandAll {expand : String → Expanding Expansion} {chain : List String}
    (hexpand : ∀ file i, i.chain = chain →
      Results files today (.file file) i (outcome (expand file) i))
    (directory : String) (ds : List (Spanned Directive)) : ∀ i : Inclusions, i.chain = chain →
      Results files today (.rest directory ds) i
        (outcome (expandAll files directory expand ds) i) := by
  induction ds with
  | nil => exact fun i _ => .nil
  | cons d ds ih =>
    intro i hi
    rw [expandAll]
    split
    case h_1 path hvalue =>
      rw [outcome_bind, outcome_locating]
      cases hlocate : files.locate (Path.join directory path) with
      | none => exact .missing hvalue hlocate
      | some file =>
        have htarget := Files.target?_eq_some_iff.mpr ⟨path, hvalue, hlocate⟩
        have hfile := hexpand file i hi
        rcases hout : outcome (expand file) i with ⟨err | a, j⟩ <;> rw [hout] at hfile
        · simp only [hout]
          exact .included htarget hfile
        · have hrest := ih j (hfile.chain_eq.trans hi)
          simp only [hout, outcome_append]
          rcases hout' : outcome (expandAll files directory expand ds) j with ⟨err | e, k⟩ <;>
            rw [hout'] at hrest
          · exact .later htarget hfile hrest
          · exact .included htarget hfile hrest
    case h_2 hvalue =>
      have hrest := ih i hi
      rw [pure_bind, outcome_append]
      rcases hout : outcome (expandAll files directory expand ds) i with ⟨err | e, j⟩ <;>
        rw [hout] at hrest
      · exact .other hvalue hrest
      · exact .other hvalue hrest

theorem outcome_get_bind {β : Type} (next : Inclusions → Expanding β) :
    outcome (get >>= next) i = outcome (next i) i := by
  rw [outcome_bind]
  rfl

theorem outcome_expandFile_chain {unopened : List String} {file : String} (h : file ∈ i.chain) :
    outcome (expandFile files today unopened file) i =
      (.error (.includeCycle (i.chain ++ [file])), i) := by
  rw [expandFile, outcome_get_bind, if_pos (by simpa using h)]
  rfl

theorem outcome_expandFile_known {unopened : List String} {file : String} (hchain : file ∉ i.chain)
    (hknown : file ∈ i.known) :
    outcome (expandFile files today unopened file) i = (.ok .empty, i) := by
  rw [expandFile, outcome_get_bind, if_neg (by simpa using hchain)]
  dsimp only
  rw [if_pos (by simpa using hknown)]
  rfl

theorem outcome_expandFile_unreadable {unopened : List String} {file : String}
    (hfresh : i.Fresh file) (hjournal : files.journal? today file = none) :
    outcome (expandFile files today unopened file) i = (.error (.unreadable file), i) := by
  have htext : files.texts.find? file = none := Option.map_eq_none_iff.mp hjournal
  rw [expandFile, outcome_get_bind, if_neg (by simpa using hfresh.1)]
  dsimp only
  rw [if_neg (by simpa using hfresh.2)]
  split
  · rw [htext]
    rfl
  · rfl

theorem outcome_expandFile_fresh {unopened : List String} {file : String} {journal : Journal}
    (hfresh : i.Fresh file) (hmem : file ∈ unopened)
    (hjournal : files.journal? today file = some journal) :
    outcome (expandFile files today unopened file) i =
      if journal.faults = [] then
        match outcome (expandAll files (Path.directory file)
          (expandFile files today (unopened.erase file)) journal.directives) (i.enter file) with
        | (.ok e, j) => (.ok ⟨e.directives, file :: e.files⟩, j.leave)
        | (.error e, j) => (.error e, j)
      else (.error (.faults file journal.faults), i.enter file) := by
  obtain ⟨text, htext, rfl⟩ := Option.map_eq_some_iff.mp hjournal
  rw [expandFile, outcome_get_bind, if_neg (by simpa using hfresh.1)]
  dsimp only
  rw [if_neg (by simpa using hfresh.2), dif_pos hmem, htext]
  have henter : outcome (enter file) i = (.ok (), i.enter file) := rfl
  simp only [outcome_bind, henter]
  by_cases hfaults : (Journal.ofText text today).faults = []
  · rw [if_pos hfaults, if_neg (by simp [hfaults]), outcome_bind]
    rcases outcome _ (i.enter file) with ⟨_ | _, _⟩ <;> rfl
  · rw [if_neg hfaults, if_pos (by simpa using hfaults)]
    rfl

theorem results_expandFile {unopened : List String} (file : String) (i : Inclusions)
    (h : Covers files today unopened i.chain) :
    Results files today (.file file) i (outcome (expandFile files today unopened file) i) := by
  -- A file that is entered is no longer unopened, so that there are fewer at each depth.
  induction hn : unopened.length using Nat.strongRecOn generalizing unopened file i with
  | ind n ih =>
    by_cases hchain : file ∈ i.chain
    · rw [outcome_expandFile_chain hchain]
      exact .cycle hchain
    by_cases hknown : file ∈ i.known
    · rw [outcome_expandFile_known hchain hknown]
      exact .known hchain hknown
    have hfresh : i.Fresh file := ⟨hchain, hknown⟩
    cases hjournal : files.journal? today file with
    | none =>
      rw [outcome_expandFile_unreadable hfresh hjournal]
      exact .unreadable hfresh hjournal
    | some journal =>
      have hmem : file ∈ unopened := h file journal hjournal hchain
      rw [outcome_expandFile_fresh hfresh hmem hjournal]
      by_cases hfaults : journal.faults = []
      · have hrest := results_expandAll (fun other j hj =>
          ih _ (hn ▸ length_erase_lt hmem) other j (hj ▸ h.erase file) rfl)
          (Path.directory file) journal.directives (i.enter file) rfl
        rw [if_pos hfaults]
        rcases hout : outcome (expandAll files (Path.directory file)
          (expandFile files today (unopened.erase file)) journal.directives) (i.enter file)
          with ⟨err | e, j⟩ <;> rw [hout] at hrest
        · exact .within hfresh hjournal hfaults hrest
        · exact .opened hfresh hjournal hfaults hrest
      · rw [if_neg hfaults]
        exact .faulty hfresh hjournal hfaults

theorem covers_names (chain : List String) : Covers files today files.texts.names chain := by
  intro file journal hjournal _
  obtain ⟨text, htext, -⟩ := Option.map_eq_some_iff.mp hjournal
  exact List.mem_map_of_mem (NameMap.mem_entries_iff.mpr htext)

theorem results_ofPath (today : Date) {path file : String} (hlocate : files.locate path = some file)
    (i : Inclusions) :
    Results files today (.file file) i (outcome (ofPath files today path) i) := by
  rw [ofPath, outcome_locating, hlocate]
  exact results_expandFile file i (covers_names i.chain)

theorem ofPath_eq_ok_iff {path : String} :
    outcome (ofPath files today path) i = (.ok e, j) ↔
      ∃ file, files.locate path = some file ∧ Expands files today (.file file) i e j := by
  cases hlocate : files.locate path with
  | none => simp [ofPath, outcome_locating, hlocate]
  | some file =>
    have hresults := results_ofPath today hlocate i
    simp only [Option.some.injEq, exists_eq_left']
    constructor
    · intro hout
      rwa [hout] at hresults
    · intro hexpands
      rcases hout : outcome (ofPath files today path) i with ⟨err | a, k⟩ <;> rw [hout] at hresults
      · exact absurd hresults hexpands.not_fails
      · obtain ⟨rfl, rfl⟩ := hexpands.unique hresults
        rfl

theorem ofPath_fails {path : String} {err : LedgerError}
    (h : outcome (ofPath files today path) i = (.error err, j)) :
    (files.locate path = none ∧ err = .unreadable path ∧ j = i) ∨
      ∃ file, files.locate path = some file ∧ Fails files today (.file file) i err j := by
  cases hlocate : files.locate path with
  | none =>
    rw [ofPath, outcome_locating, hlocate] at h
    obtain ⟨herr, rfl⟩ := Prod.mk.inj h
    exact .inl ⟨rfl, (Except.error.inj herr).symm, rfl⟩
  | some file =>
    have hresults := results_ofPath today hlocate i
    rw [h] at hresults
    exact .inr ⟨file, rfl, hresults⟩

end Expansion

end Daybook
