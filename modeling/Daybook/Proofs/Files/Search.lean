import Mathlib.Data.List.Perm.Subperm
import Daybook.Proofs.Files.Cycles
import Daybook.Proofs.Files.Settled

/-!
# The search for cycles

An expansion always comes to an end, and reads no file twice. One that ends with an error which is no
cycle was hindered: a file could not be read, had a fault, or included what leads nowhere
(`Fails.hindered`). Main statement: where nothing is in the way, a cycle is reported exactly if one is
reached, and the report shows it (`ofPath_findsCycles`).
-/

namespace Daybook

open Relation

namespace Files

/-- If the file can be read, then it has no faults, and whatever it includes can be read. -/
def Sound (files : Files) (today : Date) (file : String) : Prop :=
  ∀ journal, files.journal? today file = some journal → journal.faults = [] ∧
    ∀ d ∈ journal.directives, ∀ written, d.value = .includeFile written →
      ∃ other, files.target? (Path.directory file) d = some other ∧
        (files.journal? today other).isSome

variable {files : Files} {today : Date} {file other : String}

/-- Whether each directive that includes a file includes one that can be read. -/
def includesReadable (files : Files) (today : Date) (directory : String)
    (ds : List (Spanned Directive)) : Bool :=
  ds.all fun d => match d.value with
    | .includeFile _ => ((files.target? directory d).bind (files.journal? today)).isSome
    | _ => true

theorem includesReadable_iff {directory : String} {ds : List (Spanned Directive)} :
    files.includesReadable today directory ds = true ↔
      ∀ d ∈ ds, ∀ written, d.value = .includeFile written →
        ∃ other, files.target? directory d = some other ∧ (files.journal? today other).isSome := by
  simp only [includesReadable, List.all_eq_true]
  refine forall₂_congr fun d _ => ?_
  cases hvalue : d.value with
  | includeFile written =>
    simp only [Option.isSome_bind, Option.any_eq_true, Directive.includeFile.injEq, forall_eq']
  | _ => simp

instance (files : Files) (today : Date) (file : String) : Decidable (files.Sound today file) :=
  decidable_of_iff ((files.journal? today file).all (fun journal => journal.faults.isEmpty &&
      files.includesReadable today (Path.directory file) journal.directives) = true) (by
    cases hjournal : files.journal? today file with
    | none => simp [Sound, hjournal]
    | some journal => simp [Sound, hjournal, includesReadable_iff])

theorem sound_of_names (h : ∀ file ∈ files.texts.names, files.Sound today file) (file : String) :
    files.Sound today file := by
  intro journal hjournal
  obtain ⟨text, htext, -⟩ := Option.map_eq_some_iff.mp hjournal
  exact h file (List.mem_map_of_mem (NameMap.mem_entries_iff.mpr htext)) journal hjournal

theorem Includes.readable (h : files.Includes today file other) :
    (files.journal? today file).isSome := by
  obtain ⟨k, hk⟩ := h
  simp only [included?, Option.bind_eq_bind, Option.bind_eq_some_iff] at hk
  obtain ⟨journal, hjournal, -⟩ := hk
  simp [hjournal]

theorem Loops.readable (h : files.Loops today file) : (files.journal? today file).isSome := by
  obtain ⟨last, hreach, hcycle⟩ := h
  obtain ⟨next, hfirst, -⟩ := TransGen.head'_iff.mp (TransGen.trans_right hreach hcycle)
  exact hfirst.readable

end Files

namespace Expansion

variable {files : Files} {today : Date} {task : Task} {i j : Inclusions} {e : Expansion}
  {err : LedgerError} {file : String}

/-! ## What is read -/

theorem Expands.known_eq (h : Expands files today task i e j) :
    j.known = e.files.reverse ++ i.known := by
  induction h with
  | known | nil => rfl
  | @opened file i j journal e _ _ _ _ ih =>
    have hleave : j.leave.known = j.known := rfl
    rw [hleave, ih]
    simp [Inclusions.enter]
  | other _ _ ih => exact ih
  | @included _ _ _ _ i j k a e _ _ _ ihfile ihrest =>
    have hfiles : (a ++ e).files = a.files ++ e.files := rfl
    rw [ihrest, ihfile, hfiles, List.reverse_append, List.append_assoc]

/-- All that has been read could be read, and nothing has been read twice. -/
def ReadOnce (files : Files) (i : Inclusions) : Prop :=
  i.known.Nodup ∧ ∀ file ∈ i.known, (files.texts.find? file).isSome

theorem readOnce_none : ReadOnce files .none := ⟨.nil, by simp [Inclusions.none]⟩

theorem ReadOnce.enter (h : ReadOnce files i) (hfresh : i.Fresh file) {journal : Journal}
    (hjournal : files.journal? today file = some journal) : ReadOnce files (i.enter file) := by
  obtain ⟨text, htext, -⟩ := Option.map_eq_some_iff.mp hjournal
  refine ⟨List.nodup_cons.mpr ⟨hfresh.2, h.1⟩, ?_⟩
  intro other hother
  rcases List.mem_cons.mp hother with rfl | hother
  · simp [htext]
  · exact h.2 other hother

theorem Expands.readOnce (h : Expands files today task i e j) (hi : ReadOnce files i) :
    ReadOnce files j := by
  induction h with
  | known | nil => exact hi
  | opened hfresh hjournal _ _ ih => exact ih (hi.enter hfresh hjournal)
  | other _ _ ih => exact ih hi
  | included _ _ _ ihfile ihrest => exact ihrest (ihfile hi)

theorem Fails.readOnce (h : Fails files today task i err j) (hi : ReadOnce files i) :
    ReadOnce files j := by
  induction h with
  | cycle | unreadable | missing => exact hi
  | faulty hfresh hjournal => exact hi.enter hfresh hjournal
  | within hfresh hjournal _ _ ih => exact ih (hi.enter hfresh hjournal)
  | included _ _ ih | other _ _ ih => exact ih hi
  | later _ hfile _ ih => exact ih (hfile.readOnce hi)

theorem ReadOnce.length_le (h : ReadOnce files i) : i.known.length ≤ files.texts.names.length := by
  refine (List.Nodup.subperm h.1 ?_).length_le
  intro file hfile
  obtain ⟨text, htext⟩ := Option.isSome_iff_exists.mp (h.2 file hfile)
  exact List.mem_map_of_mem (NameMap.mem_entries_iff.mpr htext)

/-! ## What is in the way -/

/-- The file cannot be read, or leads to one that is not sound. -/
def Blocked (files : Files) (today : Date) (file : String) : Prop :=
  files.journal? today file = none ∨
    ∃ other, files.Reaches today file other ∧ ¬files.Sound today other

/-- There is something to expand that leads nowhere, or to a file that is blocked. -/
def Hindered (files : Files) (today : Date) : Task → Prop
  | .file name => Blocked files today name
  | .rest directory ds => ∃ d ∈ ds, ∃ written, d.value = .includeFile written ∧
      ∀ file, files.target? directory d = some file → Blocked files today file

theorem Hindered.cons {directory : String} {d : Spanned Directive} {ds : List (Spanned Directive)}
    (h : Hindered files today (.rest directory ds)) :
    Hindered files today (.rest directory (d :: ds)) := by
  obtain ⟨x, hx, hblocked⟩ := h
  exact ⟨x, List.mem_cons_of_mem d hx, hblocked⟩

theorem Hindered.blocked {journal : Journal} (hjournal : files.journal? today file = some journal)
    (h : Hindered files today (.rest (Path.directory file) journal.directives)) :
    Blocked files today file := by
  obtain ⟨d, hd, written, hvalue, hblocked⟩ := h
  refine .inr ?_
  by_cases hsound : files.Sound today file
  · -- The file that the directive includes can be read, so that it leads to the one in the way.
    obtain ⟨other, htarget, hreadable⟩ := (hsound journal hjournal).2 d hd written hvalue
    rcases hblocked other htarget with hnone | ⟨last, hreach, hlast⟩
    · simp [hnone] at hreadable
    · have hincludes := (Files.includes_iff hjournal).mpr ⟨d, hd, htarget⟩
      exact ⟨last, ReflTransGen.head hincludes hreach, hlast⟩
  · exact ⟨file, ReflTransGen.refl, hsound⟩

/-- An expansion fails because of a cycle, or because something is in the way. -/
theorem Fails.hindered (h : Fails files today task i err j)
    (hcycle : ∀ cycle, err ≠ .includeCycle cycle) : Hindered files today task := by
  induction h with
  | cycle => exact absurd rfl (hcycle _)
  | unreadable _ hjournal => exact .inl hjournal
  | @faulty file _ journal _ hjournal hfaults =>
    exact .inr ⟨file, ReflTransGen.refl, fun hsound => hfaults (hsound journal hjournal).1⟩
  | within _ hjournal _ _ ih => exact (ih hcycle).blocked hjournal
  | @missing directory path d ds _ hvalue hlocate =>
    refine ⟨d, List.mem_cons_self, path, hvalue, fun file htarget => ?_⟩
    simp [Files.target?, hvalue, hlocate] at htarget
  | @included directory file d ds _ _ _ htarget _ ih =>
    obtain ⟨written, hvalue, -⟩ := Files.target?_eq_some_iff.mp htarget
    refine ⟨d, List.mem_cons_self, written, hvalue, fun other hother => ?_⟩
    obtain rfl := Option.some.inj (htarget.symm.trans hother)
    exact ih hcycle
  | other _ _ ih | later _ _ _ ih => exact (ih hcycle).cons

theorem Expands.not_loops (h : Expands files today (.file file) .none e j) :
    ¬files.Loops today file := by
  rintro ⟨other, hreach, hcycle⟩
  obtain ⟨hj, hbegun⟩ := h.settled settled_none
  exact hj.acyclic (hj.done_of_reaches (hbegun file rfl) hreach) hcycle

theorem Fails.exists_cycle (h : Fails files today (.file file) .none err j)
    (hsound : ∀ other, files.Reaches today file other → files.Sound today other)
    (hloops : files.Loops today file) : ∃ cycle, err = .includeCycle cycle := by
  by_contra hnone
  push Not at hnone
  rcases h.hindered hnone with hjournal | ⟨other, hreach, hother⟩
  · simpa [hjournal] using hloops.readable
  · exact hother (hsound other hreach)

/-- The cycle that is reported starts with the file that was to be expanded, each of its files
includes the next one, and the last one has been there before. -/
theorem Fails.cycle_eq {cycle : List String}
    (h : Fails files today (.file file) .none (.includeCycle cycle) j) :
    cycle.head? = some file ∧ cycle.IsChain (files.Includes today) ∧
      ∃ before last, cycle = before ++ [last] ∧ last ∈ before := by
  obtain ⟨opened, hchain, -, hcycle⟩ := h.trail
  obtain rfl : j.chain = opened := hchain
  obtain ⟨last, hlast, rfl, htrail⟩ := hcycle cycle rfl
  refine ⟨?_, htrail.1, j.chain, last, rfl, hlast⟩
  cases hhead : (j.chain ++ [last]).head? with
  | none => simp at hhead
  | some first => exact congrArg some (htrail.2 first hhead)

/-- An expansion comes to an end, and each file is read at most once. If every file that is reached
can be read without faults as far as it can be read at all, and includes only what can be read, then
a cycle is reported exactly if one is reached. What is reported starts with the file, each of its
files includes the next, and the last one has been there before. -/
theorem ofPath_findsCycles (files : Files) (today : Date) (path : String) :
    let (result, left) := outcome (ofPath files today path) .none
    ((files.locate path = none ∧ result = .error (.unreadable path)) ∨
      ∃ file, files.locate path = some file ∧
        Results files today (.file file) .none (result, left)) ∧
    ReadOnce files left ∧ left.known.length ≤ files.texts.names.length ∧
    (∀ e, result = .ok e → e.files = left.known.reverse) ∧
    ((∀ file, files.locate path = some file →
        ∀ other, files.Reaches today file other → files.Sound today other) →
      ((∃ cycle, result = .error (.includeCycle cycle)) ↔
        ∃ file, files.locate path = some file ∧ files.Loops today file)) ∧
    ∀ cycle, result = .error (.includeCycle cycle) →
      ∃ file, files.locate path = some file ∧ cycle.head? = some file ∧
        cycle.IsChain (files.Includes today) ∧
        ∃ before last, cycle = before ++ [last] ∧ last ∈ before := by
  cases hlocate : files.locate path with
  | none =>
    have hout : outcome (ofPath files today path) .none = (.error (.unreadable path), .none) := by
      rw [ofPath, outcome_locating, hlocate]
    rw [hout]
    have hnowhere : (∃ cycle, (.error (.unreadable path) : Except LedgerError Expansion) =
        .error (.includeCycle cycle)) ↔ ∃ file, none = some file ∧ files.Loops today file := by
      constructor
      · rintro ⟨cycle, hcycle⟩
        cases hcycle
      · rintro ⟨file, hfile, -⟩
        cases hfile
    refine ⟨.inl ⟨rfl, rfl⟩, readOnce_none, Nat.zero_le _, ?_, fun _ => hnowhere, ?_⟩
    · rintro _ ⟨⟩
    · rintro _ ⟨⟩
  | some file =>
    have hresults := results_ofPath today hlocate .none
    rcases hout : outcome (ofPath files today path) .none with ⟨err | e, left⟩ <;>
      rw [hout] at hresults
    · have hfails : Fails files today (.file file) .none err left := hresults
      have honce := hfails.readOnce readOnce_none
      refine ⟨.inr ⟨file, rfl, hfails⟩, honce, honce.length_le, by rintro _ ⟨⟩, ?_, ?_⟩
      · intro hsound
        constructor
        · rintro ⟨cycle, hcycle⟩
          obtain ⟨other, hother, hloops | ⟨last, hlast, -⟩⟩ :=
            ofPath_cycle (hcycle ▸ hout : outcome _ _ = (.error (.includeCycle cycle), left))
          · exact ⟨other, hlocate ▸ hother, hloops⟩
          · exact absurd hlast List.not_mem_nil
        · rintro ⟨other, hother, hloops⟩
          obtain rfl := Option.some.inj hother
          obtain ⟨cycle, rfl⟩ := hfails.exists_cycle (hsound file rfl) hloops
          exact ⟨cycle, rfl⟩
      · rintro cycle ⟨⟩
        exact ⟨file, rfl, hfails.cycle_eq⟩
    · have hexpands : Expands files today (.file file) .none e left := hresults
      have honce := hexpands.readOnce readOnce_none
      refine ⟨.inr ⟨file, rfl, hexpands⟩, honce, honce.length_le, ?_, ?_, by rintro _ ⟨⟩⟩
      · rintro _ ⟨⟩
        rw [hexpands.known_eq, Inclusions.none, List.append_nil, List.reverse_reverse]
      · intro _
        constructor
        · rintro ⟨cycle, hcycle⟩
          cases hcycle
        · rintro ⟨other, hother, hloops⟩
          obtain rfl := Option.some.inj hother
          exact absurd hloops hexpands.not_loops

/-- Two files that include a third one, which includes the first file again. -/
def ring : Files where
  locate path := if path ∈ ["a", "b", "c", "main"] then some path else none
  texts := (((NameMap.empty.insert "a" "include c\n").insert "b" "include c\n").insert "c"
    "include main\n").insert "main" "include a\ninclude b\n"

theorem ofPath_findsCycles_ring :
    let today : Date := ⟨2024, 1, 1, by decide⟩
    (∀ file, ring.locate "main" = some file →
      ∀ other, ring.Reaches today file other → ring.Sound today other) ∧
    (outcome (ofPath ring today "main") .none).1 =
      .error (.includeCycle ["main", "a", "c", "main"]) ∧
    ∃ file, ring.locate "main" = some file ∧ ring.Loops today file := by
  intro today
  have hsound : ∀ file, ring.Sound today file := Files.sound_of_names (by decide +kernel)
  have hreported : (outcome (ofPath ring today "main") .none).1 =
      .error (.includeCycle ["main", "a", "c", "main"]) := by decide +kernel
  obtain ⟨-, -, -, -, hfound, -⟩ := ofPath_findsCycles ring today "main"
  exact ⟨fun _ _ other _ => hsound other, hreported,
    (hfound fun _ _ other _ => hsound other).mp ⟨_, hreported⟩⟩

/-- A file that includes what is no text, and then itself. -/
def scanned : FileTree :=
  ⟨[(["main.ledger"], "include scan.ledger\ninclude main.ledger\n".toUTF8),
    (["scan.ledger"], ⟨#[255]⟩)]⟩

/-- A file that is there but cannot be read stops the expansion before it comes to a cycle: nothing
that can be read has a fault, and every include leads to a file. -/
theorem scanned_hides_cycle :
    let today : Date := ⟨2024, 1, 1, by decide⟩
    (∀ file journal, scanned.files.journal? today file = some journal → journal.faults = [] ∧
      ∀ d ∈ journal.directives, ∀ written, d.value = .includeFile written →
        (scanned.files.locate (Path.join (Path.directory file) written)).isSome) ∧
    scanned.files.locate "main.ledger" = some "/main.ledger" ∧
    scanned.files.Includes today "/main.ledger" "/main.ledger" ∧
    (outcome (ofPath scanned.files today "main.ledger") .none).1 =
      .error (.unreadable "/scan.ledger") := by
  intro today
  have hmain : scanned.files.journal? today "/main.ledger" =
      some ⟨[⟨.includeFile "scan.ledger", .line 1⟩, ⟨.includeFile "main.ledger", .line 2⟩], []⟩ := by
    decide +kernel
  refine ⟨?_, by decide +kernel, ?_, by decide +kernel⟩
  · intro file journal hjournal
    have hname : file ∈ scanned.files.texts.names := by
      obtain ⟨text, htext, -⟩ := Option.map_eq_some_iff.mp hjournal
      exact List.mem_map_of_mem (NameMap.mem_entries_iff.mpr htext)
    have hnames : scanned.files.texts.names = ["/main.ledger"] := by decide +kernel
    obtain rfl : file = "/main.ledger" := by simpa [hnames] using hname
    obtain rfl := Option.some.inj (hmain.symm.trans hjournal)
    refine ⟨rfl, ?_⟩
    simp only [List.forall_mem_cons, Directive.includeFile.injEq, forall_eq', List.not_mem_nil,
      false_imp_iff, implies_true, and_true]
    exact ⟨by decide +kernel, by decide +kernel⟩
  · refine (Files.includes_iff hmain).mpr ⟨_, List.mem_cons_of_mem _ List.mem_cons_self, ?_⟩
    decide +kernel

end Expansion

end Daybook
