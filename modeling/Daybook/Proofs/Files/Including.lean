import Mathlib.Data.List.Forall2
import Daybook.Proofs.Files.Places
import Daybook.Proofs.Result

/-!
# Files that include others

A file that is being expanded underneath changes nothing for an expansion that does not come to it
(`Expands.under`, `Expands.of_under`). So files that are expanded one after the other give what a
file gives that includes them (`ofPaths_iff_including`). Main statement: what an expansion has, and
in which order (`ofPath_inOrder`).
-/

namespace Daybook

/-- With another file being expanded underneath. -/
def Inclusions.under (i : Inclusions) (top : String) : Inclusions :=
  ⟨i.known ++ [top], top :: i.chain⟩

namespace Expansion

open Relation

variable {files : Files} {today : Date} {task : Task} {i j k : Inclusions} {e : Expansion}
  {file top directory : String} {ds : List (Spanned Directive)}

theorem leave_under (h : j.chain ≠ []) : (j.under top).leave = j.leave.under top := by
  simp [Inclusions.leave, Inclusions.under, List.dropLast_cons_of_ne_nil h]

theorem Expands.under (h : Expands files today task i e j) (htop : top ∉ j.known) :
    Expands files today task (i.under top) e (j.under top) := by
  induction h with
  | @known file i hchain hknown =>
    have hne : file ≠ top := fun heq => htop (heq ▸ hknown)
    exact .known (by simp [Inclusions.under, hne, hchain]) (by simp [Inclusions.under, hknown])
  | @opened file i j journal e hfresh hjournal hfaults hrest ih =>
    have hne : file ≠ top := fun heq => htop (heq ▸ hrest.known_mono List.mem_cons_self)
    have hfresh' : (i.under top).Fresh file := by
      simpa [Inclusions.Fresh, Inclusions.under, hne] using hfresh
    have hchain : j.chain ≠ [] := by simp [hrest.chain_eq, Inclusions.enter]
    rw [← leave_under hchain]
    exact .opened hfresh' hjournal hfaults (ih htop)
  | nil => exact .nil
  | other hvalue _ ih => exact .other hvalue (ih htop)
  | included htarget _ hrest ihfile ihrest =>
    exact .included htarget (ihfile fun hmem => htop (hrest.known_mono hmem)) (ihrest htop)

theorem Expands.of_under (h : Expands files today task (i.under top) e k) (htop : top ∉ i.known) :
    ∃ j, k = j.under top ∧ top ∉ j.known ∧ Expands files today task i e j := by
  generalize hi' : i.under top = i' at h
  induction h generalizing i with
  | @known file _ hchain hknown =>
    subst hi'
    obtain ⟨hne, hchain⟩ : file ≠ top ∧ file ∉ i.chain := by
      simpa [Inclusions.under] using hchain
    have hknown : file ∈ i.known := by simpa [Inclusions.under, hne] using hknown
    exact ⟨i, rfl, htop, .known hchain hknown⟩
  | @opened file _ _ journal e hfresh hjournal hfaults _ ih =>
    subst hi'
    obtain ⟨⟨hne, hchain⟩, hknown, -⟩ : (file ≠ top ∧ file ∉ i.chain) ∧ file ∉ i.known ∧ _ := by
      simpa [Inclusions.Fresh, Inclusions.under] using hfresh
    have hnew : top ∉ (i.enter file).known := by
      simpa [Inclusions.enter, Ne.symm hne] using htop
    obtain ⟨j, rfl, hj, hrest⟩ := ih hnew rfl
    have hnonempty : j.chain ≠ [] := by simp [hrest.chain_eq, Inclusions.enter]
    exact ⟨j.leave, leave_under hnonempty, hj, .opened ⟨hchain, hknown⟩ hjournal hfaults hrest⟩
  | nil =>
    subst hi'
    exact ⟨i, rfl, htop, .nil⟩
  | other hvalue _ ih =>
    obtain ⟨j, rfl, hj, hrest⟩ := ih htop hi'
    exact ⟨j, rfl, hj, .other hvalue hrest⟩
  | included htarget _ _ ihfile ihrest =>
    obtain ⟨m, rfl, hm, hfile⟩ := ihfile htop hi'
    obtain ⟨j, rfl, hj, hrest⟩ := ihrest hm rfl
    exact ⟨j, rfl, hj, .included htarget hfile hrest⟩

/-! ## One after the other -/

/-- The directives of a file in the directory include what the paths lead to, in that order, and
there are no others. -/
def IncludeEach (files : Files) (directory : String) (ds : List (Spanned Directive))
    (paths : List String) : Prop :=
  List.Forall₂ (fun d path => ∃ written, d.value = .includeFile written ∧
    files.locate (Path.join directory written) = files.locate path) ds paths

theorem ofPaths_eq_ok_iff {paths : List String} (h : IncludeEach files directory ds paths) :
    outcome (ofPaths files today paths) i = (.ok e, j) ↔
      Expands files today (.rest directory ds) i e j := by
  unfold IncludeEach at h
  induction h generalizing i e with
  | nil =>
    have hout : outcome (ofPaths files today []) i = (.ok .empty, i) := rfl
    rw [hout]
    constructor
    · intro heq
      cases heq
      exact .nil
    · intro hexpands
      cases hexpands
      rfl
  | @cons d path ds paths hd _ ih =>
    obtain ⟨written, hvalue, hlocate⟩ := hd
    have htarget : ∀ file, files.target? directory d = some file ↔
        files.locate path = some file := by
      simp [Files.target?, hvalue, hlocate]
    rw [ofPaths, outcome_bind]
    constructor
    · intro hout
      rcases hfirst : outcome (ofPath files today path) i with ⟨err | a, m⟩ <;> rw [hfirst] at hout
      · cases hout
      obtain ⟨file, hfile, hexpands⟩ := ofPath_eq_ok_iff.mp hfirst
      simp only [outcome_append] at hout
      rcases hrest : outcome (ofPaths files today paths) m with ⟨err | b, k⟩ <;>
        rw [hrest] at hout
      · cases hout
      cases hout
      exact .included ((htarget file).mpr hfile) hexpands (ih.mp hrest)
    · intro hexpands
      cases hexpands with
      | other hother => exact absurd hvalue (hother written)
      | included hfile hexpands hrest =>
        have hfirst := ofPath_eq_ok_iff.mpr ⟨_, (htarget _).mp hfile, hexpands⟩
        simp only [hfirst, outcome_append, ih.mpr hrest]

theorem Expands.not_mem_known {journal : Journal}
    (hjournal : files.journal? today top = some journal)
    (h : Expands files today (.rest (Path.directory top) journal.directives) .none e j) :
    top ∉ j.known := by
  intro hknown
  obtain ⟨hj, hbegun⟩ := h.settled settled_none
  rcases h.mem_known_iff.mp hknown with hbefore | hopened
  · exact absurd hbefore List.not_mem_nil
  · -- The file would be reached from one that it includes itself, so that this one is in a cycle.
    obtain ⟨first, hfirst, hreach⟩ := h.reaches_of_mem hopened
    have hincludes := (begins_rest_iff hjournal).mp hfirst
    exact hj.acyclic (hbegun first hfirst) (TransGen.tail' hreach hincludes)

/-- Files that are expanded one after the other give what a file gives that includes them. -/
theorem ofPaths_iff_including {path : String} {journal : Journal} {paths : List String}
    (hlocate : files.locate path = some top) (hjournal : files.journal? today top = some journal)
    (hfaults : journal.faults = [])
    (hincludes : IncludeEach files (Path.directory top) journal.directives paths) :
    (outcome (ofPaths files today paths) .none).1 = .ok e ↔
      (outcome (ofPath files today path) .none).1 = .ok ⟨e.directives, top :: e.files⟩ := by
  constructor
  · intro hout
    have hexpands := (ofPaths_eq_ok_iff hincludes).mp (Prod.ext hout rfl)
    have hunder := hexpands.under (hexpands.not_mem_known hjournal)
    have hfresh : Inclusions.none.Fresh top := ⟨List.not_mem_nil, List.not_mem_nil⟩
    have htop := Expands.opened hfresh hjournal hfaults hunder
    exact congrArg Prod.fst (ofPath_eq_ok_iff.mpr ⟨top, hlocate, htop⟩)
  · intro hout
    obtain ⟨left, hrun⟩ : ∃ left, outcome (ofPath files today path) .none =
        (.ok ⟨e.directives, top :: e.files⟩, left) := ⟨_, Prod.ext hout rfl⟩
    obtain ⟨file, hfile, hexpands⟩ := ofPath_eq_ok_iff.mp hrun
    obtain rfl := Option.some.inj (hlocate.symm.trans hfile)
    generalize hwhole : (⟨e.directives, top :: e.files⟩ : Expansion) = whole at hexpands
    cases hexpands with
    | known => exact absurd (congrArg Expansion.files hwhole) (List.cons_ne_nil _ _)
    | @opened _ _ _ journal' inner _ hjournal' _ hrest =>
      obtain rfl := Option.some.inj (hjournal.symm.trans hjournal')
      obtain rfl : e = inner := by
        cases e
        cases inner
        simpa using hwhole
      obtain ⟨j, -, -, hexpands⟩ := hrest.of_under (i := .none) List.not_mem_nil
      exact congrArg Prod.fst ((ofPaths_eq_ok_iff hincludes).mpr hexpands)

/-- An expansion has the files that are reached, each once and in the order of the first places that
lead to them, and the directives of these files that include none, in the order of their places.
Expansions one after the other have what the expansion of a file has that includes what the paths
lead to. -/
theorem ofPath_inOrder (files : Files) (today : Date) :
    (∀ path e, (outcome (ofPath files today path) .none).1 = .ok e →
      ∃ file, files.locate path = some file ∧
        (∀ other, other ∈ e.files ↔ files.Reaches today file other) ∧ e.files.Nodup ∧
        InOrder (FirstTo (files.follow? today file)) e.files ∧
        InOrder (files.StandsAt today file) e.directives ∧
        ∀ d ∈ e.directives, ∀ written, d.value ≠ .includeFile written) ∧
    ∀ path top journal paths, files.locate path = some top →
      files.journal? today top = some journal → journal.faults = [] →
      IncludeEach files (Path.directory top) journal.directives paths →
      ∀ e, (outcome (ofPaths files today paths) .none).1 = .ok e ↔
        (outcome (ofPath files today path) .none).1 = .ok ⟨e.directives, top :: e.files⟩ := by
  refine ⟨?_, ?_⟩
  · intro path e hout
    obtain ⟨file, hlocate, hexpands⟩ := ofPath_eq_ok_iff.mp (Prod.ext hout rfl)
    obtain ⟨hfiles, hdirectives⟩ := hexpands.inOrder settled_none
    have hnew : ∀ place other, FirstTo (files.follow? today file) place other ↔
        New files today .none (.file file) place other :=
      fun place other => (and_iff_right List.not_mem_nil).symm
    have hstands : ∀ place d, files.StandsAt today file place d ↔
        Keeps files today .none (.file file) place d := by
      intro place d
      simp only [Files.StandsAt, Keeps, hnew, own, List.getElem?_nil, reduceCtorEq, and_false,
        exists_false, false_or]
    have hstands' := hdirectives.congr hstands
    have hreaches : ∀ other, other ∈ e.files ↔ files.Reaches today file other := by
      intro other
      have hopened : _ ↔ other ∈ Inclusions.none.known ∨ other ∈ e.files := hexpands.mem_known_iff
      rw [hexpands.mem_known_iff_reaches settled_none] at hopened
      simpa [Inclusions.none] using hopened.symm
    refine ⟨file, hlocate, hreaches, hexpands.nodup_files.1, hfiles.congr hnew, hstands', ?_⟩
    intro d hd
    obtain ⟨place, hplace⟩ := hstands'.exists_of_mem hd
    exact hplace.1
  · intro path top journal paths hlocate hjournal hfaults hincludes e
    exact ofPaths_iff_including hlocate hjournal hfaults hincludes

/-- Two files that include a third one, and two that include both of these, one of them with a
directive between. -/
def shared : Files where
  locate path := if path ∈ ["a", "b", "c", "main", "both"] then some path else none
  texts := ((((NameMap.empty.insert "a" "include c\naccount A\n").insert "b"
    "include c\naccount B\n").insert "c" "account C\n").insert "main"
    "include a\naccount M\ninclude b\n").insert "both" "include a\ninclude b\n"

theorem ofPath_inOrder_shared :
    let today : Date := ⟨2024, 1, 1, by decide⟩
    (∃ e, (outcome (ofPath shared today "main") .none).1 = .ok e ∧
      e.files = ["main", "a", "c", "b"] ∧
      e.directives.map (·.span) = [.line 1, .line 2, .line 2, .line 2] ∧
      InOrder (FirstTo (shared.follow? today "main")) e.files ∧
      InOrder (shared.StandsAt today "main") e.directives) ∧
    ∃ e, (outcome (ofPaths shared today ["a", "b"]) .none).1 = .ok e ∧ e.files = ["a", "c", "b"] ∧
      (outcome (ofPath shared today "both") .none).1 = .ok ⟨e.directives, "both" :: e.files⟩ := by
  intro today
  constructor
  · have hrun : (fun e => (e.files, e.directives.map (·.span))) <$>
        (outcome (ofPath shared today "main") .none).1 =
        .ok (["main", "a", "c", "b"], [.line 1, .line 2, .line 2, .line 2]) := by decide +kernel
    obtain ⟨e, hout, heq⟩ := Result.map_eq_ok_iff.mp hrun
    obtain ⟨hfiles, hspans⟩ := Prod.mk.inj heq
    obtain ⟨file, hlocate, -, -, hinOrder, hstands, -⟩ :=
      (ofPath_inOrder shared today).1 "main" e hout
    have hmain : shared.locate "main" = some "main" := by decide
    obtain rfl := Option.some.inj (hmain.symm.trans hlocate)
    exact ⟨e, hout, hfiles, hspans, hinOrder, hstands⟩
  · have hrun : Expansion.files <$> (outcome (ofPaths shared today ["a", "b"]) .none).1 =
        .ok ["a", "c", "b"] := by decide +kernel
    obtain ⟨e, hout, hfiles⟩ := Result.map_eq_ok_iff.mp hrun
    have hincludes : IncludeEach shared (Path.directory "both")
        (Journal.ofText "include a\ninclude b\n" today).directives ["a", "b"] := by
      have hdirectives : (Journal.ofText "include a\ninclude b\n" today).directives =
          [⟨.includeFile "a", .line 1⟩, ⟨.includeFile "b", .line 2⟩] := by decide +kernel
      rw [hdirectives]
      exact .cons ⟨"a", rfl, by decide⟩ (.cons ⟨"b", rfl, by decide⟩ .nil)
    exact ⟨e, hout, hfiles, ((ofPath_inOrder shared today).2 "both" "both" _ ["a", "b"] (by decide)
      (by decide +kernel) (by decide +kernel) hincludes e).mp hout⟩

end Expansion

end Daybook
