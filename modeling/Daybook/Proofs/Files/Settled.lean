import Daybook.Proofs.Files.Graph

/-!
# Settled files

What has been read and is not being expanded any more is settled: whatever it includes is settled
too, and it is in no cycle. An expansion that succeeds keeps this, and settles the files that it
begins with (`Expands.settled`). So the expansion of a file opens what the file reaches and was not
read before (`Expands.mem_known_iff_reaches`).
-/

namespace Daybook

open Relation

/-- The file has been read, and is not being expanded. -/
def Inclusions.Done (i : Inclusions) (file : String) : Prop := file ∈ i.known ∧ file ∉ i.chain

namespace Expansion

/-- What is done includes only what is done, and is in no cycle. -/
structure Settled (files : Files) (today : Date) (i : Inclusions) : Prop where
  closed : ∀ {file other}, i.Done file → files.Includes today file other → i.Done other
  acyclic : ∀ {file}, i.Done file → ¬TransGen (files.Includes today) file file

variable {files : Files} {today : Date} {task : Task} {i j : Inclusions} {e : Expansion}
  {file other : String}

theorem settled_none : Settled files today .none where
  closed h := absurd h.1 List.not_mem_nil
  acyclic h := absurd h.1 List.not_mem_nil

theorem Settled.done_of_reaches (h : Settled files today i) (hfile : i.Done file)
    (hreach : files.Reaches today file other) : i.Done other := by
  induction hreach with
  | refl => exact hfile
  | tail _ hlast ih => exact h.closed ih hlast

theorem Settled.enter (h : Settled files today i) (hfresh : i.Fresh file) :
    Settled files today (i.enter file) := by
  have hdone : ∀ other, (i.enter file).Done other ↔ i.Done other := by
    intro other
    by_cases heq : other = file
    · simp [heq, Inclusions.Done, Inclusions.enter, hfresh.2]
    · simp [heq, Inclusions.Done, Inclusions.enter]
  constructor
  · intro other next hother hincludes
    exact (hdone next).mpr (h.closed ((hdone other).mp hother) hincludes)
  · intro other hother
    exact h.acyclic ((hdone other).mp hother)

theorem Settled.leave (h : Settled files today j) (hchain : j.chain = i.chain ++ [file])
    (hincluded : ∀ other, files.Includes today file other → j.Done other) :
    Settled files today j.leave := by
  have hleave : j.leave.chain = i.chain := by simp [Inclusions.leave, hchain]
  have hdone : ∀ {other}, j.Done other → j.leave.Done other := by
    intro other hother
    refine ⟨hother.1, ?_⟩
    rw [hleave]
    exact fun hmem => hother.2 (by simp [hchain, hmem])
  have hcases : ∀ {other}, j.leave.Done other → other = file ∨ j.Done other := by
    intro other hother
    by_cases heq : other = file
    · exact .inl heq
    · refine .inr ⟨hother.1, ?_⟩
      have hnot : other ∉ i.chain := hleave ▸ hother.2
      simp [hchain, hnot, heq]
  constructor
  · intro other next hother hincludes
    rcases hcases hother with rfl | hother
    · exact hdone (hincluded next hincludes)
    · exact hdone (h.closed hother hincludes)
  · intro other hother hcycle
    rcases hcases hother with rfl | hother
    · -- A cycle through the file would lead back from what it includes, which is done, to the file,
      -- which is on the chain.
      obtain ⟨next, hnext, hback⟩ := TransGen.head'_iff.mp hcycle
      exact (h.done_of_reaches (hincluded next hnext) hback).2 (by simp [hchain])
    · exact h.acyclic hother hcycle

theorem Expands.known_mono (h : Expands files today task i e j) (hfile : file ∈ i.known) :
    file ∈ j.known := by
  induction h with
  | known | nil => exact hfile
  | opened _ _ _ _ ih => exact ih (List.mem_cons_of_mem _ hfile)
  | other _ _ ih => exact ih hfile
  | included _ _ _ ihfile ihrest => exact ihrest (ihfile hfile)

theorem Expands.settled (h : Expands files today task i e j) (hi : Settled files today i) :
    Settled files today j ∧ ∀ file, Begins files task file → j.Done file := by
  induction h with
  | known hchain hknown =>
    refine ⟨hi, ?_⟩
    rintro file rfl
    exact ⟨hknown, hchain⟩
  | @opened file i j journal e hfresh hjournal _ hrest ih =>
    obtain ⟨hj, hbegun⟩ := ih (hi.enter hfresh)
    have hchain : j.chain = i.chain ++ [file] := hrest.chain_eq
    have hincluded : ∀ other, files.Includes today file other → j.Done other :=
      fun other hother => hbegun other ((begins_rest_iff hjournal).mpr hother)
    refine ⟨hj.leave hchain hincluded, ?_⟩
    rintro other rfl
    refine ⟨hrest.known_mono List.mem_cons_self, ?_⟩
    simpa [Inclusions.leave, hchain] using hfresh.1
  | nil => exact ⟨hi, by simp [Begins]⟩
  | other hvalue _ ih =>
    obtain ⟨hj, hbegun⟩ := ih hi
    refine ⟨hj, fun file hfile => ?_⟩
    rcases begins_cons_iff.mp hfile with htarget | hfile
    · exact absurd htarget (not_target_of_other hvalue)
    · exact hbegun file hfile
  | included htarget _ hrest ihfile ihrest =>
    obtain ⟨hj, hfirst⟩ := ihfile hi
    obtain ⟨hk, hbegun⟩ := ihrest hj
    refine ⟨hk, fun file hfile => ?_⟩
    rcases begins_cons_iff.mp hfile with htarget' | hfile
    · have hdone := hfirst file (Option.some.inj (htarget'.symm.trans htarget))
      exact ⟨hrest.known_mono hdone.1, hrest.chain_eq ▸ hdone.2⟩
    · exact hbegun file hfile

/-! ## Which files are opened -/

theorem Expands.mem_known_iff (h : Expands files today task i e j) :
    file ∈ j.known ↔ file ∈ i.known ∨ file ∈ e.files := by
  induction h with
  | known | nil => simp [empty]
  | @opened other i j journal e _ _ _ _ ih =>
    have hleave : j.leave.known = j.known := rfl
    rw [hleave, ih]
    simp [Inclusions.enter, or_assoc, or_left_comm]
  | other _ _ ih => exact ih
  | included _ _ _ ihfile ihrest =>
    rw [ihrest, ihfile, or_assoc]
    exact or_congr_right List.mem_append.symm

theorem Expands.nodup_files (h : Expands files today task i e j) :
    e.files.Nodup ∧ ∀ file ∈ e.files, file ∉ i.known := by
  induction h with
  | known | nil => simp [empty]
  | @opened file i j journal e hfresh _ _ _ ih =>
    obtain ⟨hnodup, hnew⟩ := ih
    constructor
    · exact List.nodup_cons.mpr ⟨fun hmem => hnew file hmem List.mem_cons_self, hnodup⟩
    · intro other hother
      rcases List.mem_cons.mp hother with rfl | hother
      · exact hfresh.2
      · exact fun hknown => hnew other hother (List.mem_cons_of_mem _ hknown)
  | other _ _ ih => exact ih
  | included _ hfile _ ihfile ihrest =>
    obtain ⟨hnodup, hnew⟩ := ihfile
    obtain ⟨hnodup', hnew'⟩ := ihrest
    constructor
    · refine List.nodup_append.mpr ⟨hnodup, hnodup', ?_⟩
      rintro file hfirst _ hrest rfl
      exact hnew' file hrest (hfile.mem_known_iff.mpr (.inr hfirst))
    · intro file hmem
      rcases List.mem_append.mp hmem with hmem | hmem
      · exact hnew file hmem
      · exact fun hknown => hnew' file hmem (hfile.known_mono hknown)

theorem Expands.reaches_of_mem (h : Expands files today task i e j) (hfile : file ∈ e.files) :
    ∃ first, Begins files task first ∧ files.Reaches today first file := by
  induction h with
  | known | nil => simp [empty] at hfile
  | @opened other i j journal e _ hjournal _ _ ih =>
    refine ⟨other, rfl, ?_⟩
    rcases List.mem_cons.mp hfile with rfl | hfile
    · exact ReflTransGen.refl
    · obtain ⟨first, hfirst, hreach⟩ := ih hfile
      exact ReflTransGen.head ((begins_rest_iff hjournal).mp hfirst) hreach
  | other _ _ ih =>
    obtain ⟨first, hfirst, hreach⟩ := ih hfile
    exact ⟨first, begins_cons_iff.mpr (.inr hfirst), hreach⟩
  | included htarget _ _ ihfile ihrest =>
    rcases List.mem_append.mp hfile with hfile | hfile
    · obtain ⟨first, rfl, hreach⟩ := ihfile hfile
      exact ⟨_, begins_cons_iff.mpr (.inl htarget), hreach⟩
    · obtain ⟨first, hfirst, hreach⟩ := ihrest hfile
      exact ⟨first, begins_cons_iff.mpr (.inr hfirst), hreach⟩

theorem Expands.mem_known_iff_reaches {first : String}
    (h : Expands files today (.file first) i e j) (hi : Settled files today i) :
    file ∈ j.known ↔ file ∈ i.known ∨ files.Reaches today first file := by
  constructor
  · intro hfile
    rcases h.mem_known_iff.mp hfile with hbefore | hopened
    · exact .inl hbefore
    · obtain ⟨other, rfl, hreach⟩ := h.reaches_of_mem hopened
      exact .inr hreach
  · intro hfile
    rcases hfile with hbefore | hreach
    · exact h.known_mono hbefore
    · obtain ⟨hj, hbegun⟩ := h.settled hi
      exact (hj.done_of_reaches (hbegun first rfl) hreach).1

end Expansion

end Daybook
