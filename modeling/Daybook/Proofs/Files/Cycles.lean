import Mathlib.Data.List.Chain
import Daybook.Proofs.Files.Graph

/-!
# Include cycles

Where the expansion of a file fails, the files that are being expanded are those from before, and
behind them a trail: files each of which includes the next (`Fails.trail`). They stay on the chain,
and later expansions take them for files that are still being expanded. Main statement: which
failures leave some, and when a later expansion may report a cycle that there is not
(`attempts_leave`).
-/

namespace Daybook.Expansion

open Relation

variable {files : Files} {today : Date} {task : Task} {i j : Inclusions} {e : LedgerError}
  {file : String}

/-! ## Trails -/

/-- Files each of which includes the next, from one that the task begins with. -/
def Trail (files : Files) (today : Date) (task : Task) (l : List String) : Prop :=
  l.IsChain (files.Includes today) ∧ ∀ file ∈ l.head?, Begins files task file

theorem trail_nil : Trail files today task [] := ⟨.nil, by simp⟩

theorem trail_singleton (file : String) : Trail files today (.file file) [file] :=
  ⟨.singleton file, by simp [Begins]⟩

theorem Trail.of_begins {task' : Task} {l : List String} (h : Trail files today task l)
    (hbegins : ∀ file, Begins files task file → Begins files task' file) :
    Trail files today task' l :=
  ⟨h.1, fun file hfile => hbegins file (h.2 file hfile)⟩

theorem Trail.cons {journal : Journal} (hjournal : files.journal? today file = some journal)
    {l : List String} (h : Trail files today (.rest (Path.directory file) journal.directives) l) :
    Trail files today (.file file) (file :: l) := by
  refine ⟨List.isChain_cons.mpr ⟨?_, h.1⟩, by simp [Begins]⟩
  intro other hother
  exact (begins_rest_iff hjournal).mp (h.2 other hother)

theorem Trail.reaches {l : List String} (h : Trail files today (.file file) l) {other : String}
    (hother : other ∈ l) : files.Reaches today file other := by
  cases l with
  | nil => cases hother
  | cons first rest =>
    obtain rfl : first = file := h.2 first rfl
    rcases List.mem_cons.mp hother with rfl | hother
    · exact ReflTransGen.refl
    · have hpairwise := List.isChain_iff_pairwise.mp (h.1.imp fun _ _ => TransGen.single)
      exact ((List.pairwise_cons.mp hpairwise).1 other hother).to_reflTransGen

theorem Trail.cycle {l : List String} (h : Trail files today task (l ++ [file]))
    (hfile : file ∈ l) : TransGen (files.Includes today) file file := by
  have hpairwise := List.isChain_iff_pairwise.mp (h.1.imp fun _ _ => TransGen.single)
  exact (List.pairwise_append.mp hpairwise).2.2 file hfile file (List.mem_singleton_self file)

theorem Trail.located {l : List String} (h : Trail files today task l)
    (hbegins : ∀ file, Begins files task file → files.Located file) :
    ∀ file ∈ l, files.Located file := by
  have hhead : ∀ file ∈ l.head?, files.Located file :=
    fun file hfile => hbegins file (h.2 file hfile)
  replace h := h.1
  induction l with
  | nil => simp
  | cons first rest ih =>
    obtain ⟨hnext, hrest⟩ := List.isChain_cons.mp h
    intro file hfile
    rcases List.mem_cons.mp hfile with rfl | hfile
    · exact hhead file rfl
    · exact ih (fun next hmem => (hnext next hmem).located) hrest file hfile

/-! ## What a failure leaves -/

/-- A trail is left behind the files of before. If a cycle was found, the trail goes on to a file
that is on the chain already. -/
def LeavesTrail (files : Files) (today : Date) (task : Task) (i : Inclusions) (e : LedgerError)
    (j : Inclusions) : Prop :=
  ∃ opened, j.chain = i.chain ++ opened ∧ Trail files today task opened ∧
    ∀ cycle, e = .includeCycle cycle → ∃ file ∈ j.chain, cycle = j.chain ++ [file] ∧
      Trail files today task (opened ++ [file])

theorem LeavesTrail.of_begins {task' : Task} {i' : Inclusions}
    (h : LeavesTrail files today task i' e j) (hchain : i'.chain = i.chain)
    (hbegins : ∀ file, Begins files task file → Begins files task' file) :
    LeavesTrail files today task' i e j := by
  obtain ⟨opened, hopened, htrail, hcycle⟩ := h
  refine ⟨opened, hchain ▸ hopened, htrail.of_begins hbegins, ?_⟩
  intro cycle he
  obtain ⟨file, hfile, heq, htrail⟩ := hcycle cycle he
  exact ⟨file, hfile, heq, htrail.of_begins hbegins⟩

theorem Fails.trail (h : Fails files today task i e j) : LeavesTrail files today task i e j := by
  induction h with
  | @cycle file i hchain =>
    refine ⟨[], (List.append_nil _).symm, trail_nil, ?_⟩
    rintro cycle ⟨⟩
    exact ⟨file, hchain, rfl, trail_singleton file⟩
  | unreadable => exact ⟨[], (List.append_nil _).symm, trail_nil, by rintro _ ⟨⟩⟩
  | @faulty file => exact ⟨[file], rfl, trail_singleton file, by rintro _ ⟨⟩⟩
  | @within file i j journal e _ hjournal _ _ ih =>
    obtain ⟨opened, hchain, htrail, hcycle⟩ := ih
    have hopened : j.chain = i.chain ++ file :: opened := by
      rw [hchain, Inclusions.enter, List.append_assoc, List.singleton_append]
    refine ⟨file :: opened, hopened, htrail.cons hjournal, ?_⟩
    intro cycle he
    obtain ⟨last, hlast, heq, htrail⟩ := hcycle cycle he
    exact ⟨last, hlast, heq, htrail.cons hjournal⟩
  | missing => exact ⟨[], (List.append_nil _).symm, trail_nil, by rintro _ ⟨⟩⟩
  | included htarget _ ih =>
    refine ih.of_begins rfl ?_
    rintro file rfl
    exact begins_cons_iff.mpr (.inl htarget)
  | other _ _ ih => exact ih.of_begins rfl fun file hfile => begins_cons_iff.mpr (.inr hfile)
  | later _ hfile _ ih =>
    exact ih.of_begins hfile.chain_eq fun file hfile => begins_cons_iff.mpr (.inr hfile)

def Readable (files : Files) (path : String) : Prop :=
  ∃ file, files.locate path = some file ∧ (files.texts.find? file).isSome

theorem Fails.chain_eq_iff (h : Fails files today (.file file) i e j) :
    j.chain = i.chain ↔ file ∈ i.chain ∨ files.journal? today file = none := by
  cases h with
  | cycle hchain => simp [hchain]
  | unreadable _ hjournal => simp [hjournal]
  | faulty hfresh hjournal => simp [hfresh.1, hjournal, Inclusions.enter]
  | within hfresh hjournal _ hrest =>
    obtain ⟨opened, hchain, -, -⟩ := hrest.trail
    simp [hfresh.1, hjournal, hchain, Inclusions.enter]

/-- A cycle is reported for a file that leads into one, or to one that was on the chain before. -/
theorem ofPath_cycle {path : String} {cycle : List String}
    (h : outcome (ofPath files today path) i = (.error (.includeCycle cycle), j)) :
    ∃ file, files.locate path = some file ∧
      (files.Loops today file ∨ ∃ other ∈ i.chain, files.Reaches today file other) := by
  obtain ⟨-, herr, -⟩ | ⟨file, hlocate, hfails⟩ := ofPath_fails h
  · cases herr
  obtain ⟨opened, hchain, -, hcycle⟩ := hfails.trail
  obtain ⟨last, hlast, -, htrail⟩ := hcycle cycle rfl
  have hreach : files.Reaches today file last := htrail.reaches (by simp)
  refine ⟨file, hlocate, ?_⟩
  rcases List.mem_append.mp (hchain ▸ hlast) with hbefore | hopened
  · exact .inr ⟨last, hbefore, hreach⟩
  · exact .inl ⟨last, hreach, htrail.cycle hopened⟩

theorem ofPath_of_mem_chain {path : String} (hlocate : files.locate path = some file)
    (hfile : file ∈ i.chain) :
    outcome (ofPath files today path) i = (.error (.includeCycle (i.chain ++ [file])), i) := by
  rw [ofPath, outcome_locating, hlocate]
  exact outcome_expandFile_chain hfile

theorem chain_ofPath_eq_nil_iff (path : String) (i : Inclusions) :
    (outcome (ofPath files today path) i).2.chain = [] ↔
      i.chain = [] ∧
        ((outcome (ofPath files today path) i).1.isOk = true ∨ ¬Readable files path) := by
  rcases hout : outcome (ofPath files today path) i with ⟨e | a, j⟩
  · simp only [Except.isOk, Except.toBool, Bool.false_eq_true, false_or]
    obtain ⟨hlocate, -, rfl⟩ | ⟨file, hlocate, hfails⟩ := ofPath_fails hout
    · simp [Readable, hlocate]
    have hreadable : Readable files path ↔ files.journal? today file ≠ none := by
      simp [Readable, hlocate, Files.journal?, Option.isSome_iff_ne_none]
    obtain ⟨opened, hchain, -, -⟩ := hfails.trail
    constructor
    · intro hj
      have hi : i.chain = [] := (List.append_eq_nil_iff.mp (hchain ▸ hj)).1
      refine ⟨hi, fun hread => ?_⟩
      rcases hfails.chain_eq_iff.mp (hj.trans hi.symm) with hmem | hjournal
      · simp [hi] at hmem
      · exact hreadable.mp hread hjournal
    · rintro ⟨hi, hread⟩
      have hjournal : files.journal? today file = none := by
        simpa [hreadable] using hread
      exact (hfails.chain_eq_iff.mpr (.inr hjournal)).trans hi
  · obtain ⟨file, -, hexpands⟩ := ofPath_eq_ok_iff.mp hout
    simp [hexpands.chain_eq, Except.isOk, Except.toBool]

theorem located_chain_ofPath {path : String} (h : ∀ file ∈ i.chain, files.Located file) :
    ∀ file ∈ (outcome (ofPath files today path) i).2.chain, files.Located file := by
  rcases hout : outcome (ofPath files today path) i with ⟨e | a, j⟩
  · obtain ⟨-, -, rfl⟩ | ⟨file, hlocate, hfails⟩ := ofPath_fails hout
    · exact h
    obtain ⟨opened, hchain, htrail, -⟩ := hfails.trail
    have hopened := htrail.located fun other hother => ⟨path, hother ▸ hlocate⟩
    intro other hother
    rcases List.mem_append.mp (hchain ▸ hother) with hbefore | hmem
    · exact h other hbefore
    · exact hopened other hmem
  · obtain ⟨file, -, hexpands⟩ := ofPath_eq_ok_iff.mp hout
    exact hexpands.chain_eq ▸ h

/-! ## Attempts one after the other -/

/-- Expands what each path leads to, whether or not the expansions before succeeded. -/
def attempts (files : Files) (today : Date) (paths : List String) :
    StateM Inclusions (List (Except LedgerError Expansion)) :=
  paths.mapM fun path => (ofPath files today path).run

theorem attempts_nil (i : Inclusions) : (attempts files today []).run i = ([], i) := rfl

theorem attempts_cons (path : String) (paths : List String) (i : Inclusions) :
    (attempts files today (path :: paths)).run i =
      let first := outcome (ofPath files today path) i
      let rest := (attempts files today paths).run first.2
      (first.1 :: rest.1, rest.2) := by
  unfold attempts
  rw [List.mapM_cons]
  rfl

theorem chain_attempts_eq_nil_iff (paths : List String) (i : Inclusions) :
    ((attempts files today paths).run i).2.chain = [] ↔
      i.chain = [] ∧ ∀ call ∈ paths.zip ((attempts files today paths).run i).1,
        call.2.isOk = true ∨ ¬Readable files call.1 := by
  induction paths generalizing i with
  | nil => simp [attempts_nil]
  | cons path paths ih =>
    rw [attempts_cons]
    simp only [ih, chain_ofPath_eq_nil_iff, List.zip_cons_cons, List.forall_mem_cons, and_assoc]

theorem located_chain_attempts (paths : List String) {i : Inclusions}
    (h : ∀ file ∈ i.chain, files.Located file) :
    ∀ file ∈ ((attempts files today paths).run i).2.chain, files.Located file := by
  induction paths generalizing i with
  | nil => exact h
  | cons path paths ih =>
    rw [attempts_cons]
    exact ih (located_chain_ofPath h)

/-- Attempts leave files on the chain exactly if one of them failed after it had a file to read. A
later one may report a cycle that there is not exactly if one of the files that are left leads into
no cycle. -/
theorem attempts_leave (files : Files) (today : Date) (paths : List String) :
    let (results, i) := (attempts files today paths).run .none
    (i.chain = [] ↔
      ∀ call ∈ paths.zip results, call.2.isOk = true ∨ ¬Readable files call.1) ∧
    ((∀ path cycle, (outcome (ofPath files today path) i).1 = .error (.includeCycle cycle) →
        ∃ file, files.locate path = some file ∧ files.Loops today file) ↔
      ∀ file ∈ i.chain, files.Loops today file) := by
  have hnil := @chain_attempts_eq_nil_iff files today paths .none
  have hlocated := @located_chain_attempts files today paths .none (by simp [Inclusions.none])
  rcases hrun : (attempts files today paths).run .none with ⟨results, i⟩
  rw [hrun] at hnil hlocated
  refine ⟨by simpa [Inclusions.none] using hnil, ?_⟩
  constructor
  · intro hreports file hfile
    -- A path that leads to a file on the chain is an include cycle at once.
    obtain ⟨path, hlocate⟩ := hlocated file hfile
    obtain ⟨other, hother, hloops⟩ := hreports path _
      (congrArg Prod.fst (ofPath_of_mem_chain hlocate hfile))
    obtain rfl := Option.some.inj (hlocate.symm.trans hother)
    exact hloops
  · intro hloops path cycle hcycle
    obtain ⟨file, hlocate, hfile⟩ := ofPath_cycle (Prod.ext hcycle rfl)
    refine ⟨file, hlocate, ?_⟩
    rcases hfile with hfile | ⟨other, hother, hreach⟩
    · exact hfile
    · exact (hloops other hother).of_reaches hreach

/-- One file, with one line, which is no directive. -/
def misspelt : Files where
  locate path := if path = "main.ledger" then some path else none
  texts := NameMap.empty.insert "main.ledger" "nonsense\n"

theorem not_includes_misspelt (today : Date)
    (h : (misspelt.journal? today "main.ledger").all (·.directives.isEmpty) = true)
    (file other : String) : ¬misspelt.Includes today file other := by
  rintro ⟨k, hk⟩
  simp only [Files.included?, Option.bind_eq_bind, Option.bind_eq_some_iff] at hk
  obtain ⟨journal, hjournal, d, hd, -⟩ := hk
  by_cases hfile : file = "main.ledger"
  · subst hfile
    simp only [hjournal, Option.all_some, List.isEmpty_iff] at h
    rw [h, List.getElem?_nil] at hd
    cases hd
  · have hnone : misspelt.journal? today file = none := by
      rw [Files.journal?, misspelt, NameMap.find?_insert_of_ne _ _ (Ne.symm hfile)]
      rfl
    cases hnone.symm.trans hjournal

/-- A file that includes nothing stays on the chain where it has a fault, and a cycle is reported
when it is expanded again. -/
theorem attempts_misspelt :
    let today : Date := ⟨2024, 1, 1, by decide⟩
    let (results, i) := (attempts misspelt today ["main.ledger", "main.ledger"]).run .none
    i.chain = ["main.ledger"] ∧
      results[1]? = some (.error (.includeCycle ["main.ledger", "main.ledger"])) ∧
      ∀ file other, ¬misspelt.Includes today file other :=
  ⟨by decide +kernel, by decide +kernel, not_includes_misspelt _ (by decide +kernel)⟩

end Daybook.Expansion
