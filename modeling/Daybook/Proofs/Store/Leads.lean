import Daybook.Proofs.Result
import Daybook.Store.Reporter

/-!
# Runs that succeed

`Leads step p a q` says that the step, begun at `p`, succeeds with `a` and ends at `q`. Each
primitive of `Filling` has one equivalence that says when it does; they are meant for `simp only`,
which takes a step of several parts apart (`leads_bind`). The reporter never touches the store
(`leads_report`).
-/

namespace Daybook.Filling

variable {σ α β : Type}

def outcome (step : Filling σ α) (p : Progress σ) : Except LedgerError α × Progress σ :=
  step.run.run p

/-- The step, begun at `p`, succeeds with `a` and ends at `q`. -/
def Leads (step : Filling σ α) (p : Progress σ) (a : α) (q : Progress σ) : Prop :=
  outcome step p = (.ok a, q)

variable {p q : Progress σ}

theorem outcome_bind (step : Filling σ α) (next : α → Filling σ β) (p : Progress σ) :
    outcome (step >>= next) p = match outcome step p with
      | (.ok a, m) => outcome (next a) m
      | (.error e, m) => (.error e, m) := by
  simp only [outcome, bind, ExceptT.bind, ExceptT.mk, ExceptT.run, StateT.bind, StateT.run]
  rcases step p with ⟨_ | _, m⟩ <;> rfl

theorem leads_pure {a b : α} : Leads (pure a : Filling σ α) p b q ↔ a = b ∧ p = q := by
  have hrun : outcome (pure a : Filling σ α) p = (.ok a, p) := rfl
  simp [Leads, hrun]

theorem leads_bind {step : Filling σ α} {next : α → Filling σ β} {b : β} :
    Leads (step >>= next) p b q ↔ ∃ a m, Leads step p a m ∧ Leads (next a) m b q := by
  simp only [Leads, outcome_bind]
  rcases outcome step p with ⟨e | a, m⟩
  · simp
  · constructor
    · exact fun hb => ⟨a, m, rfl, hb⟩
    · rintro ⟨a', m', ham, hb⟩
      obtain ⟨ha, rfl⟩ := Prod.mk.inj ham
      obtain rfl := Except.ok.inj ha
      exact hb

theorem leads_map {step : Filling σ α} {f : α → β} {b : β} :
    Leads (f <$> step) p b q ↔ ∃ a, Leads step p a q ∧ f a = b := by
  rw [map_eq_pure_bind, leads_bind]
  simp only [leads_pure]
  constructor
  · rintro ⟨a, m, h, rfl, rfl⟩
    exact ⟨a, h, rfl⟩
  · rintro ⟨a, h, rfl⟩
    exact ⟨a, q, h, rfl, rfl⟩

theorem leads_throw {e : LedgerError} {a : α} : ¬Leads (throw e : Filling σ α) p a q := by
  have hrun : outcome (throw e : Filling σ α) p = (.error e, p) := rfl
  simp [Leads, hrun]

theorem leads_lift {x : Except LedgerError α} {a : α} :
    Leads (liftM x : Filling σ α) p a q ↔ x = .ok a ∧ p = q := by
  have hrun : outcome (liftM x : Filling σ α) p = (x, p) := rfl
  simp [Leads, hrun]

theorem leads_store {s : Store} : Leads (store : Filling σ Store) p s q ↔ p.store = s ∧ p = q := by
  have hrun : outcome (store : Filling σ Store) p = (.ok p.store, p) := rfl
  simp [Leads, hrun]

theorem leads_store_bind {next : Store → Filling σ β} {b : β} :
    Leads (store >>= next) p b q ↔ Leads (next p.store) p b q := by
  simp only [leads_bind, leads_store]
  constructor
  · rintro ⟨_, _, ⟨rfl, rfl⟩, h⟩
    exact h
  · exact fun h => ⟨_, _, ⟨rfl, rfl⟩, h⟩

theorem leads_update {f : Store → Store} {u : Unit} :
    Leads (update f : Filling σ Unit) p u q ↔ { p with store := f p.store } = q := by
  have hrun : outcome (update f : Filling σ Unit) p = (.ok (), { p with store := f p.store }) := rfl
  simp [Leads, hrun]

theorem leads_warn {w : Warning} {u : Unit} :
    Leads (warn w : Filling σ Unit) p u q ↔ { p with warnings := w :: p.warnings } = q := by
  have hrun : outcome (warn w : Filling σ Unit) p =
    (.ok (), { p with warnings := w :: p.warnings }) := rfl
  simp [Leads, hrun]

/-- What a reporter does to its own state at a store. -/
def reported (action : Store → Reporting σ Unit) (p : Progress σ) : Except LedgerError Unit × σ :=
  (action p.store).run.run p.report

theorem leads_report {action : Store → Reporting σ Unit} {u : Unit} :
    Leads (report action) p u q ↔
      ∃ state, reported action p = (.ok (), state) ∧ { p with report := state } = q := by
  have hget : outcome (get : Filling σ (Progress σ)) p = (.ok p, p) := rfl
  have hset : ∀ m : Progress σ, outcome (set m : Filling σ Unit) p = (.ok (), m) := fun _ => rfl
  have hthrow : ∀ e m, outcome (throw e : Filling σ Unit) m = (.error e, m) := fun _ _ => rfl
  rw [Leads, report, outcome_bind, hget]
  dsimp only [reported]
  rcases (action p.store).run.run p.report with ⟨e | v, state⟩
  · simp [outcome_bind, hset, hthrow]
  · simp [hset]

theorem leads_expect {pass : Pass} {u : Unit} :
    Leads (expect pass : Filling σ Unit) p u q ↔ p.store.stage = pass.stage ∧ p = q := by
  rw [expect, leads_store_bind]
  by_cases hstage : p.store.stage = pass.stage
  · simp [hstage, leads_pure]
  · simp [hstage, leads_throw]

theorem runOn_eq_ok {step : Filling σ Unit} {s : Store} {state : σ}
    (h : (runOn step s state).1.isOk = true) :
    runOn step s state = (.ok (), (runOn step s state).2) := by
  rcases hrun : runOn step s state with ⟨e | u, m⟩
  · rw [hrun] at h
    cases h
  · rfl

end Daybook.Filling
