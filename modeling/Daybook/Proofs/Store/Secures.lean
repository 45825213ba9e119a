import Daybook.Proofs.Store.Leads

/-!
# Steps that succeed or fail as they may

`Secures P step Q E` says of a step that is begun where `P` holds: if it succeeds then `Q` holds
where it ends, and if it fails then with an error that satisfies `E`. Reporters and the filling of
stores are steps of one kind, which differ in the state that they work on; a step of several parts
is put together by `Secures.bind`, and there is one rule for each primitive.
-/

namespace Daybook

open Result (Ensures)

namespace Reporting

variable {σ α β : Type} {P P' : σ → Prop} {Q Q' : α → σ → Prop} {R : β → σ → Prop}
  {E F : LedgerError → Prop}

/-- The step leads from `P` to `Q`, or fails with an error that satisfies `E`. -/
def Secures (P : σ → Prop) (step : Reporting σ α) (Q : α → σ → Prop) (E : LedgerError → Prop) :
    Prop :=
  ∀ state, P state →
    Ensures (fun a => Q a (step.run.run state).2) E (step.run.run state).1

theorem run_bind (step : Reporting σ α) (next : α → Reporting σ β) (state : σ) :
    (step >>= next).run.run state = match step.run.run state with
      | (.ok a, m) => (next a).run.run m
      | (.error e, m) => (.error e, m) := by
  simp only [bind, ExceptT.bind, ExceptT.mk, ExceptT.run, StateT.bind, StateT.run]
  rcases step state with ⟨_ | _, m⟩ <;> rfl

theorem Secures.bind {step : Reporting σ α} (h : Secures P step Q E) {next : α → Reporting σ β}
    (hnext : ∀ a, Secures (Q a) (next a) R E) : Secures P (step >>= next) R E := by
  intro state hstate
  have hstep := h state hstate
  rw [run_bind]
  rcases hrun : step.run.run state with ⟨e | a, m⟩
  · rw [hrun] at hstep
    exact hstep
  · rw [hrun] at hstep
    exact hnext a m hstep

theorem Secures.mono {step : Reporting σ α} (h : Secures P step Q E) (hP : ∀ p, P' p → P p)
    (hQ : ∀ a p, Q a p → Q' a p) (hE : ∀ e, E e → F e) : Secures P' step Q' F :=
  fun p hp => (h p (hP p hp)).mono (fun a => hQ a _) hE

theorem secures_pure {a : α} (h : ∀ p, P p → Q a p) : Secures P (pure a) Q E := h

theorem secures_throw {e : LedgerError} (h : E e) : Secures P (throw e : Reporting σ α) Q E :=
  fun _ _ => h

theorem secures_get : Secures P (get : Reporting σ σ) (fun a p => P p ∧ a = p) E :=
  fun _ hp => ⟨hp, rfl⟩

theorem Secures.eq_ok {step : Reporting σ α} (h : Secures P step Q fun _ => False) {p : σ}
    (hp : P p) : ∃ a q, step.run.run p = (.ok a, q) ∧ Q a q := by
  have hstep := h p hp
  rcases hrun : step.run.run p with ⟨e | a, q⟩
  · rw [hrun] at hstep
    exact hstep.elim
  · rw [hrun] at hstep
    exact ⟨a, q, rfl, hstep⟩

end Reporting

namespace Filling

open Reporting (Secures)

variable {σ α β : Type} {P : Progress σ → Prop} {Q : α → Progress σ → Prop}
  {R : β → Progress σ → Prop} {E : LedgerError → Prop}

theorem secures_lift {x : Except LedgerError α} (h : ∀ p, P p → Ensures (Q · p) E x) :
    Secures P (liftM x : Filling σ α) Q E := by
  intro p hp
  have hrun : outcome (liftM x : Filling σ α) p = (x, p) := rfl
  have hresult := h p hp
  rw [outcome] at hrun
  rw [hrun]
  exact hresult

theorem secures_store_bind {next : Store → Filling σ β}
    (h : ∀ s, Secures (fun p => P p ∧ p.store = s) (next s) R E) :
    Secures P (store >>= next) R E := by
  have hstore : Secures P (store : Filling σ Store) (fun s p => P p ∧ p.store = s) E :=
    fun _ hp => ⟨hp, rfl⟩
  exact hstore.bind h

theorem secures_update {f : Store → Store} {Q : Unit → Progress σ → Prop}
    (h : ∀ p, P p → Q () { p with store := f p.store }) : Secures P (update f) Q E := h

theorem secures_report {action : Store → Reporting σ Unit} {S : Store → Prop} {J K : σ → Prop}
    (h : ∀ s, S s → Secures J (action s) (fun _ => K) E) :
    Secures (fun p => S p.store ∧ J p.report) (report action)
      (fun _ p => S p.store ∧ K p.report) E := by
  rintro p ⟨hS, hJ⟩
  have haction := h p.store hS p.report hJ
  have hget : (get : Filling σ (Progress σ)).run.run p = (.ok p, p) := rfl
  have hset : ∀ m : Progress σ, (set m : Filling σ Unit).run.run p = (.ok (), m) := fun _ => rfl
  have hthrow : ∀ e m, (throw e : Filling σ Unit).run.run m = (.error e, m) := fun _ _ => rfl
  have hpure : ∀ m, (pure () : Filling σ Unit).run.run m = (.ok (), m) := fun _ => rfl
  rw [report, Reporting.run_bind, hget]
  rcases hrun : (action p.store).run.run p.report with ⟨e | u, state⟩
  · rw [hrun] at haction
    simp only [hrun, Reporting.run_bind, hset, hthrow]
    exact haction
  · rw [hrun] at haction
    simp only [hrun, Reporting.run_bind, hset, hpure]
    exact ⟨hS, haction⟩

theorem secures_expect {pass : Pass} (h : ∀ p, P p → p.store.stage = pass.stage) :
    Secures P (expect pass) (fun _ => P) E := by
  intro p hp
  have hrun : (expect pass).run.run p = (.ok (), p) := leads_expect.mpr ⟨h p hp, rfl⟩
  rw [hrun]
  exact hp

end Filling

end Daybook
