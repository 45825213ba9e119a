import Daybook.Store.Basic

/-!
# Reporters

A reporter watches a store being filled. It is told of every posting that is admitted, posted or
carried up to an account above, and of the end of every transaction; it keeps a state of its own
and may fail.
-/

namespace Daybook

/-- What a reporter does: it changes its state, which it keeps also if it fails. -/
abbrev Reporting (σ : Type) := ExceptT LedgerError (StateM σ)

/-- The answers of a reporter to what happens to a store. -/
structure Reporter (σ : Type) where
  admitted : Store → Transaction → Posting → Reporting σ Unit
  posted : Store → Transaction → Posting → Reporting σ Unit
  carried : Store → Transaction → Posting → Account → Reporting σ Unit
  closed : Store → Transaction → Reporting σ Unit
  rendered : Store → Reporting σ Unit

def Reporter.silent (σ : Type) : Reporter σ :=
  ⟨fun _ _ _ => pure (), fun _ _ _ => pure (), fun _ _ _ _ => pure (), fun _ _ => pure (),
    fun _ => pure ()⟩

/-- A store that is being filled, with the warnings so far, last one first, and the state of the
reporter. -/
structure Progress (σ : Type) where
  store : Store
  warnings : List Warning
  report : σ

/-- A step of filling a store. What it has done stays done if it fails. -/
abbrev Filling (σ : Type) := ExceptT LedgerError (StateM (Progress σ))

namespace Filling

variable {σ : Type}

def store : Filling σ Store := return (← get).store

def update (f : Store → Store) : Filling σ Unit := modify fun p => { p with store := f p.store }

def warn (w : Warning) : Filling σ Unit :=
  modify fun p => { p with warnings := w :: p.warnings }

/-- Lets the reporter act. -/
def report (action : Store → Reporting σ Unit) : Filling σ Unit := do
  let p ← get
  let (result, state) := (action p.store).run.run p.report
  set { p with report := state }
  match result with
  | .ok _ => return ()
  | .error e => throw e

/-- Goes on only if the store is at the stage of the pass. -/
def expect (pass : Pass) : Filling σ Unit := do
  let found := (← store).stage
  if found ≠ pass.stage then throw (.wrongStage pass found)

/-- Runs a step on a store from the given state of the reporter. -/
def runOn {α : Type} (step : Filling σ α) (s : Store) (report : σ) :
    Except LedgerError α × Progress σ :=
  step.run.run ⟨s, [], report⟩

end Filling

end Daybook
