/-!
# Machinery/Steps — a command as a list of steps

A step changes the state and returns, or fails; the command stops at the first one that fails.  What
every step keeps the command keeps (`runSteps_keeps`), and behind a step that always fails nothing
is done (`runSteps_stops`).
-/

namespace Machinery

variable {σ ε : Type}

def runSteps : List (σ → Except ε Unit × σ) → σ → Except ε Unit × σ
  | [], s => (.ok (), s)
  | step :: steps, s =>
    match step s with
    | (.ok (), s') => runSteps steps s'
    | (.error e, s') => (.error e, s')

variable {step : σ → Except ε Unit × σ} {steps : List (σ → Except ε Unit × σ)} {s s' : σ} {e : ε}

theorem runSteps_cons_ok (h : step s = (.ok (), s')) :
    runSteps (step :: steps) s = runSteps steps s' := by
  rw [runSteps, h]

theorem runSteps_cons_error (h : step s = (.error e, s')) :
    runSteps (step :: steps) s = (.error e, s') := by
  rw [runSteps, h]

/-- **What every step keeps** holds at the end, however the command ends. -/
theorem runSteps_keeps {P : σ → Prop} (hsteps : ∀ step ∈ steps, ∀ s, P s → P (step s).2)
    (hs : P s) : P (runSteps steps s).2 := by
  induction steps generalizing s with
  | nil => exact hs
  | cons step steps ih =>
    obtain ⟨hstep, hsteps⟩ := List.forall_mem_cons.mp hsteps
    have hnext := hstep s hs
    match hrun : step s with
    | (.ok (), s') =>
      rw [hrun] at hnext
      rw [runSteps_cons_ok hrun]
      exact ih hsteps hnext
    | (.error e, s') =>
      rw [hrun] at hnext
      rw [runSteps_cons_error hrun]
      exact hnext

/-- The steps behind others run where those return. -/
theorem runSteps_append (before after : List (σ → Except ε Unit × σ)) (s : σ) :
    runSteps (before ++ after) s =
      match runSteps before s with
      | (.ok (), s') => runSteps after s'
      | (.error e, s') => (.error e, s') := by
  induction before generalizing s with
  | nil => rfl
  | cons step before ih =>
    match hrun : step s with
    | (.ok (), s') => rw [List.cons_append, runSteps_cons_ok hrun, runSteps_cons_ok hrun, ih]
    | (.error e, s') =>
      rw [List.cons_append, runSteps_cons_error hrun, runSteps_cons_error hrun]

/-- **Behind a step that always fails** nothing is done. -/
theorem runSteps_stops (hstop : ∀ s, ∃ e, step s = (.error e, s))
    (before after : List (σ → Except ε Unit × σ)) (s : σ) :
    ∃ e, runSteps (before ++ step :: after) s = (.error e, (runSteps before s).2) := by
  rw [runSteps_append]
  match runSteps before s with
  | (.ok (), s') =>
    obtain ⟨e, he⟩ := hstop s'
    exact ⟨e, runSteps_cons_error he⟩
  | (.error e, s') => exact ⟨e, rfl⟩

end Machinery
