import Mathlib.Data.List.Induction

/-!
# Machinery/Polling — waiting for goals, one after another

A caller reads answers until one settles its goal, and then waits for the next goal (`pollAll`).
As a machine its state is the goals that it still waits for, and one answer is a step.  If every
answer that settles a goal is right about it, then what the machine returns is right about all
(`accounted_run`).
-/

namespace Machinery

variable {γ α ε : Type}

/-- The first verdict of the answers, and the answers that are left; `none` still waits. -/
def poll (verdict : α → Option (Except ε Unit)) : List α → Option (Except ε Unit × List α)
  | [] => none
  | a :: as =>
    match verdict a with
    | some r => some (r, as)
    | none => poll verdict as

/-- Every goal in its turn. -/
def pollAll (verdict : γ → α → Option (Except ε Unit)) :
    List γ → List α → Option (Except ε Unit × List α)
  | [], as => some (.ok (), as)
  | g :: gs, as =>
    match poll (verdict g) as with
    | none => none
    | some (.ok (), rest) => pollAll verdict gs rest
    | some (.error e, rest) => some (.error e, rest)

/-- What is still waited for, or what ended the waiting. -/
inductive Progress (γ ε : Type)
  | waiting (goals : List γ)
  | ended (e : ε)

/-- The state in which a wait for all goals returns. -/
def Progress.returned (γ : Type) : Except ε Unit → Progress γ ε
  | .ok () => .waiting []
  | .error e => .ended e

/-- One answer is about the first goal. -/
def Progress.step (verdict : γ → α → Option (Except ε Unit)) : Progress γ ε → α → Progress γ ε
  | .waiting (g :: gs), a =>
    match verdict g a with
    | none => .waiting (g :: gs)
    | some (.ok ()) => .waiting gs
    | some (.error e) => .ended e
  | progress, _ => progress

/-- The state after some answers. -/
def pollRun (verdict : γ → α → Option (Except ε Unit)) (goals : List γ) (read : List α) :
    Progress γ ε :=
  read.foldl (Progress.step verdict) (.waiting goals)

variable {verdict : γ → α → Option (Except ε Unit)} {goals : List γ} {read : List α}

theorem pollRun_concat (a : α) : pollRun verdict goals (read ++ [a]) =
    (pollRun verdict goals read).step verdict a := by
  rw [pollRun, List.foldl_append]
  rfl

/-- A change of the verdicts changes the verdict that is returned. -/
theorem poll_map {ε' : Type} (f : Except ε Unit → Except ε' Unit)
    (verdict : α → Option (Except ε Unit)) (as : List α) :
    poll (fun a => (verdict a).map f) as = (poll verdict as).map (Prod.map f id) := by
  induction as with
  | nil => rfl
  | cons a as ih =>
    cases h : verdict a with
    | none => simpa [poll, h] using ih
    | some r => simp [poll, h]

/-! ## The machine -/

theorem exists_read_poll {verdict : α → Option (Except ε Unit)} {answers rest : List α}
    {r : Except ε Unit} (h : poll verdict answers = some (r, rest)) :
    ∃ earlier last, answers = earlier ++ last :: rest ∧ (∀ a ∈ earlier, verdict a = none) ∧
      verdict last = some r := by
  induction answers with
  | nil => cases h
  | cons a as ih =>
    cases ha : verdict a with
    | some r' =>
      simp only [poll, ha, Option.some.injEq, Prod.mk.injEq] at h
      obtain ⟨rfl, rfl⟩ := h
      exact ⟨[], a, rfl, List.forall_mem_nil _, ha⟩
    | none =>
      simp only [poll, ha] at h
      obtain ⟨earlier, last, rfl, hearlier, hlast⟩ := ih h
      exact ⟨a :: earlier, last, rfl, List.forall_mem_cons.mpr ⟨ha, hearlier⟩, hlast⟩

/-- Answers without a verdict on the first goal change nothing. -/
theorem foldl_step_of_none {g : γ} (h : ∀ a ∈ read, verdict g a = none) :
    read.foldl (Progress.step verdict) (.waiting (g :: goals)) = .waiting (g :: goals) := by
  induction read with
  | nil => rfl
  | cons a as ih =>
    obtain ⟨ha, has⟩ := List.forall_mem_cons.mp h
    rw [List.foldl_cons, Progress.step, ha]
    exact ih has

/-- **The loops are runs of the machine**: they read what comes before the rest. -/
theorem exists_read {answers rest : List α} {r : Except ε Unit}
    (h : pollAll verdict goals answers = some (r, rest)) :
    ∃ read, answers = read ++ rest ∧ pollRun verdict goals read = .returned γ r := by
  induction goals generalizing answers with
  | nil =>
    simp only [pollAll, Option.some.injEq, Prod.mk.injEq] at h
    obtain ⟨rfl, rfl⟩ := h
    exact ⟨[], rfl, rfl⟩
  | cons g gs ih =>
    simp only [pollAll] at h
    cases hpoll : poll (verdict g) answers with
    | none => simp [hpoll] at h
    | some result =>
      obtain ⟨r', rest'⟩ := result
      obtain ⟨earlier, last, rfl, hearlier, hlast⟩ := exists_read_poll hpoll
      have hstep : pollRun verdict (g :: gs) (earlier ++ [last]) =
          Progress.step verdict (.waiting (g :: gs)) last := by
        rw [pollRun_concat, pollRun, foldl_step_of_none hearlier]
      rw [Progress.step, hlast] at hstep
      cases r' with
      | ok =>
        simp only [hpoll] at h
        obtain ⟨read, rfl, hread⟩ := ih h
        refine ⟨earlier ++ [last] ++ read, by simp, ?_⟩
        rw [pollRun, List.foldl_append, ← pollRun, hstep]
        exact hread
      | error e =>
        simp only [hpoll, Option.some.injEq, Prod.mk.injEq] at h
        obtain ⟨rfl, rfl⟩ := h
        exact ⟨earlier ++ [last], by simp, hstep⟩

/-! ## What a run has seen -/

/-- A verdict that is right: the goal is met, or it is broken as the error says. -/
structure Right (met : γ → α → Prop) (broken : γ → ε → α → Prop)
    (verdict : γ → α → Option (Except ε Unit)) (g : γ) (a : α) : Prop where
  met : verdict g a = some (.ok ()) → met g a
  broken : ∀ e, verdict g a = some (.error e) → broken g e a

/-- The goals that are no longer waited for were met, and an end has a goal that is broken. -/
def Accounted (met : γ → α → Prop) (broken : γ → ε → α → Prop) (goals : List γ) (read : List α) :
    Progress γ ε → Prop
  | .waiting later => ∃ earlier, goals = earlier ++ later ∧ ∀ g ∈ earlier, ∃ a ∈ read, met g a
  | .ended e => ∃ g ∈ goals, ∃ a ∈ read, broken g e a

variable {met : γ → α → Prop} {broken : γ → ε → α → Prop}

theorem accounted_step {progress : Progress γ ε} {a : α}
    (hright : ∀ g later, progress = .waiting (g :: later) → Right met broken verdict g a)
    (h : Accounted met broken goals read progress) :
    Accounted met broken goals (read ++ [a]) (progress.step verdict a) := by
  have hmono {P : α → Prop} : (∃ b ∈ read, P b) → ∃ b ∈ read ++ [a], P b :=
    fun ⟨b, hb, hP⟩ => ⟨b, List.mem_append_left _ hb, hP⟩
  match progress, h with
  | .ended e, ⟨g, hg, hbroken⟩ => exact ⟨g, hg, hmono hbroken⟩
  | .waiting [], ⟨earlier, hgoals, hmet⟩ => exact ⟨earlier, hgoals, fun g hg => hmono (hmet g hg)⟩
  | .waiting (g :: later), ⟨earlier, hgoals, hmet⟩ =>
    obtain ⟨hok, herror⟩ := hright g later rfl
    rw [Progress.step]
    cases hv : verdict g a with
    | none => exact ⟨earlier, hgoals, fun g hg => hmono (hmet g hg)⟩
    | some r =>
      cases r with
      | ok =>
        refine ⟨earlier ++ [g], by simpa using hgoals, fun g' hg' => ?_⟩
        rcases List.mem_append.mp hg' with hg' | hg'
        · exact hmono (hmet g' hg')
        · rw [List.mem_singleton.mp hg']
          exact ⟨a, List.mem_concat_self, hok hv⟩
      | error e =>
        exact ⟨g, hgoals ▸ List.mem_append_right _ List.mem_cons_self, a, List.mem_concat_self,
          herror e hv⟩

/-- **In every run** whose answers are right about the goal that is waited for, the goals that were
waited for were met. -/
theorem accounted_run (hright : ∀ before a after g later, read = before ++ a :: after →
      pollRun verdict goals before = .waiting (g :: later) → Right met broken verdict g a) :
    Accounted met broken goals read (pollRun verdict goals read) := by
  induction read using List.reverseRecOn with
  | nil => exact ⟨[], rfl, List.forall_mem_nil _⟩
  | append_singleton read a ih =>
    rw [pollRun_concat]
    refine accounted_step (fun g later hg => hright read a [] g later rfl hg) (ih ?_)
    rintro before b after g later rfl hg
    exact hright before b (after ++ [a]) g later (by simp) hg

/-- Only a goal is waited for. -/
theorem mem_of_waiting {g : γ} {later : List γ}
    (h : pollRun verdict goals read = .waiting (g :: later)) : g ∈ goals := by
  have hseen : Accounted (fun _ _ => True) (fun _ _ _ => True) goals read
      (pollRun verdict goals read) :=
    accounted_run fun _ _ _ _ _ _ _ => ⟨fun _ => trivial, fun _ _ => trivial⟩
  rw [h] at hseen
  obtain ⟨earlier, hgoals, -⟩ := hseen
  exact hgoals ▸ List.mem_append_right _ List.mem_cons_self

end Machinery
