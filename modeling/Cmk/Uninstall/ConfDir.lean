import Cmk.Config.Conf
import Cmk.Config.Lock

/-!
# Uninstall/ConfDir — `check_remove_conf_dir`

The function asks the object it builds for what a configuration directory once offered.  A `Config`
is built from three arguments and the call has one, so the run exits before its loop: it refuses a
configuration in use as it should, and an idle one too (`confDir_removed_iff`).  The loop itself
ends after at most as many attempts as it has retries (`removeLoop_attempts`), whatever it runs on.
-/

open Machinery

namespace Cmk

/-- An exception, `FileNotFoundError` told apart from the other errors of the system. -/
inductive ConfDirErr
  | py (e : PyErr)
  | fileNotFound

/-- A call that may raise and may change the store. -/
abbrev ConfDirM (σ : Type) := ExceptT ConfDirErr (StateM σ)

/-- What `check_remove_conf_dir` calls: on the object it builds, and on the directory. -/
structure ConfDirApi (σ τ : Type) where
  enter : ConfDirM σ Unit
  leave : ConfDirM σ Unit
  reconcile : ConfDirM σ Unit
  pools : ConfDirM σ (List String)
  cpuLists (poolName : String) : ConfDirM σ (List String)
  tasksList (poolName : String) : ConfDirM σ (List τ)
  rmtreePools : ConfDirM σ Unit
  removeLock : ConfDirM σ Unit

variable {σ τ κ V T C : Type}

/-! ## The function -/

def getPoolTasks (c : ConfDirApi σ τ) (poolName : String) : ConfDirM σ (List τ) := do
  if poolName ∉ (← c.pools) then
    throw (.py (.keyError (some ("\"" ++ poolName ++ "\" pool does not exist."))))
  if (← c.cpuLists poolName).length = 0 then
    throw (.py (.keyError (some ("No CPU list in \"" ++ poolName ++ "\" pool."))))
  c.tasksList poolName

/-- The pools that are still pending after the loop over them. -/
def pendingPools (c : ConfDirApi σ τ) : List String → ConfDirM σ (List String)
  | [] => pure []
  | poolName :: pools => do
    if (← getPoolTasks c poolName).length = 0 then pendingPools c pools
    else return poolName :: pools

/-- The section under the lock, which is left however it ends. -/
def attempt (c : ConfDirApi σ τ) : ConfDirM σ (List String) := do
  c.enter
  try
    c.reconcile
    let pending ← pendingPools c ["shared", "exclusive", "infra"]
    if pending.length = 0 then c.rmtreePools
    return pending
  finally c.leave

/-- `while retries`, with the number of attempts it has made at its end. -/
def removeLoop (c : ConfDirApi σ τ) (confDir : String) :
    ℕ → σ → Except ConfDirErr Unit × σ × ℕ
  | 0, s => (.ok (), s, 0)
  | retries + 1, s =>
    match (attempt c).run.run s with
    | (.error e, s) => (.error e, s, 1)
    | (.ok pending, s) =>
      if pending.length = 0 then
        ((c.removeLock.run.run s).1, (c.removeLock.run.run s).2, 1)
      else if retries = 0 then
        (.error (.py (.runtimeError ("There are running tasks, check pools in \"" ++ confDir ++
          "\"."))), s, 1)
      else
        ((removeLoop c confDir retries s).1, (removeLoop c confDir retries s).2.1,
          (removeLoop c confDir retries s).2.2 + 1)

/-- `except Exception: sys.exit(1)`, which an exit passes by. -/
def exitOnException : PyErr → PyErr
  | .systemExit code => .systemExit code
  | _ => .systemExit 1

/-- The `except` clauses after the loop. -/
def afterLoop : Except ConfDirErr Unit → Except PyErr Unit
  | .ok () => .ok ()
  | .error .fileNotFound => .ok ()
  | .error (.py (.keyError _)) => .ok ()
  | .error (.py e) => .error (exitOnException e)

def checkRemoveConfDir (config : List String → Except PyErr (ConfDirApi σ τ)) (confDir : String)
    (s : σ) : Except PyErr Unit × σ × ℕ :=
  match config [confDir] with
  | .error e => (.error (exitOnException e), s, 0)
  | .ok c =>
    (afterLoop (removeLoop c confDir 10 s).1, (removeLoop c confDir 10 s).2.1,
      (removeLoop c confDir 10 s).2.2)

/-- A `Config` has no `pools` and no lists of tasks, and its `lock` returns nothing that could be
entered; of the directory it knows nothing. -/
def Config.confDirApi (lock : Config V T C → ConfDirM σ Unit) (dir : ConfDirApi σ τ)
    (conf : Config V T C) : ConfDirApi σ τ where
  enter := do
    lock conf
    throw (.py .attributeError)
  leave := throw (.py .attributeError)
  reconcile := dir.reconcile
  pools := throw (.py .attributeError)
  cpuLists _ := throw (.py .attributeError)
  tasksList _ := throw (.py .attributeError)
  rmtreePools := dir.rmtreePools
  removeLock := dir.removeLock

/-! ## The loop -/

variable {c : ConfDirApi σ τ} {confDir : String} {s s' : σ}

/-- **At most as many attempts as retries.** -/
theorem removeLoop_attempts (c : ConfDirApi σ τ) (confDir : String) (retries : ℕ) (s : σ) :
    (removeLoop c confDir retries s).2.2 ≤ retries := by
  induction retries generalizing s with
  | zero => exact le_rfl
  | succ retries ih =>
    rw [removeLoop]
    split
    · exact Nat.le_add_left 1 retries
    · split_ifs
      · exact Nat.le_add_left 1 retries
      · exact Nat.le_add_left 1 retries
      · exact Nat.succ_le_succ (ih _)

/-- **An attempt that finds no task** is the last one, and the lock file goes after it. -/
theorem removeLoop_of_idle (retries : ℕ) (h : (attempt c).run.run s = (.ok [], s')) :
    removeLoop c confDir (retries + 1) s =
      ((c.removeLock.run.run s').1, (c.removeLock.run.run s').2, 1) := by
  rw [removeLoop, h]
  rfl

/-- **Where every attempt finds a pool pending**, all of them are made and the run fails; what they
keep holds after the last. -/
theorem removeLoop_of_pending {P : σ → Prop} (hpending : ∀ s, P s → ∃ poolName pools s',
    (attempt c).run.run s = (.ok (poolName :: pools), s') ∧ P s') (retries : ℕ) (hs : P s) :
    (∃ text, (removeLoop c confDir (retries + 1) s).1 = .error (.py (.runtimeError text))) ∧
      P (removeLoop c confDir (retries + 1) s).2.1 ∧
        (removeLoop c confDir (retries + 1) s).2.2 = retries + 1 := by
  induction retries generalizing s with
  | zero =>
    obtain ⟨poolName, pools, s', hrun, hs'⟩ := hpending s hs
    rw [removeLoop, hrun]
    exact ⟨⟨_, rfl⟩, hs', rfl⟩
  | succ retries ih =>
    obtain ⟨poolName, pools, s', hrun, hs'⟩ := hpending s hs
    obtain ⟨herror, hkeep, hcount⟩ := ih hs'
    rw [removeLoop, hrun]
    exact ⟨herror, hkeep, congrArg (· + 1) hcount⟩

theorem checkRemoveConfDir_attempts (config : List String → Except PyErr (ConfDirApi σ τ))
    (confDir : String) (s : σ) : (checkRemoveConfDir config confDir s).2.2 ≤ 10 := by
  rw [checkRemoveConfDir]
  split
  · exact Nat.zero_le 10
  · exact removeLoop_attempts _ _ _ _

/-! ## On a `Config` -/

/-- A built object would not help: its lock is taken and cannot be entered. -/
theorem attempt_confDirApi {lock : Config V T C → ConfDirM σ Unit} {dir : ConfDirApi σ τ}
    {conf : Config V T C} (h : (lock conf).run.run s = (.ok (), s')) :
    (attempt (conf.confDirApi lock dir)).run.run s = (.error (.py .attributeError), s') := by
  have henter : (conf.confDirApi lock dir).enter.run.run s =
      (.error (.py .attributeError), s') := by
    simp only [Config.confDirApi, ExceptT.run_bind, StateT.run_bind, h]
    rfl
  simp only [attempt, ExceptT.run_bind, StateT.run_bind, henter]
  rfl

/-- **The constructor call raises**, and nothing has changed. -/
theorem checkRemoveConfDir_config (lock : Config V T C → ConfDirM σ Unit) (dir : ConfDirApi σ τ)
    (confDir : String) (s : σ) :
    checkRemoveConfDir (fun args => (Config.call args).map (Config.confDirApi lock dir)) confDir s =
      (.error (.systemExit 1), s, 0) := rfl

section Purpose

variable [Task τ]

/-- Some list of some pool holds the pid of a process that is there. -/
def Conf.Occupied (conf : Conf κ τ) (live : ℤ → Bool) : Prop :=
  ∃ e ∈ conf.entries, ∃ t ∈ e.tasks, (Task.toInt t).toOption.any live = true

instance (conf : Conf κ τ) (live : ℤ → Bool) : Decidable (conf.Occupied live) :=
  inferInstanceAs (Decidable (∃ e ∈ conf.entries, ∃ t ∈ e.tasks, _))

/-- An idle configuration is removed; one in use is kept with the entries of all processes that are
there, and the run exits after ten attempts or fewer. -/
structure RemovesWhenIdle (conf : Conf κ τ) (live : ℤ → Bool)
    (result : Except PyErr Unit × Option (Conf κ τ) × ℕ) : Prop where
  idle : ¬ conf.Occupied live → result.1 = .ok () ∧ result.2.1 = none
  exits : conf.Occupied live → result.1 = .error (.systemExit 1) ∧ result.2.2 ≤ 10
  keeps : conf.Occupied live → ∃ conf', result.2.1 = some conf' ∧ ∀ e ∈ conf.entries,
    ∀ t ∈ e.tasks, (Task.toInt t).toOption.any live = true →
      ∃ e' ∈ conf'.entries, e'.loc = e.loc ∧ t ∈ e'.tasks

/-- **Uninstalling does what it should exactly on a configuration in use**: there it refuses, and on
an idle one as well. -/
theorem confDir_removed_iff (lock : Config V T C → ConfDirM (Option (Conf κ τ)) Unit)
    (dir : ConfDirApi (Option (Conf κ τ)) τ) (confDir : String) (conf : Conf κ τ)
    (live : ℤ → Bool) :
    RemovesWhenIdle conf live (checkRemoveConfDir
      (fun args => (Config.call args).map (Config.confDirApi lock dir)) confDir (some conf)) ↔
      conf.Occupied live := by
  rw [checkRemoveConfDir_config]
  constructor
  · intro h
    by_contra hidle
    cases (h.idle hidle).1
  · intro hbusy
    exact ⟨fun hidle => absurd hbusy hidle, fun _ => ⟨rfl, Nat.zero_le 10⟩,
      fun _ => ⟨conf, rfl, fun e he t ht _ => ⟨e, he, rfl, ht⟩⟩⟩

end Purpose

/-- One list in every pool, and no task. -/
def idleConf : Conf String String where
  pools := .ofList _ [⟨true, "exclusive", .ofList _ [⟨.int 0, .ofList _ [⟨"1", []⟩]⟩]⟩,
    ⟨false, "shared", .ofList _ [⟨.int 0, .ofList _ [⟨"2", []⟩]⟩]⟩,
    ⟨false, "infra", .ofList _ [⟨.int 0, .ofList _ [⟨"0", []⟩]⟩]⟩]

/-- A directory on which all calls return. -/
def emptyDir : ConfDirApi (Option (Conf String String)) String where
  enter := pure ()
  leave := pure ()
  reconcile := pure ()
  pools := pure ["shared", "exclusive", "infra"]
  cpuLists _ := pure ["0"]
  tasksList _ := pure []
  rmtreePools := set (none : Option (Conf String String))
  removeLock := pure ()

example :
    (checkRemoveConfDir (fun _ => .ok emptyDir) "/etc/cmk" (some idleConf)).2 = (none, 1) := by
  decide

/-- **An idle configuration** is not removed. -/
theorem idle_confDir_kept : ¬ RemovesWhenIdle idleConf (fun _ => false) (checkRemoveConfDir
    (fun args => (Config.call args : Except PyErr (Config Unit Unit Unit)).map
      (Config.confDirApi (fun _ => pure ()) emptyDir)) "/etc/cmk" (some idleConf)) := by
  intro h
  rw [checkRemoveConfDir_config] at h
  cases (h.idle (by decide)).1

end Cmk
