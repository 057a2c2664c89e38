import Cmk.Node.Release

/-!
# Node/Child — the command a wrapper runs, and SIGTERM

Between its two sections a wrapper starts the command, registers `child.terminate` for SIGTERM and
waits.  While it waits its pid stands in its lists, and that is what keeps the CPUs from the next
wrapper; nobody else knows of the command.

Python calls a handler with two arguments and `terminate` takes none, so the first SIGTERM throws
the wrapper out of `child.wait()`, the command goes on and `reconcile` takes the CPUs away
(`kept_until_exit_fails`).  As long as no SIGTERM meets a running command they are kept
(`kept_of_quiet`), and a handler that returned would keep them too (`Busy.Run.kept`).
-/

open Machinery

namespace Cmk

/-! ## The handler -/

/-- What Python passes to a signal handler. -/
inductive HandlerArg
  | signum (n : ℤ)
  | frame

/-- `Popen.terminate`, by its arguments besides `self`. -/
def terminate : List HandlerArg → Except PyErr Unit
  | [] => .ok ()
  | _ :: _ => .error .typeError

/-- SIGTERM after `signal.signal(signal.SIGTERM, child.terminate)`. -/
def onSigterm : Except PyErr Unit := terminate [.signum 15, .frame]

theorem onSigterm_ne_ok : onSigterm ≠ .ok () := by simp [onSigterm, terminate]

/-! ## Wrappers and their commands -/

/-- The command of a wrapper: not started, running for a wrapper with this pid and these lists, or
over. -/
inductive Child
  | none
  | running (pid : ℤ) (pool : String) (clists : List String)
  | exited

/-- Where a wrapper is between its two sections: before `Popen`, before `signal.signal`, in
`child.wait()`, or in the last `finally` block with or without the handler registered. -/
inductive Stage
  | setup
  | spawned
  | waiting
  | leaving (registered : Bool)

def Stage.registered : Stage → Bool
  | setup => false
  | spawned => false
  | waiting => true
  | leaving registered => registered

/-- The node, the commands and how far their wrappers are. -/
structure Busy (ι : Type) where
  node : Node ι
  child : ι → Child
  stage : ι → Stage

variable {ι : Type}

/-- One step, labelled by the wrapper that a SIGTERM is delivered to.  Nobody is sent KILL, so a
wrapper between its sections ends by its own last block or by SIGTERM. -/
inductive Busy.Step [DecidableEq ι] (ctor onTerm : Except PyErr Unit) :
    Busy ι → Option ι → Busy ι → Prop
  /-- A section, the start of a wrapper or the end of one that is not between its sections. -/
  | system {s} (node : Node ι) (hs : Node.Step ctor s.node node)
      (hkeep : ∀ i pid pool clists, s.node.wrappers i = .holding pid pool clists →
        node.wrappers i = .holding pid pool clists) :
      Step ctor onTerm s none { s with node }
  | spawn {s} (i : ι) (pid : ℤ) (pool : String) (clists : List String)
      (hi : s.node.wrappers i = .holding pid pool clists) (hstage : s.stage i = .setup) :
      Step ctor onTerm s none
        { s with
          child := Function.update s.child i (.running pid pool clists)
          stage := Function.update s.stage i .spawned }
  /-- What stands before the command raises, or `Popen` does. -/
  | setupRaises {s} (i : ι) (pid : ℤ) (pool : String) (clists : List String)
      (hi : s.node.wrappers i = .holding pid pool clists) (hstage : s.stage i = .setup) :
      Step ctor onTerm s none { s with stage := Function.update s.stage i (.leaving false) }
  | register {s} (i : ι) (pid : ℤ) (pool : String) (clists : List String)
      (hi : s.node.wrappers i = .holding pid pool clists) (hstage : s.stage i = .spawned) :
      Step ctor onTerm s none { s with stage := Function.update s.stage i .waiting }
  | childExit {s} (i : ι) (pid : ℤ) (pool : String) (clists : List String)
      (hc : s.child i = .running pid pool clists) :
      Step ctor onTerm s none { s with child := Function.update s.child i .exited }
  | waitReturns {s} (i : ι) (pid : ℤ) (pool : String) (clists : List String)
      (hi : s.node.wrappers i = .holding pid pool clists) (hstage : s.stage i = .waiting)
      (hc : s.child i = .exited) :
      Step ctor onTerm s none { s with stage := Function.update s.stage i (.leaving true) }
  /-- The last `finally` block. -/
  | release {s} (i : ι) (pid : ℤ) (pool : String) (clists : List String) (r : Except PyErr Unit)
      (registered : Bool) (node : Node ι) (hi : s.node.wrappers i = .holding pid pool clists)
      (hstage : s.stage i = .leaving registered) (hs : Node.Step ctor s.node node)
      (hend : node.wrappers i = .ended pid pool clists r)
      (hkeep : ∀ j, j ≠ i → node.wrappers j = s.node.wrappers j) :
      Step ctor onTerm s none { s with node }
  /-- Without a handler SIGTERM ends the wrapper on the spot. -/
  | termDefault {s} (i : ι) (pid : ℤ) (pool : String) (clists : List String)
      (hi : s.node.wrappers i = .holding pid pool clists) (hreg : (s.stage i).registered = false) :
      Step ctor onTerm s (some i)
        { s with node := { s.node with wrappers := Function.update s.node.wrappers i .dead } }
  | termReturns {s} (i : ι) (pid : ℤ) (pool : String) (clists : List String)
      (hi : s.node.wrappers i = .holding pid pool clists) (hreg : (s.stage i).registered = true)
      (hok : onTerm = .ok ()) : Step ctor onTerm s (some i) s
  /-- What the handler raises comes out of `child.wait()`, and the last `finally` block begins. -/
  | termWaiting {s} (i : ι) (pid : ℤ) (pool : String) (clists : List String) (e : PyErr)
      (hi : s.node.wrappers i = .holding pid pool clists) (hstage : s.stage i = .waiting)
      (herr : onTerm = .error e) :
      Step ctor onTerm s (some i) { s with stage := Function.update s.stage i (.leaving true) }
  /-- What the handler raises in the last `finally` block ends the wrapper. -/
  | termLeaving {s} (i : ι) (pid : ℤ) (pool : String) (clists : List String) (e : PyErr)
      (hi : s.node.wrappers i = .holding pid pool clists) (hstage : s.stage i = .leaving true)
      (herr : onTerm = .error e) :
      Step ctor onTerm s (some i)
        { s with node := { s.node with wrappers := Function.update s.node.wrappers i .dead } }

def Busy.fresh (d : ConfDict String String) : Busy ι :=
  ⟨Node.fresh d, fun _ => .none, fun _ => .setup⟩

/-- What can be reached from a configmap when every SIGTERM comes where it is allowed to. -/
def Busy.Run [DecidableEq ι] (ctor onTerm : Except PyErr Unit) (allowed : Busy ι → ι → Prop)
    (d : ConfDict String String) : Busy ι → Prop :=
  Relation.ReflTransGen
    (fun s s' => ∃ term, Busy.Step ctor onTerm s term s' ∧ ∀ i ∈ term, allowed s i) (Busy.fresh d)

/-- The command of the wrapper is not running. -/
def Busy.Quiet (s : Busy ι) (i : ι) : Prop :=
  ∀ pid pool clists, s.child i ≠ .running pid pool clists

/-- While a command runs, the pid of its wrapper stands in every list the wrapper was allocated. -/
def Busy.Kept (s : Busy ι) : Prop :=
  ∀ i pid pool clists, s.child i = .running pid pool clists →
    ∀ cl ∈ clists, Listed s.node.config.entries pool cl (taskOf String pid)

/-! ## What keeps the lists -/

/-- SIGTERM does no harm: the command is not running, or its wrapper waits for it under a handler
that returns. -/
def Busy.Harmless (onTerm : Except PyErr Unit) (s : Busy ι) (i : ι) : Prop :=
  ∀ pid pool clists, s.child i = .running pid pool clists → s.stage i = .waiting ∧ onTerm = .ok ()

/-- Under the handler of `isolate` only a SIGTERM without a running command does no harm. -/
theorem Busy.harmless_onSigterm {s : Busy ι} {i : ι} : s.Harmless onSigterm i ↔ s.Quiet i := by
  constructor
  · intro h pid pool clists hc
    exact onSigterm_ne_ok (h pid pool clists hc).2
  · intro h pid pool clists hc
    exact absurd hc (h pid pool clists)

/-- The wrapper of a running command has not come to its last block. -/
def Busy.Attended (s : Busy ι) : Prop :=
  ∀ i pid pool clists, s.child i = .running pid pool clists →
    s.node.wrappers i = .holding pid pool clists ∧ (s.stage i = .spawned ∨ s.stage i = .waiting)

section Runs

variable [DecidableEq ι] {ctor onTerm : Except PyErr Unit} {s s' : Busy ι} {term : Option ι}

/-- What the node sees of a step. -/
theorem Busy.Step.node (h : Busy.Step ctor onTerm s term s') :
    s'.node = s.node ∨ Node.Step ctor s.node s'.node := by
  cases h with
  | system node hs => exact .inr hs
  | release i pid pool clists r registered node hi hstage hs => exact .inr hs
  | termDefault i => exact .inr (.die i)
  | termLeaving i => exact .inr (.die i)
  | spawn | setupRaises | register | childExit | waitReturns | termReturns | termWaiting =>
    exact .inl rfl

omit [DecidableEq ι] in
/-- A wrapper in its last block has no running command. -/
theorem Busy.Attended.quiet_of_leaving (h : s.Attended) {i : ι} {registered : Bool}
    (hstage : s.stage i = .leaving registered) : s.Quiet i := by
  intro pid pool clists hc
  obtain ⟨-, hs | hs⟩ := h i pid pool clists hc <;> rw [hstage] at hs <;> cases hs

omit [DecidableEq ι] in
theorem Busy.Attended.quiet_of_setup (h : s.Attended) {i : ι} (hstage : s.stage i = .setup) :
    s.Quiet i := by
  intro pid pool clists hc
  obtain ⟨-, hs | hs⟩ := h i pid pool clists hc <;> rw [hstage] at hs <;> cases hs

/-- The stage of a wrapper without a running command is of no account. -/
theorem Busy.Attended.update_stage (h : s.Attended) {i : ι} {st : Stage}
    (hi : s.Quiet i ∨ st = .waiting) :
    Busy.Attended { s with stage := Function.update s.stage i st } := by
  intro j pid pool clists hc
  obtain ⟨hw, hs⟩ := h j pid pool clists hc
  refine ⟨hw, ?_⟩
  by_cases hj : j = i
  · obtain rfl := hj
    obtain hq | rfl := hi
    · exact absurd hc (hq pid pool clists)
    · exact .inr (Function.update_self ..)
  · dsimp only
    rwa [Function.update_of_ne hj]

omit [DecidableEq ι] in
/-- Nor is what becomes of the wrapper itself. -/
theorem Busy.Attended.update_wrapper (h : s.Attended) {i : ι} (hi : s.Quiet i) {node : Node ι}
    (hkeep : ∀ j, j ≠ i → node.wrappers j = s.node.wrappers j) :
    Busy.Attended { s with node } := by
  intro j pid pool clists hc
  obtain ⟨hw, hs⟩ := h j pid pool clists hc
  have hj : j ≠ i := fun hj => hi pid pool clists (hj ▸ hc)
  exact ⟨(hkeep j hj).trans hw, hs⟩

/-- **Every step whose SIGTERM does no harm keeps the commands attended.** -/
theorem Busy.Attended.step (h : s.Attended) (hs : Busy.Step ctor onTerm s term s')
    (hterm : ∀ i ∈ term, s.Harmless onTerm i) : s'.Attended := by
  cases hs with
  | system node hs hkeep =>
    intro j pid pool clists hc
    obtain ⟨hw, hst⟩ := h j pid pool clists hc
    exact ⟨hkeep j pid pool clists hw, hst⟩
  | spawn i pid pool clists hi hstage =>
    intro j pid' pool' clists' hc
    dsimp only at hc ⊢
    by_cases hj : j = i
    · obtain rfl := hj
      obtain ⟨⟩ := (Function.update_self j _ s.child).symm.trans hc
      exact ⟨hi, .inl (Function.update_self ..)⟩
    · rw [Function.update_of_ne hj] at hc ⊢
      exact h j pid' pool' clists' hc
  | setupRaises i pid pool clists hi hstage =>
    exact h.update_stage (.inl (h.quiet_of_setup hstage))
  | register i pid pool clists hi hstage => exact h.update_stage (.inr rfl)
  | childExit i pid pool clists hc =>
    intro j pid' pool' clists' hc'
    dsimp only at hc'
    have hj : j ≠ i := fun hj => by
      rw [hj, Function.update_self] at hc'
      cases hc'
    rw [Function.update_of_ne hj] at hc'
    exact h j pid' pool' clists' hc'
  | waitReturns i pid pool clists hi hstage hc =>
    exact h.update_stage (.inl fun pid' pool' clists' hc' => by simp [hc] at hc')
  | release i pid pool clists r registered node hi hstage hs hend hkeep =>
    exact h.update_wrapper (h.quiet_of_leaving hstage) hkeep
  | termDefault i pid pool clists hi hreg =>
    -- A wrapper without a handler is not waiting, so only a quiet one may be met.
    have hq : s.Quiet i := fun pid' pool' clists' hc => by
      have hst := (hterm i rfl pid' pool' clists' hc).1
      rw [hst] at hreg
      cases hreg
    exact h.update_wrapper hq fun j hj => Function.update_of_ne hj ..
  | termReturns i pid pool clists hi hreg hok => exact h
  | termWaiting i pid pool clists e hi hstage herr =>
    have hq : s.Quiet i := fun pid' pool' clists' hc => by
      have hok := (hterm i rfl pid' pool' clists' hc).2
      rw [hok] at herr
      cases herr
    exact h.update_stage (.inl hq)
  | termLeaving i pid pool clists e hi hstage herr =>
    exact h.update_wrapper (h.quiet_of_leaving hstage) fun j hj => Function.update_of_ne hj ..

variable {allowed : Busy ι → ι → Prop} {d : ConfDict String String}

/-- A run with commands is a run of the node. -/
theorem Busy.Run.node (h : Busy.Run ctor onTerm allowed d s) : Node.Run ctor d s.node := by
  induction h with
  | refl => exact .refl
  | tail _ hs ih =>
    obtain ⟨term, hs, -⟩ := hs
    obtain hn | hn := hs.node
    · exact hn ▸ ih
    · exact ih.tail hn

theorem Busy.Run.attended (hallowed : ∀ s i, allowed s i → s.Harmless onTerm i)
    (h : Busy.Run ctor onTerm allowed d s) : s.Attended := by
  induction h with
  | refl =>
    intro i pid pool clists hc
    cases hc
  | tail _ hs ih =>
    obtain ⟨term, hs, hterm⟩ := hs
    exact ih.step hs fun i hi => hallowed _ i (hterm i hi)

/-- **No command loses its CPUs in a run whose SIGTERMs do no harm**, whatever the constructor call
and the handler come to. -/
theorem Busy.Run.kept (hallowed : ∀ s i, allowed s i → s.Harmless onTerm i)
    (h : Busy.Run ctor onTerm allowed d s) : s.Kept := by
  intro i pid pool clists hc
  obtain ⟨hw, -⟩ := h.attended hallowed i pid pool clists hc
  have hheld : (s.node.wrappers i).Unreleased pid pool clists := hw ▸ .holding pid pool clists
  exact h.node.inv.listed hheld

end Runs

/-- **No command loses its CPUs in a run in which every SIGTERM comes when the command of the
wrapper it is for is not running.** -/
theorem kept_of_quiet [DecidableEq ι] (configmapName podName : String) (d : ConfDict String String)
    (s : Busy ι)
    (h : Busy.Run (releaseConfig configmapName podName) onSigterm Busy.Quiet d s) : s.Kept :=
  h.kept fun _ _ hq => Busy.harmless_onSigterm.mpr hq

/-- A wrapper waits for the command it started on the list. -/
def waitingOne : Busy Unit :=
  ⟨⟨leaked.config, fun _ => .holding 7 "exclusive" ["1"]⟩,
    fun _ => .running 7 "exclusive" ["1"], fun _ => .waiting⟩

theorem waitingOne_run {allowed : Busy Unit → Unit → Prop} {ctor onTerm : Except PyErr Unit} :
    Busy.Run ctor onTerm allowed twoLists waitingOne := by
  have h : Busy.Run ctor onTerm allowed twoLists (Busy.fresh twoLists) := .refl
  replace h := h.tail ⟨_, .system _ (.start () 7 rfl (by unfold Node.Live; decide)) nofun, nofun⟩
  replace h := h.tail ⟨_, .system _ (.allocate () 7 ⟨"exclusive", some "-1"⟩
    ⟨none, 0, fun _ => .ok 7⟩ _ _ _ rfl ⟨_, .refl _, rfl⟩ (by simp) rfl) nofun, nofun⟩
  replace h := h.tail ⟨_, .spawn () 7 "exclusive" ["1"] rfl rfl, nofun⟩
  replace h := h.tail ⟨_, .register () 7 "exclusive" ["1"] rfl rfl, nofun⟩
  exact h

theorem kept_of_quiet_one : waitingOne.Kept :=
  kept_of_quiet "cmk-config-node" "pod" twoLists waitingOne waitingOne_run

/-- SIGTERM while the command runs: the wrapper ends, the command does not, and `reconcile` finds no
process under the pid. -/
theorem kept_until_exit_fails :
    ¬ ∀ s : Busy Unit, Busy.Run (releaseConfig "cmk-config-node" "pod") onSigterm
      (fun _ _ => True) twoLists s → s.Kept := by
  intro hall
  have h : Busy.Run (releaseConfig "cmk-config-node" "pod") onSigterm (fun _ _ => True) twoLists
    waitingOne := waitingOne_run
  replace h := h.tail ⟨_, .termWaiting () 7 "exclusive" ["1"] _ rfl rfl rfl, fun _ _ => trivial⟩
  replace h := h.tail ⟨_, .release () 7 "exclusive" ["1"] _ true _ rfl rfl
    (.finishError () 7 "exclusive" ["1"] (.ok 7) _ _ rfl ⟨_, .refl _, rfl⟩ (by simp) rfl) rfl
    nofun, nofun⟩
  replace h := h.tail ⟨_, .system _ (.die ()) nofun, nofun⟩
  replace h := h.tail ⟨_, .system _ (.reconcile (fun _ _ => .ok false) _ _ ⟨_, .refl _, rfl⟩
    (fun _ ⟨_, hi⟩ => by cases hi) rfl) nofun, nofun⟩
  have hk := hall _ h () 7 "exclusive" ["1"] rfl "1" (by simp)
  exact absurd hk (by unfold Listed; decide)

end Cmk
