import Cmk.Config.Lock
import Cmk.Machinery.Lease
import Cmk.Reconcile

/-!
# Node/System — the isolate wrappers and the reconciler of one node

Every locked section is one step of the system, which is what `lock_protocol` licenses.  Wrappers
start under a pid no live process has, run their two sections and die at any moment without a word;
the reconciler runs in between.  A section reads the stored dictionary with its keys in any order,
since the YAML writer sorts them.

The constructor call at the head of the last `finally` block of `isolate` is a parameter of the
system, `ctor`; `releaseConfig` is the one in the source.
-/

open Machinery

namespace Cmk

/-! ## Parties -/

/-- An `isolate` process: before its allocation section, after one that raised, between its
sections, at the end of its last `finally` block with the outcome of that block, or dead. -/
inductive Wrapper
  | absent
  | started (pid : ℤ)
  | failed (pid : ℤ)
  | holding (pid : ℤ) (pool : String) (clists : List String)
  | ended (pid : ℤ) (pool : String) (clists : List String) (result : Except PyErr Unit)
  | dead

/-- The pid of a live process. -/
def Wrapper.pid? : Wrapper → Option ℤ
  | absent => none
  | started pid => some pid
  | failed pid => some pid
  | holding pid _ _ => some pid
  | ended pid _ _ _ => some pid
  | dead => none

/-- The process is alive, was allocated the lists and has not released them. -/
inductive Wrapper.Unreleased : Wrapper → ℤ → String → List String → Prop
  | holding (pid : ℤ) (pool : String) (clists : List String) :
      Unreleased (.holding pid pool clists) pid pool clists
  | ended (pid : ℤ) (pool : String) (clists : List String) (e : PyErr) :
      Unreleased (.ended pid pool clists (.error e)) pid pool clists

theorem Wrapper.Unreleased.pid? {w : Wrapper} {pid : ℤ} {pool : String} {clists : List String}
    (h : w.Unreleased pid pool clists) : w.pid? = some pid := by
  cases h <;> rfl

/-- The configmap of the node and its wrappers. -/
structure Node (ι : Type) where
  config : ConfDict String String
  wrappers : ι → Wrapper

variable {ι : Type}

/-- Some live process has the pid. -/
def Node.Live (s : Node ι) (pid : ℤ) : Prop := ∃ i, (s.wrappers i).pid? = some pid

/-- `lock` may build this configuration from the stored dictionary. -/
def Node.Reads (s : Node ι) (c : Conf String String) : Prop :=
  ∃ d, s.config.SameData d ∧ buildConfig d = .ok c

theorem Node.Reads.known {s : Node ι} {c : Conf String String} (h : s.Reads c) : c.Known := by
  obtain ⟨d, -, hb⟩ := h
  exact .of_buildConfig hb

theorem Node.Reads.entries {s : Node ι} {c : Conf String String} (h : s.Reads c) :
    s.config.entries.Perm c.entries := by
  obtain ⟨d, hd, hb⟩ := h
  rw [entries_of_buildConfig hb]
  exact hd.entries

/-! ## Steps -/

/-- The call `config.Config(configmap_name, pod_name)` of the last `finally` block. -/
def releaseConfig (configmapName podName : String) : Except PyErr Unit := do
  let _ ← (Config.call [configmapName, podName] :
    Except PyErr (Config ℕ (ConfDict String String) (Conf String String)))

/-- The last `finally` block on the configuration it reads. -/
def finallyBlock (ctor : Except PyErr Unit) (poolName : String) (getpid : Except PyErr ℤ)
    (clists : List String) (c : Conf String String) : Except PyErr (Conf String String) := do
  ctor
  releaseSection poolName getpid clists c

/-- One step of the node. -/
inductive Node.Step [DecidableEq ι] (ctor : Except PyErr Unit) : Node ι → Node ι → Prop
  | start {s} (i : ι) (pid : ℤ) (hi : s.wrappers i = .absent) (hp : ¬ s.Live pid) :
      Step ctor s { s with wrappers := Function.update s.wrappers i (.started pid) }
  | allocate {s} (i : ι) (pid : ℤ) (args : IsolateArgs) (env : IsolateEnv)
      (c c' : Conf String String) (clists : List String) (hi : s.wrappers i = .started pid)
      (hread : s.Reads c) (hpid : ∀ k q, env.getpid k = .ok q → q = pid)
      (hrun : isolateSection args env c = (.ok clists, c')) :
      Step ctor s
        { config := buildConfigmap c'
          wrappers := Function.update s.wrappers i (.holding pid args.poolName clists) }
  /-- The section raises; what it recorded so far is published all the same. -/
  | allocateError {s} (i : ι) (pid : ℤ) (args : IsolateArgs) (env : IsolateEnv)
      (c c' : Conf String String) (e : PyErr) (hi : s.wrappers i = .started pid)
      (hread : s.Reads c) (hpid : ∀ k q, env.getpid k = .ok q → q = pid)
      (hrun : isolateSection args env c = (.error e, c')) :
      Step ctor s
        { config := buildConfigmap c'
          wrappers := Function.update s.wrappers i (.failed pid) }
  /-- The last `finally` block, whatever the code between the two sections came to. -/
  | finish {s} (i : ι) (pid : ℤ) (pool : String) (clists : List String) (getpid : Except PyErr ℤ)
      (c c' : Conf String String) (hi : s.wrappers i = .holding pid pool clists)
      (hread : s.Reads c) (hpid : ∀ q, getpid = .ok q → q = pid)
      (hrun : finallyBlock ctor pool getpid clists c = .ok c') :
      Step ctor s
        { config := buildConfigmap c'
          wrappers := Function.update s.wrappers i (.ended pid pool clists (.ok ())) }
  /-- The block raises before its `unlock`; nothing is published. -/
  | finishError {s} (i : ι) (pid : ℤ) (pool : String) (clists : List String)
      (getpid : Except PyErr ℤ) (c : Conf String String) (e : PyErr)
      (hi : s.wrappers i = .holding pid pool clists) (hread : s.Reads c)
      (hpid : ∀ q, getpid = .ok q → q = pid)
      (hrun : finallyBlock ctor pool getpid clists c = .error e) :
      Step ctor s
        { s with wrappers := Function.update s.wrappers i (.ended pid pool clists (.error e)) }
  /-- The locked section of `reconcile`, while every live process is in procfs. -/
  | reconcile {s} (procExists : ℕ → ℤ → Except PyErr Bool) (c c' : Conf String String)
      (hread : s.Reads c) (hlive : ∀ pid, s.Live pid → ∀ k, procExists k pid = .ok true)
      (hrun : reconcileSection procExists c = .ok c') :
      Step ctor s { s with config := buildConfigmap c' }
  | die {s} (i : ι) : Step ctor s { s with wrappers := Function.update s.wrappers i .dead }

/-- A node whose configmap has been written and on which nothing runs. -/
def Node.fresh (d : ConfDict String String) : Node ι := ⟨d, fun _ => .absent⟩

/-- What the node can reach from a configmap. -/
def Node.Run [DecidableEq ι] (ctor : Except PyErr Unit) (d : ConfDict String String) :
    Node ι → Prop := Relation.ReflTransGen (Node.Step ctor) (Node.fresh d)

/-! ## Pids and recorded lists -/

/-- No two live processes share a pid. -/
def Distinct (wrappers : ι → Wrapper) : Prop :=
  ∀ i j pid, (wrappers i).pid? = some pid → (wrappers j).pid? = some pid → i = j

/-- What holds of a wrapper under a configmap: it was allocated some list, and until it has released
them its pid is in a list of each name. -/
structure Wrapper.Ok (config : ConfDict String String) (w : Wrapper) : Prop where
  some_list : ∀ pid pool clists r, w = .holding pid pool clists ∨ w = .ended pid pool clists r →
    clists ≠ []
  listed : ∀ pid pool clists, w.Unreleased pid pool clists →
    ∀ cl ∈ clists, Listed config.entries pool cl (taskOf String pid)

/-- What every run keeps from whatever configmap it starts. -/
structure Node.Inv (s : Node ι) : Prop where
  distinct : Distinct s.wrappers
  wrappers : ∀ i, (s.wrappers i).Ok s.config

theorem Wrapper.Ok.of_listed {config config' : ConfDict String String} {w : Wrapper}
    (h : w.Ok config) (hl : ∀ pid pool cl, w.pid? = some pid →
      Listed config.entries pool cl (taskOf String pid) →
      Listed config'.entries pool cl (taskOf String pid)) : w.Ok config' :=
  ⟨h.some_list, fun pid pool clists hw cl hcl =>
    hl pid pool cl hw.pid? (h.listed pid pool clists hw cl hcl)⟩

/-- A wrapper that was allocated nothing. -/
theorem Wrapper.Ok.of_idle (config : ConfDict String String) {w : Wrapper}
    (hh : ∀ pid pool clists, w ≠ .holding pid pool clists)
    (he : ∀ pid pool clists r, w ≠ .ended pid pool clists r) : w.Ok config where
  some_list pid pool clists r hw := (hw.elim (hh pid pool clists) (he pid pool clists r)).elim
  listed pid pool clists hw := by
    cases hw with
    | holding => exact absurd rfl (hh pid pool clists)
    | ended _ _ _ e => exact absurd rfl (he pid pool clists (.error e))

theorem Wrapper.Ok.of_holding {config : ConfDict String String} {pid : ℤ} {pool : String}
    {clists : List String} (hne : clists ≠ [])
    (hl : ∀ cl ∈ clists, Listed config.entries pool cl (taskOf String pid)) :
    (Wrapper.holding pid pool clists).Ok config where
  some_list _ _ _ _ hw := by
    obtain hw | hw := hw <;> cases hw
    exact hne
  listed _ _ _ hw := by
    cases hw
    exact hl

theorem Wrapper.Ok.of_ended {config : ConfDict String String} {pid : ℤ} {pool : String}
    {clists : List String} {r : Except PyErr Unit} (hne : clists ≠ [])
    (hl : ∀ e, r = .error e → ∀ cl ∈ clists, Listed config.entries pool cl (taskOf String pid)) :
    (Wrapper.ended pid pool clists r).Ok config where
  some_list _ _ _ _ hw := by
    obtain hw | hw := hw <;> cases hw
    exact hne
  listed _ _ _ hw := by
    cases hw
    exact hl _ rfl

section Invariant

variable [DecidableEq ι] {ctor : Except PyErr Unit} {s s' : Node ι}

theorem Distinct.update {wrappers : ι → Wrapper} (h : Distinct wrappers) {i : ι} {w : Wrapper}
    (hw : ∀ pid, w.pid? = some pid → ∀ j, j ≠ i → (wrappers j).pid? ≠ some pid) :
    Distinct (Function.update wrappers i w) := Lease.distinct_update h hw

/-- A wrapper that stays alive keeps its pid to itself. -/
theorem Distinct.update_same {wrappers : ι → Wrapper} (h : Distinct wrappers) {i : ι} {w : Wrapper}
    (hw : w.pid? = (wrappers i).pid?) : Distinct (Function.update wrappers i w) :=
  h.update fun pid hp j hj hjp => hj (h j i pid hjp (hw ▸ hp))

omit [DecidableEq ι] in
theorem Node.Inv.fresh (d : ConfDict String String) : (Node.fresh d : Node ι).Inv where
  distinct _ _ _ hi := by simp [Node.fresh, Wrapper.pid?] at hi
  wrappers _ := .of_idle d (by simp [Node.fresh]) (by simp [Node.fresh])

omit [DecidableEq ι] in
theorem Node.Inv.listed (h : s.Inv) {i : ι} {pid : ℤ} {pool : String} {clists : List String}
    (hi : (s.wrappers i).Unreleased pid pool clists) :
    ∀ cl ∈ clists, Listed s.config.entries pool cl (taskOf String pid) :=
  (h.wrappers i).listed pid pool clists hi

theorem finallyBlock_ok {pool : String} {getpid : Except PyErr ℤ} {clists : List String}
    {c c' : Conf String String} (h : finallyBlock ctor pool getpid clists c = .ok c') :
    ctor = .ok () ∧ releaseSection pool getpid clists c = .ok c' := by
  obtain ⟨⟨⟩, hc, hr⟩ := bind_eq_ok.mp h
  exact ⟨hc, hr⟩

theorem Wrapper.Ok.update {wrappers : ι → Wrapper} {i : ι} {w : Wrapper}
    {config : ConfDict String String} (hw : w.Ok config)
    (hrest : ∀ j, j ≠ i → (wrappers j).Ok config) (j : ι) :
    (Function.update wrappers i w j).Ok config :=
  (Function.forall_update_iff wrappers fun _ x => x.Ok config).mpr ⟨hw, hrest⟩ j

/-- A wrapper whose last block raises keeps its lists. -/
theorem Node.Inv.ended_error (h : s.Inv) {i : ι} {pid : ℤ} {pool : String} {clists : List String}
    (hi : s.wrappers i = .holding pid pool clists) (e : PyErr) :
    ({ s with wrappers := Function.update s.wrappers i (.ended pid pool clists (.error e)) } :
      Node ι).Inv := by
  have hne := (h.wrappers i).some_list pid pool clists (.ok ()) (.inl hi)
  have hheld : (s.wrappers i).Unreleased pid pool clists := hi ▸ .holding pid pool clists
  exact ⟨h.distinct.update_same (by rw [hi]; rfl),
    Wrapper.Ok.update (.of_ended hne fun _ _ => h.listed hheld) fun j _ => h.wrappers j⟩

/-- **Every step keeps the invariant.** -/
theorem Node.Inv.step (h : s.Inv) (hs : Node.Step ctor s s') : s'.Inv := by
  cases hs with
  | start i pid hi hp =>
    refine ⟨h.distinct.update fun q hq j _ hjq => ?_,
      Wrapper.Ok.update (.of_idle _ (by simp) (by simp)) fun j _ => h.wrappers j⟩
    exact hp ⟨j, hjq.trans hq.symm⟩
  | allocate i pid args env c c' clists hi hread hpid hrun =>
    obtain ⟨hne, hlist⟩ := isolateSection_listed hpid hrun
    refine ⟨h.distinct.update_same (by rw [hi]; rfl),
      Wrapper.Ok.update (.of_holding hne ?_) fun j _ => ?_⟩
    · rwa [entries_buildConfigmap]
    · refine (h.wrappers j).of_listed fun q pool cl _ hl => ?_
      have := (hl.perm hread.entries).isolateSection args env
      rwa [entries_buildConfigmap, ← show (isolateSection args env c).2 = c' by rw [hrun]]
  | allocateError i pid args env c c' e hi hread hpid hrun =>
    refine ⟨h.distinct.update_same (by rw [hi]; rfl),
      Wrapper.Ok.update (.of_idle _ (by simp) (by simp)) fun j _ => ?_⟩
    refine (h.wrappers j).of_listed fun q pool cl _ hl => ?_
    have := (hl.perm hread.entries).isolateSection args env
    rwa [entries_buildConfigmap, ← show (isolateSection args env c).2 = c' by rw [hrun]]
  | finish i pid pool clists getpid c c' hi hread hpid hrun =>
    have hne := (h.wrappers i).some_list pid pool clists (.ok ()) (.inl hi)
    refine ⟨h.distinct.update_same (by rw [hi]; rfl),
      Wrapper.Ok.update (.of_ended hne fun e he => by simp at he) fun j hj => ?_⟩
    refine (h.wrappers j).of_listed fun q pool' cl hq hl => ?_
    rw [entries_buildConfigmap]
    refine (hl.perm hread.entries).releaseSection (fun p hp hqp => hj ?_) (finallyBlock_ok hrun).2
    obtain rfl := hpid p hp
    obtain rfl := taskOf_string_injective hqp
    exact h.distinct j i q hq (by rw [hi]; rfl)
  | finishError i pid pool clists getpid c e hi hread hpid hrun =>
    exact h.ended_error hi e
  | reconcile procExists c c' hread hlive hrun =>
    refine ⟨h.distinct, fun j => (h.wrappers j).of_listed fun q pool cl hq hl => ?_⟩
    rw [entries_buildConfigmap]
    exact (hl.perm hread.entries).reconcileSection taskOf_string_injective (hlive q ⟨j, hq⟩) hrun
  | die i =>
    exact ⟨h.distinct.update fun q hq => by simp [Wrapper.pid?] at hq,
      Wrapper.Ok.update (.of_idle _ (by simp) (by simp)) fun j _ => h.wrappers j⟩

/-- **Every run keeps the invariant**, whatever the configmap it starts from. -/
theorem Node.Run.inv {d : ConfDict String String} (h : Node.Run ctor d s) : s.Inv := by
  induction h with
  | refl => exact .fresh d
  | tail _ hs ih => exact ih.step hs

end Invariant

end Cmk
