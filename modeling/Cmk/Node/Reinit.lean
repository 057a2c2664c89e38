import Cmk.Config.LockProtocol
import Cmk.Init.Partition
import Cmk.Node.Exclusion

/-!
# Node/Reinit — `init` on a node that is already in use

`new` patches the configmap that is there with a body of its own: no owner, no tasks and no
`resourceVersion`.  The system here has one step for every call to the API server, so the write of a
further `init` falls anywhere between the calls of the wrappers and the reconcilers, also between a
`lock` and its `unlock`.

A node on which every such write comes while no client is inside a section and no live wrapper holds
a list stays as safe as after the first `init`, and the first write that comes otherwise makes it
unsafe (`reinit_safe_iff`).
-/

open Machinery Cmk.Topology

namespace Cmk

/-! ## A run of `init` -/

/-- An `init` whose `configure` returns: the machine, the arguments and the outcome. -/
structure InitRun where
  host : Host
  numExclusive : ℤ
  numShared : ℤ
  exclusiveMode : String
  sharedMode : String
  exclNonIsolcpus : String
  result : Platform × Pools
  distinct : ∀ lscpuOutput, host.lscpu = .ok lscpuOutput → DistinctCpus lscpuOutput
  configured : configure host numExclusive numShared exclusiveMode sharedMode exclNonIsolcpus =
    .ok result

/-- What it writes under `config`. -/
def InitRun.config (r : InitRun) : ConfDict String String :=
  newConfig r.result.1 r.result.2 r.exclNonIsolcpus

theorem InitRun.fresh (r : InitRun) : r.config.Fresh :=
  fresh_newConfig (configure_ok r.distinct r.configured).1 _ _

/-- The body of the patch that `new` sends, built by `clusterinit.update_configmap`. -/
def Clusterinit.updateConfigmap {V T : Type} (data : T) : Patch V T := ⟨"", some data, none⟩

/-! ## The node with its lock -/

/-- Who locks the configmap: a wrapper for its two sections, or a run of `reconcile`. -/
inductive Holder (ι : Type)
  | wrapper (i : ι)
  | reconciler (n : ℕ)
  deriving DecidableEq

/-- Where a client is: outside, about to patch the configmap it read, or inside its section with the
configuration it loaded. -/
inductive Turn (V : Type)
  | outside
  | seen (cm : ConfigMap V (ConfDict String String))
  | inside (c : Conf String String)

structure Locked (ι V : Type) where
  cm : ConfigMap V (ConfDict String String)
  wrappers : ι → Wrapper
  turn : Holder ι → Turn V
  issued : Set V

/-- A client may load this configuration from the configmap. -/
def ConfigMap.Reads {V : Type} (cm : ConfigMap V (ConfDict String String))
    (c : Conf String String) : Prop :=
  ∃ d d', cm.config = some d ∧ d.SameData d' ∧ buildConfig d' = .ok c

variable {ι V : Type}

def Locked.node (s : Locked ι V) : Node ι := ⟨s.cm.config.getD .empty, s.wrappers⟩

/-- The client is about to lock: a wrapper before its allocation, one whose last block has got its
`Config` object, or a reconciler. -/
def Locked.Ready (ctor : Except PyErr Unit) (s : Locked ι V) : Holder ι → Prop
  | .wrapper i => (∃ pid, s.wrappers i = .started pid) ∨
      ((∃ pid pool clists, s.wrappers i = .holding pid pool clists) ∧ ctor = .ok ())
  | .reconciler _ => True

section Steps

variable [DecidableEq ι]

/-- A section on the configuration its client loaded: what is published, and what becomes of the
wrappers. -/
inductive Section (wrappers : ι → Wrapper) (c : Conf String String) : Holder ι → Node ι → Prop
  | allocate (i : ι) (pid : ℤ) (args : IsolateArgs) (env : IsolateEnv) (c' : Conf String String)
      (clists : List String) (hi : wrappers i = .started pid)
      (hpid : ∀ k q, env.getpid k = .ok q → q = pid)
      (hrun : isolateSection args env c = (.ok clists, c')) :
      Section wrappers c (.wrapper i)
        ⟨buildConfigmap c', Function.update wrappers i (.holding pid args.poolName clists)⟩
  | allocateError (i : ι) (pid : ℤ) (args : IsolateArgs) (env : IsolateEnv)
      (c' : Conf String String) (e : PyErr) (hi : wrappers i = .started pid)
      (hpid : ∀ k q, env.getpid k = .ok q → q = pid)
      (hrun : isolateSection args env c = (.error e, c')) :
      Section wrappers c (.wrapper i)
        ⟨buildConfigmap c', Function.update wrappers i (.failed pid)⟩
  | finish (i : ι) (pid : ℤ) (pool : String) (clists : List String) (getpid : Except PyErr ℤ)
      (c' : Conf String String) (hi : wrappers i = .holding pid pool clists)
      (hpid : ∀ q, getpid = .ok q → q = pid) (hrun : releaseSection pool getpid clists c = .ok c') :
      Section wrappers c (.wrapper i)
        ⟨buildConfigmap c', Function.update wrappers i (.ended pid pool clists (.ok ()))⟩
  | reconcile (n : ℕ) (procExists : ℕ → ℤ → Except PyErr Bool) (c' : Conf String String)
      (hlive : ∀ i pid, (wrappers i).pid? = some pid → ∀ k, procExists k pid = .ok true)
      (hrun : reconcileSection procExists c = .ok c') :
      Section wrappers c (.reconciler n) ⟨buildConfigmap c', wrappers⟩

variable [DecidableEq V]

/-- One call of one client, or its end.  A further `init` writes where it is allowed to. -/
inductive Locked.Step (ctor : Except PyErr Unit) (names : Holder ι → String)
    (allowed : Locked ι V → Prop) : Locked ι V → Locked ι V → Prop
  | start {s} (i : ι) (pid : ℤ) (hi : s.wrappers i = .absent) (hp : ¬ s.node.Live pid) :
      Step ctor names allowed s
        { s with wrappers := Function.update s.wrappers i (.started pid) }
  /-- `lock` reads the configmap and finds no owner. -/
  | read {s} (k : Holder ι) (hk : s.turn k = .outside) (hready : s.Ready ctor k)
      (howner : s.cm.owner = some "") :
      Step ctor names allowed s { s with turn := Function.update s.turn k (.seen s.cm) }
  /-- The patch of the object read is accepted and `lock` returns. -/
  | claim {s} (k : Holder ι) (cm cm' : ConfigMap V (ConfDict String String))
      (c : Conf String String) (v : V) (hk : s.turn k = .seen cm) (hv : v ∉ s.issued)
      (hp : s.cm.patch ⟨names k, cm.config, some cm.resourceVersion⟩ v = .ok cm')
      (hread : cm.Reads c) :
      Step ctor names allowed s
        { s with
          cm := cm'
          turn := Function.update s.turn k (.inside c)
          issued := insert v s.issued }
  /-- The patch is accepted, but `lock` raises on the content, or the client is killed before it
  learns of it. -/
  | claimError {s} (k : Holder ι) (cm cm' : ConfigMap V (ConfDict String String)) (v : V)
      (hk : s.turn k = .seen cm) (hv : v ∉ s.issued)
      (hp : s.cm.patch ⟨names k, cm.config, some cm.resourceVersion⟩ v = .ok cm') :
      Step ctor names allowed s
        { s with
          cm := cm'
          turn := Function.update s.turn k .outside
          issued := insert v s.issued }
  /-- The section and its `unlock`. -/
  | unlock {s} (k : Holder ι) (c : Conf String String) (node : Node ι)
      (cm' : ConfigMap V (ConfDict String String)) (v : V) (hk : s.turn k = .inside c)
      (hsec : Section s.wrappers c k node) (hv : v ∉ s.issued)
      (hp : s.cm.patch ⟨"", some node.config, none⟩ v = .ok cm') :
      Step ctor names allowed s
        { cm := cm'
          wrappers := node.wrappers
          turn := Function.update s.turn k .outside
          issued := insert v s.issued }
  /-- The last `finally` block raises, before its `lock` or after it. -/
  | finishError {s} (i : ι) (pid : ℤ) (pool : String) (clists : List String) (e : PyErr)
      (hi : s.wrappers i = .holding pid pool clists)
      (hrun : ctor = .error e ∨ ∃ c getpid, s.turn (.wrapper i) = .inside c ∧
        (∀ q, getpid = .ok q → q = pid) ∧ releaseSection pool getpid clists c = .error e) :
      Step ctor names allowed s
        { s with
          wrappers := Function.update s.wrappers i (.ended pid pool clists (.error e))
          turn := Function.update s.turn (.wrapper i) .outside }
  /-- A wrapper dies, wherever it is. -/
  | die {s} (i : ι) :
      Step ctor names allowed s
        { s with
          wrappers := Function.update s.wrappers i .dead
          turn := Function.update s.turn (.wrapper i) .outside }
  /-- A reconciler is refused, raises or is killed. -/
  | stop {s} (n : ℕ) :
      Step ctor names allowed s
        { s with turn := Function.update s.turn (.reconciler n) .outside }
  /-- The write of a further `init`. -/
  | reinit {s} (r : InitRun) (cm' : ConfigMap V (ConfDict String String)) (v : V)
      (hallowed : allowed s) (hv : v ∉ s.issued)
      (hp : s.cm.patch (Clusterinit.updateConfigmap r.config) v = .ok cm') :
      Step ctor names allowed s { s with cm := cm', issued := insert v s.issued }

/-- The node after its first `init`, which creates the configmap. -/
def Locked.start (r : InitRun) (v : V) : Locked ι V where
  cm := ⟨some "", some r.config, v⟩
  wrappers _ := .absent
  turn _ := .outside
  issued := {v}

def Locked.Run (ctor : Except PyErr Unit) (names : Holder ι → String)
    (allowed : Locked ι V → Prop) (first : InitRun) (v : V) : Locked ι V → Prop :=
  Relation.ReflTransGen (Locked.Step ctor names allowed) (Locked.start first v)

end Steps

/-! ## What is to hold -/

/-- The lock does what it is for. -/
structure Locked.Guarded (names : Holder ι → String) (s : Locked ι V) : Prop where
  /-- The client inside a section is the owner. -/
  owner : ∀ k c, s.turn k = .inside c → s.cm.owner = some (names k)
  alone : ∀ k k' c c', s.turn k = .inside c → s.turn k' = .inside c' → k = k'
  /-- Nothing was written since it loaded the configuration. -/
  current : ∀ k c, s.turn k = .inside c → s.cm.Reads c

/-- Live wrappers stand in the lists they hold, no CPU of an exclusive pool is held twice, and the
lock is respected. -/
structure Locked.Safe (names : Holder ι → String) (s : Locked ι V) : Prop where
  exclusive : s.node.Exclusive
  guarded : s.Guarded names

/-- No client is inside a section and no live wrapper holds a list. -/
structure Locked.Quiet (s : Locked ι V) : Prop where
  outside : ∀ k c, s.turn k ≠ .inside c
  released : ∀ i pid pool clists, ¬ (s.wrappers i).Unreleased pid pool clists

/-! ## What a run keeps -/

/-- A configmap read is out of date or still the stored one. -/
structure Locked.Inv (names : Holder ι → String) (s : Locked ι V) : Prop where
  sound : s.node.Sound
  guarded : s.Guarded names
  version : s.cm.resourceVersion ∈ s.issued
  seen : ∀ k cm, s.turn k = .seen cm → cm.owner = some "" ∧ cm.resourceVersion ∈ s.issued ∧
    (cm.resourceVersion = s.cm.resourceVersion → cm = s.cm)

theorem Locked.Inv.safe {names : Holder ι → String} {s : Locked ι V} (h : s.Inv names) :
    s.Safe names := ⟨h.sound.exclusive, h.guarded⟩

theorem ConfigMap.Reads.node {s : Locked ι V} {c : Conf String String} (h : s.cm.Reads c) :
    s.node.Reads c := by
  obtain ⟨d, d', hd, hsame, hb⟩ := h
  exact ⟨d', by rwa [Locked.node, hd], hb⟩

/-- To the ledger and the invariant of `Node/System` only live wrappers count that hold lists. -/
theorem Wrapper.Unreleased.of_party {w : Wrapper} {t : String} {rs : List (String × String)}
    (h : w.party = .holding t rs) : ∃ pid pool clists, w.Unreleased pid pool clists := by
  match w, h with
  | .holding pid pool clists, _ => exact ⟨pid, pool, clists, .holding pid pool clists⟩
  | .ended pid pool clists (.error e), _ => exact ⟨pid, pool, clists, .ended pid pool clists e⟩

/-- **While no live wrapper holds a list, `init` may start over.** -/
theorem Node.Sound.reinit {s : Node ι} (h : s.Sound)
    (hfree : ∀ i pid pool clists, ¬ (s.wrappers i).Unreleased pid pool clists) (r : InitRun) :
    (⟨r.config, s.wrappers⟩ : Node ι).Sound where
  layout := ⟨r.config, r.fresh, .refl _⟩
  ledger := h.ledger.reset (bookOf_of_no_tasks r.fresh.empty) fun i p rs hp => by
    obtain ⟨pid, pool, clists, hu⟩ := Wrapper.Unreleased.of_party hp
    exact hfree i pid pool clists hu
  inv := ⟨h.inv.distinct, fun i => ⟨(h.inv.wrappers i).some_list,
    fun pid pool clists hu => absurd hu (hfree i pid pool clists)⟩⟩

section Runs

variable [DecidableEq ι] {ctor : Except PyErr Unit} {names : Holder ι → String}
  {s s' : Locked ι V}

/-- A section on the stored configuration is a step of the node. -/
theorem Section.step {s : Node ι} {c : Conf String String} {k : Holder ι} {node : Node ι}
    (h : Section s.wrappers c k node) (hread : s.Reads c) : Node.Step (.ok ()) s node := by
  cases h with
  | allocate i pid args env c' clists hi hpid hrun =>
    exact .allocate i pid args env c c' clists hi hread hpid hrun
  | allocateError i pid args env c' e hi hpid hrun =>
    exact .allocateError i pid args env c c' e hi hread hpid hrun
  | finish i pid pool clists getpid c' hi hpid hrun =>
    exact .finish i pid pool clists getpid c c' hi hread hpid hrun
  | reconcile n procExists c' hlive hrun =>
    exact .reconcile procExists c c' hread (fun pid ⟨i, hi⟩ => hlive i pid hi) hrun

theorem Node.Sound.ended_error {s : Node ι} (h : s.Sound) {i : ι} {pid : ℤ} {pool : String}
    {clists : List String} (hi : s.wrappers i = .holding pid pool clists) (e : PyErr) :
    (⟨s.config, Function.update s.wrappers i (.ended pid pool clists (.error e))⟩ :
      Node ι).Sound where
  layout := h.layout
  ledger := Node.ledger_ended_error hi e ▸ h.ledger
  inv := h.inv.ended_error hi e

omit [DecidableEq ι] in
/-- A step that writes nothing and lets nobody in. -/
theorem Locked.Inv.idle (h : s.Inv names) {wrappers : ι → Wrapper} {turn : Holder ι → Turn V}
    (hsound : (⟨s.node.config, wrappers⟩ : Node ι).Sound)
    (hturn : ∀ k, turn k = s.turn k ∨ turn k = .outside) :
    Locked.Inv names { s with wrappers, turn } := by
  have hin : ∀ k c, turn k = .inside c → s.turn k = .inside c := fun k c hk => by
    obtain hp | hp := hturn k
    · exact hp ▸ hk
    · exact nomatch hp.symm.trans hk
  refine ⟨hsound, ⟨fun k c hk => h.guarded.owner k c (hin k c hk),
    fun k k' c c' hk hk' => h.guarded.alone k k' c c' (hin k c hk) (hin k' c' hk'),
    fun k c hk => h.guarded.current k c (hin k c hk)⟩, h.version, fun k cm hk => ?_⟩
  obtain hp | hp := hturn k
  · exact h.seen k cm (hp ▸ hk)
  · exact nomatch hp.symm.trans hk

omit [DecidableEq ι] in
/-- A patch under a version never issued puts whatever was read out of date. -/
theorem Locked.Inv.seen_outdated (h : s.Inv names) {v : V} (hv : v ∉ s.issued)
    {cm' : ConfigMap V (ConfDict String String)} (hcm : cm'.resourceVersion = v) {k : Holder ι}
    {cm : ConfigMap V (ConfDict String String)} (hk : s.turn k = .seen cm) :
    cm.owner = some "" ∧ cm.resourceVersion ∈ insert v s.issued ∧
      (cm.resourceVersion = cm'.resourceVersion → cm = cm') := by
  obtain ⟨howner, hissued, -⟩ := h.seen k cm hk
  refine ⟨howner, Set.mem_insert_of_mem v hissued, fun heq => absurd hissued ?_⟩
  rwa [heq, hcm]

omit [DecidableEq ι] in
/-- A write that leaves nobody inside. -/
theorem Locked.Inv.write (h : s.Inv names) {v : V} (hv : v ∉ s.issued)
    {cm' : ConfigMap V (ConfDict String String)} (hcm : cm'.resourceVersion = v)
    {wrappers : ι → Wrapper} {turn : Holder ι → Turn V}
    (hsound : (⟨cm'.config.getD .empty, wrappers⟩ : Node ι).Sound)
    (hturn : ∀ k, turn k = s.turn k ∨ turn k = .outside)
    (hout : ∀ k c, turn k ≠ .inside c) :
    Locked.Inv names { cm := cm', wrappers, turn, issued := insert v s.issued } := by
  have hversion : cm'.resourceVersion ∈ insert v s.issued := by
    rw [hcm]
    exact Set.mem_insert v s.issued
  refine ⟨hsound, ⟨fun k c hk => absurd hk (hout k c), fun k _ c _ hk => absurd hk (hout k c),
    fun k c hk => absurd hk (hout k c)⟩, hversion, fun k cm (hk : turn k = .seen cm) => ?_⟩
  obtain hp | hp := hturn k
  · exact h.seen_outdated hv hcm (hp ▸ hk)
  · exact nomatch hp.symm.trans hk

omit [DecidableEq ι] in
/-- A configmap without an owner has nobody inside. -/
theorem Locked.Guarded.free (h : s.Guarded names) (hnames : ∀ k, names k ≠ "")
    (howner : s.cm.owner = some "") (k : Holder ι) (c : Conf String String) :
    s.turn k ≠ .inside c := fun hk =>
  hnames k (Option.some.inj ((h.owner k c hk).symm.trans howner))

theorem turn_update (turn : Holder ι → Turn V) (k j : Holder ι) :
    Function.update turn k .outside j = turn j ∨ Function.update turn k .outside j = .outside := by
  by_cases hj : j = k
  · exact .inr (hj ▸ Function.update_self ..)
  · exact .inl (Function.update_of_ne hj ..)

omit [DecidableEq ι] in
/-- An accepted `lock` found the configmap as it is, without an owner, and wrote its name. -/
theorem Locked.Inv.claimed [DecidableEq V] (h : s.Inv names) {k : Holder ι} {v : V}
    {cm cm' : ConfigMap V (ConfDict String String)} (hk : s.turn k = .seen cm)
    (hp : s.cm.patch ⟨names k, cm.config, some cm.resourceVersion⟩ v = .ok cm') :
    s.cm.owner = some "" ∧ cm = s.cm ∧ cm' = ⟨some (names k), s.cm.config, v⟩ := by
  obtain ⟨hver, rfl⟩ := patch_versioned.mp hp
  obtain ⟨howner, -, hsame⟩ := h.seen k cm hk
  obtain rfl := hsame hver
  exact ⟨howner, rfl, by rw [Option.or_self]⟩

variable [DecidableEq V]

/-- **Every step keeps the invariant**, as long as `init` writes on a quiet node. -/
theorem Locked.Inv.step (hnames : ∀ k, names k ≠ "") (h : s.Inv names)
    (hs : Locked.Step ctor names Locked.Quiet s s') : s'.Inv names := by
  cases hs with
  | start i pid hi hp =>
    have hstart : Node.Step (.ok ()) s.node _ := .start i pid hi hp
    exact h.idle (h.sound.step hstart) fun _ => .inl rfl
  | read k hk hready howner =>
    refine ⟨h.sound, ⟨fun j c hj => ?_, fun j j' c c' hj hj' => ?_, fun j c hj => ?_⟩, h.version,
      fun j cm hj => ?_⟩
    · exact h.guarded.owner j c (VersionLock.place_of_update hj (by simp)).2
    · exact h.guarded.alone j j' c c' (VersionLock.place_of_update hj (by simp)).2
        (VersionLock.place_of_update hj' (by simp)).2
    · exact h.guarded.current j c (VersionLock.place_of_update hj (by simp)).2
    · dsimp only at hj
      by_cases hjk : j = k
      · rw [hjk, Function.update_self] at hj
        obtain rfl := Turn.seen.inj hj
        exact ⟨howner, h.version, fun _ => rfl⟩
      · rw [Function.update_of_ne hjk] at hj
        exact h.seen j cm hj
  | claim k cm cm' c v hk hv hp hread =>
    obtain ⟨howner, rfl, rfl⟩ := h.claimed hk hp
    have honly : ∀ j c', Function.update s.turn k (.inside c) j = .inside c' → j = k ∧ c = c' := by
      intro j c' hj
      by_cases hjk : j = k
      · rw [hjk, Function.update_self] at hj
        exact ⟨hjk, Turn.inside.inj hj⟩
      · rw [Function.update_of_ne hjk] at hj
        exact absurd hj (h.guarded.free hnames howner j c')
    refine ⟨h.sound, ⟨fun j c' hj => ?_, fun j j' c' c'' hj hj' => ?_, fun j c' hj => ?_⟩,
      Set.mem_insert v _, fun j cm hj => ?_⟩
    · rw [(honly j c' hj).1]
    · exact (honly j c' hj).1.trans (honly j' c'' hj').1.symm
    · exact (honly j c' hj).2 ▸ hread
    · exact h.seen_outdated hv rfl (VersionLock.place_of_update hj (by simp)).2
  | claimError k cm cm' v hk hv hp =>
    obtain ⟨howner, rfl, rfl⟩ := h.claimed hk hp
    refine h.write hv rfl h.sound (turn_update s.turn k) fun j c hj => ?_
    exact h.guarded.free hnames howner j c (VersionLock.place_of_update hj (by simp)).2
  | unlock k c node cm' v hk hsec hv hp =>
    obtain rfl := patch_unversioned.mp hp
    have hsound := h.sound.step (hsec.step (h.guarded.current k c hk).node)
    refine h.write hv rfl hsound (turn_update s.turn k) fun j c' hj => ?_
    obtain ⟨hne, hj⟩ := VersionLock.place_of_update hj (by simp)
    exact hne (h.guarded.alone j k c' c hj hk)
  | finishError i pid pool clists e hi hrun =>
    exact h.idle (h.sound.ended_error hi e) (turn_update s.turn (.wrapper i))
  | die i =>
    have hdie : Node.Step (.ok ()) s.node _ := .die i
    exact h.idle (h.sound.step hdie) (turn_update s.turn (.wrapper i))
  | stop n => exact h.idle h.sound (turn_update s.turn (.reconciler n))
  | reinit r cm' v hquiet hv hp =>
    obtain rfl := patch_unversioned.mp hp
    exact h.write hv rfl (h.sound.reinit hquiet.released r) (fun _ => .inl rfl) hquiet.outside

variable {first : InitRun} {v : V}

omit [DecidableEq ι] [DecidableEq V] in
theorem Locked.Inv.start (first : InitRun) (v : V) :
    (Locked.start first v : Locked ι V).Inv names where
  sound := .fresh first.fresh
  guarded :=
    { owner := fun _ _ hk => by cases hk
      alone := fun _ _ _ _ hk => by cases hk
      current := fun _ _ hk => by cases hk }
  version := rfl
  seen _ _ hk := by cases hk

theorem Locked.Run.inv (hnames : ∀ k, names k ≠ "")
    (h : Locked.Run ctor names Locked.Quiet first v s) : s.Inv names := by
  induction h with
  | refl => exact .start first v
  | tail _ hs ih => exact ih.step hnames hs

end Runs

/-! ## A further `init` -/

section Reinit

variable [DecidableEq ι] [DecidableEq V]

/-- The node after the write of a further `init`. -/
def Locked.reinit (s : Locked ι V) (r : InitRun) (v : V) : Locked ι V :=
  { s with cm := ⟨some "", some r.config, v⟩, issued := insert v s.issued }

omit [DecidableEq ι] in
/-- The server applies the patch of `new` to whatever it finds. -/
theorem patch_updateConfigmap (s : Locked ι V) (r : InitRun) (v : V) :
    s.cm.patch (Clusterinit.updateConfigmap r.config) v = .ok (s.reinit r v).cm :=
  patch_unversioned.mpr rfl

omit [DecidableEq ι] [DecidableEq V] in
/-- **After a write on a node that is not quiet, a client inside is no longer the owner, or a live
wrapper stands in no list it holds.** -/
theorem Locked.Quiet.of_reinit_safe {names : Holder ι → String} (hnames : ∀ k, names k ≠ "")
    {s : Locked ι V} (h : s.Inv names) {r : InitRun} {v : V} (hs : (s.reinit r v).Safe names) :
    s.Quiet where
  outside k c hk := hnames k (Option.some.inj (hs.guarded.owner k c hk)).symm
  released i pid pool clists hu := by
    have hne := (h.sound.inv.wrappers i).some_list pid pool clists
    have hclists : clists ≠ [] := by
      cases hw : s.wrappers i <;> rw [hw] at hu <;> cases hu
      · exact hne (.ok ()) (.inl hw)
      · exact hne _ (.inr hw)
    obtain ⟨cl, hcl⟩ := List.exists_mem_of_ne_nil clists hclists
    obtain ⟨e, he, -, -, ht⟩ := hs.exclusive.recorded i pid pool clists hu cl hcl
    rw [r.fresh.empty e he] at ht
    cases ht

/-- A session that nobody interrupts: the client reads, gets the lock and publishes. -/
theorem Locked.Run.session {ctor : Except PyErr Unit} {names : Holder ι → String}
    {allowed : Locked ι V → Prop} {first : InitRun} {u : V} {s : Locked ι V}
    (h : Locked.Run ctor names allowed first u s) (k : Holder ι) (hk : s.turn k = .outside)
    (hready : s.Ready ctor k) (howner : s.cm.owner = some "") {c : Conf String String}
    (hread : s.cm.Reads c) {node : Node ι} (hsec : Section s.wrappers c k node) (v w : V)
    (hv : v ∉ s.issued) (hw : w ∉ insert v s.issued) :
    Locked.Run ctor names allowed first u
      { cm := ⟨some "", some node.config, w⟩
        wrappers := node.wrappers
        turn := s.turn
        issued := insert w (insert v s.issued) } := by
  have hback : Function.update (Function.update (Function.update s.turn k (.seen s.cm)) k
      (.inside c)) k .outside = s.turn := by
    rw [Function.update_idem, Function.update_idem, ← hk, Function.update_eq_self]
  have hread' := h.tail (.read k hk hready howner)
  have hinside := hread'.tail (.claim k s.cm _ c v (Function.update_self ..) hv
    (patch_versioned.mpr ⟨rfl, rfl⟩) hread)
  have hdone := hinside.tail (.unlock k c node _ w (Function.update_self ..) hsec hw
    (patch_unversioned.mpr rfl))
  dsimp only at hdone
  rwa [hback] at hdone

/-- **A further `init` is safe exactly on a quiet node.**  Whatever is asked for, whichever pids are
reused and however the calls interleave: while every `init` writes on a quiet node every state
reached is safe, and in each of them one more write leaves the node safe if and only if it is quiet
then. -/
theorem reinit_safe_iff (ctor : Except PyErr Unit) (names : Holder ι → String)
    (hnames : ∀ k, names k ≠ "") (first : InitRun) (v : V) (s : Locked ι V)
    (h : Locked.Run ctor names Locked.Quiet first v s) :
    s.Safe names ∧ ∀ r w, w ∉ s.issued → ((s.reinit r w).Safe names ↔ s.Quiet) := by
  have hinv := h.inv hnames
  refine ⟨hinv.safe, fun r w hw => ⟨Locked.Quiet.of_reinit_safe hnames hinv, fun hquiet => ?_⟩⟩
  have hstep : Locked.Step ctor names Locked.Quiet s (s.reinit r w) :=
    .reinit r _ w hquiet hw (patch_updateConfigmap s r w)
  exact (hinv.step hnames hstep).safe

end Reinit

theorem isSome_configure_fourCores :
    (configure fourCores 1 1 "spread" "packed" "-1").toOption.isSome := by decide

/-- `init` with one exclusive and one shared core. -/
def fourCoresInit : InitRun where
  host := fourCores
  numExclusive := 1
  numShared := 1
  exclusiveMode := "spread"
  sharedMode := "packed"
  exclNonIsolcpus := "-1"
  result := (configure fourCores 1 1 "spread" "packed" "-1").toOption.get isSome_configure_fourCores
  distinct := distinctCpus_fourCores
  configured := eq_ok_get isSome_configure_fourCores

/-- What it writes: the one CPU list of the exclusive pool is `1`. -/
def oneExclusive : ConfDict String String :=
  .ofList Prod.fst
    [("exclusive", .ofList Prod.fst [(.int 0, .ofList Prod.fst [("1", [])]), (.int 1, .empty)]),
      ("shared", .ofList Prod.fst [(.int 0, .empty), (.int 1, .ofList Prod.fst [("2", [])])]),
      ("infra", .ofList Prod.fst
        [(.int 0, .ofList Prod.fst [("0,4", [])]), (.int 1, .ofList Prod.fst [("3", [])])])]

theorem config_fourCoresInit : fourCoresInit.config = oneExclusive := by rfl

theorem start_fourCoresInit : (Locked.start fourCoresInit 0 : Locked Bool ℕ) =
    ⟨⟨some "", some oneExclusive, 0⟩, fun _ => .absent, fun _ => .outside, {0}⟩ := by
  rw [Locked.start, config_fourCoresInit]

/-- A wrapper dies with a list in its name, `init` runs again, and a second wrapper is allocated the
list. -/
theorem reinit_safe_iff_fourCores : ∃ s : Locked Bool ℕ,
    s.wrappers true = .holding 8 "exclusive" ["1"] ∧ s.Safe fun _ => "pod" := by
  have h : Locked.Run (releaseConfig "cmk-config-node" "pod") (fun _ => "pod") Locked.Quiet
    fourCoresInit 0 (Locked.start fourCoresInit 0 : Locked Bool ℕ) := .refl
  rw [start_fourCoresInit] at h
  replace h := h.tail (.start false 7 rfl (by unfold Node.Live; decide))
  replace h := Locked.Run.session h (.wrapper false) rfl (.inl ⟨7, rfl⟩) rfl
    ⟨_, _, rfl, .refl _, rfl⟩
    (.allocate false 7 ⟨"exclusive", some "-1"⟩ ⟨none, 0, fun _ => .ok 7⟩ _ _ rfl (by simp) rfl)
    1 2 (by simp) (by simp)
  replace h := h.tail (.die false)
  replace h := h.tail (.reinit fourCoresInit _ 3
    ⟨fun k c hk => (by rcases k with (_ | _) | n <;> cases hk),
      fun i pid pool clists hu => (by cases i <;> cases hu)⟩ (by simp) rfl)
  rw [config_fourCoresInit] at h
  replace h := h.tail (.start true 8 rfl (by unfold Node.Live; decide))
  replace h := Locked.Run.session h (.wrapper true) rfl (.inl ⟨8, rfl⟩) rfl
    ⟨_, _, rfl, .refl _, rfl⟩
    (.allocate true 8 ⟨"exclusive", some "-1"⟩ ⟨none, 0, fun _ => .ok 8⟩ _ _ rfl (by simp) rfl)
    4 5 (by simp) (by simp)
  exact ⟨_, rfl, (reinit_safe_iff _ _ (by simp) fourCoresInit 0 _ h).1⟩

/-- A wrapper is allocated the list of the exclusive pool, `init` runs again, and a second wrapper
is allocated the same list. -/
theorem reinit_unsafe :
    ¬ ∀ s : Locked Bool ℕ, Locked.Run (releaseConfig "cmk-config-node" "pod") (fun _ => "pod")
      (fun _ => True) fourCoresInit 0 s → s.Safe fun _ => "pod" := by
  intro hall
  have h : Locked.Run (releaseConfig "cmk-config-node" "pod") (fun _ => "pod") (fun _ => True)
    fourCoresInit 0 (Locked.start fourCoresInit 0 : Locked Bool ℕ) := .refl
  rw [start_fourCoresInit] at h
  replace h := h.tail (.start false 7 rfl (by unfold Node.Live; decide))
  replace h := Locked.Run.session h (.wrapper false) rfl (.inl ⟨7, rfl⟩) rfl
    ⟨_, _, rfl, .refl _, rfl⟩
    (.allocate false 7 ⟨"exclusive", some "-1"⟩ ⟨none, 0, fun _ => .ok 7⟩ _ _ rfl (by simp) rfl)
    1 2 (by simp) (by simp)
  replace h := h.tail (.reinit fourCoresInit _ 3 trivial (by simp) rfl)
  rw [config_fourCoresInit] at h
  replace h := h.tail (.start true 8 rfl (by unfold Node.Live; decide))
  replace h := Locked.Run.session h (.wrapper true) rfl (.inl ⟨8, rfl⟩) rfl
    ⟨_, _, rfl, .refl _, rfl⟩
    (.allocate true 8 ⟨"exclusive", some "-1"⟩ ⟨none, 0, fun _ => .ok 8⟩ _ _ rfl (by simp) rfl)
    4 5 (by simp) (by simp)
  have hdis := (hall _ h).exclusive.disjoint false true 7 8 "exclusive" "exclusive" ["1"] ["1"]
    (by decide) (.holding ..) (.holding ..) rfl "1" (by simp) "1" (by simp)
  exact absurd hdis (by decide)

end Cmk
