import Cmk.Node.Advertised
import Cmk.Webhook.Cores

/-!
# Node/Admission — the cores of the pods that the scheduler admits

The scheduler admits pods to a node as long as their quantities fit into what `discover` advertised,
the webhook tells each container its own quantity, and `isolate` in the container asks for that
many CPU lists.  So wrappers together never hold more than was admitted, and after a reconciliation
the next one is granted what its pod was admitted with (`admitted_granted`).
-/

open Machinery Cmk.Topology

namespace Cmk

/-! ## The environment of a container -/

/-- `CMK_NUM_CORES` of a process in the container; the last entry counts. -/
def environCores (container : JsonValue) : Option String :=
  match (coresEntries container).getLast?.bind fun entry => entry.member? "value" with
  | some (.str text) => some text
  | _ => none

/-- The container leaves the number to the webhook and asks for so many cores. -/
structure Asking (container : JsonValue) (n : ℕ) : Prop where
  isContainer : IsContainer container
  free : coresEntries container = []
  quantity : ∃ text, ownCores container = some (.str text) ∧ intOfStr text = .ok n

/-- **After the mutation `isolate` is told the quantity of the container.** -/
theorem Asking.environCores_mutated {merge : Merge} (hmerge : JsonValue.DataMerge merge)
    {file : Option JsonValue} {perPod perContainer : List (String × JsonValue)}
    (hm : IsMutations file perPod perContainer) {container : JsonValue} {n : ℕ}
    (h : Asking container n) (hmerges : merge container (.obj perContainer) ≠ none) :
    ∃ text, environCores (mutated merge file container) = some text ∧ intOfStr text = .ok n := by
  obtain ⟨text, hown, hn⟩ := h.quantity
  have hentries := (mutateContainer_eq hmerge hm h.isContainer hmerges).2
  rw [expectedEntries, if_pos h.free, hown] at hentries
  refine ⟨text, ?_, hn⟩
  rw [environCores, mutated, hentries]
  rfl

/-! ## How many lists are allocated -/

section Lists

variable {κ τ : Type} [DecidableEq κ] {args : IsolateArgs} {env : IsolateEnv}

omit [DecidableEq κ] in
theorem Pool.length_chooseExclusive {p : Pool κ τ} {clists : List κ}
    (h : p.chooseExclusive args env = .ok clists) : env.nCpus = .ok (clists.length : ℤ) := by
  obtain ⟨n, hn, h⟩ := bind_eq_ok.mp h
  split_ifs at h with hpos
  obtain ⟨coreLists, -, h⟩ := bind_eq_ok.mp h
  split_ifs at h with henough
  obtain rfl := Except.ok.inj h
  rw [hn, List.length_take]
  exact congrArg _ (by omega)

/-- **An exclusive allocation has as many lists as the environment says**, on whatever socket. -/
theorem length_isolateSection [Task τ] {c : Conf κ τ} {clists : List κ} (hk : c.Known)
    (hex : exclusivity args.poolName = some true)
    (h : (isolateSection args env c).1 = .ok clists) : env.nCpus = .ok (clists.length : ℤ) := by
  rw [isolateSection] at h
  split at h
  · cases h
  · rename_i p hp
    obtain ⟨hmem, hname⟩ := Table.get?_eq_some.mp hp
    have hexclusive : p.exclusive = true :=
      Option.some.inj ((hk p hmem).symm.trans (hname ▸ hex))
    split at h
    · cases h
    · rename_i clists' hchoose
      obtain ⟨chosen, hchosen, hchoose⟩ := bind_eq_ok.mp hchoose
      rw [if_pos hexclusive] at hchosen
      split_ifs at hchoose
      obtain rfl := Except.ok.inj hchoose
      split at h
      · cases h
      · obtain rfl := Except.ok.inj h
        exact Pool.length_chooseExclusive hchosen

end Lists

/-! ## Runs in containers -/

variable {ι : Type}

/-- A wrapper that is allocated lists of the pool runs in its container. -/
def Node.InContainers (container : ι → JsonValue) (pool : String) (s s' : Node ι) : Prop :=
  ∀ i pid clists, s.wrappers i = .started pid → s'.wrappers i = .holding pid pool clists →
    ∃ (args : IsolateArgs) (env : IsolateEnv) (c : Conf String String), s.Reads c ∧
      args.poolName = pool ∧ env.numCores = environCores (container i) ∧
      (isolateSection args env c).1 = .ok clists

/-- What the scheduler counts for the wrappers that are there. -/
def Node.admitted [Fintype ι] (s : Node ι) (asks : ι → ℕ) : ℕ :=
  ∑ i, if (s.wrappers i).pid?.isSome then asks i else 0

section Runs

variable [DecidableEq ι] {ctor : Except PyErr Unit} {d : ConfDict String String} {s s' : Node ι}
  {container : ι → JsonValue} {asks : ι → ℕ} {pool : String}

/-- What the node can reach by careful steps in containers. -/
def Node.AdmittedRun (ctor : Except PyErr Unit) (d : ConfDict String String)
    (container : ι → JsonValue) (pool : String) : Node ι → Prop :=
  Relation.ReflTransGen (fun s s' => (Node.Step ctor s s' ∧ s.Careful s') ∧
    s.InContainers container pool s') (Node.fresh d)

theorem Node.AdmittedRun.careful (h : Node.AdmittedRun ctor d container pool s) :
    Node.CarefulRun ctor d s := Relation.ReflTransGen.mono (fun _ _ hs => hs.1) _ _ h

/-- Every wrapper has as many lists of the pool as it asked for, until it has released them. -/
def Node.AsAsked (asks : ι → ℕ) (pool : String) (s : Node ι) : Prop :=
  ∀ i pid clists, (s.wrappers i).Unreleased pid pool clists → clists.length = asks i

omit [DecidableEq ι] in
theorem Node.AsAsked.length_heldIn_le (h : s.AsAsked asks pool) (i : ι) :
    ((s.wrappers i).heldIn pool).length ≤ asks i := by
  obtain hnil | ⟨pid, hw⟩ := (s.wrappers i).heldIn_cases pool
  · rw [hnil]
    exact Nat.zero_le _
  · exact (h i pid _ hw).le

theorem Node.AsAsked.update {config : ConfDict String String} (h : s.AsAsked asks pool) {i : ι}
    {w : Wrapper} (hw : ∀ pid clists, w.Unreleased pid pool clists → clists.length = asks i) :
    (⟨config, Function.update s.wrappers i w⟩ : Node ι).AsAsked asks pool :=
  (Function.forall_update_iff s.wrappers fun j x =>
    ∀ pid clists, x.Unreleased pid pool clists → clists.length = asks j).mpr ⟨hw, fun j _ => h j⟩

/-- The containers are told what they ask for. -/
def Told (container : ι → JsonValue) (asks : ι → ℕ) : Prop :=
  ∀ i, ∃ text, environCores (container i) = some text ∧ intOfStr text = .ok (asks i)

omit [DecidableEq ι] in
/-- A wrapper in its container is allocated what it asked for. -/
theorem Node.InContainers.length_eq (hin : s.InContainers container pool s')
    (hex : exclusivity pool = some true) (htold : Told container asks) {i : ι} {pid : ℤ}
    {clists : List String} (hi : s.wrappers i = .started pid)
    (hi' : s'.wrappers i = .holding pid pool clists) : clists.length = asks i := by
  obtain ⟨args, env, c, hread, rfl, henv, hrun⟩ := hin i pid clists hi hi'
  obtain ⟨text, htext, hn⟩ := htold i
  have hcpus := length_isolateSection hread.known hex hrun
  rw [IsolateEnv.nCpus, henv, htext] at hcpus
  exact Nat.cast_injective (Except.ok.inj (hcpus.symm.trans hn))

theorem Node.AsAsked.step (h : s.AsAsked asks pool) (hex : exclusivity pool = some true)
    (htold : Told container asks) (hs : Node.Step ctor s s')
    (hin : s.InContainers container pool s') : s'.AsAsked asks pool := by
  cases hs with
  | start i pid hi hp => exact h.update fun _ _ hw => nomatch hw
  | allocate i pid args env c c' clists hi hread hpid hrun =>
    refine h.update fun pid' clists' hw => ?_
    cases hw
    exact hin.length_eq hex htold hi (Function.update_self ..)
  | allocateError i pid args env c c' e hi hread hpid hrun =>
    exact h.update fun _ _ hw => nomatch hw
  | finish i pid pool' clists getpid c c' hi hread hpid hrun =>
    exact h.update fun _ _ hw => nomatch hw
  | finishError i pid pool' clists getpid c e hi hread hpid hrun =>
    refine h.update fun pid' clists' hw => ?_
    cases hw
    exact h i pid clists (hi ▸ .holding pid pool clists)
  | reconcile procExists c c' hread hlive hrun => exact h
  | die i => exact h.update fun _ _ hw => nomatch hw

/-- **In a run in containers** no wrapper has more than it asked for. -/
theorem Node.AdmittedRun.asAsked (h : Node.AdmittedRun ctor d container pool s)
    (hex : exclusivity pool = some true) (htold : Told container asks) :
    s.AsAsked asks pool := by
  induction h with
  | refl => exact fun _ _ _ hw => nomatch hw
  | tail _ hstep ih => exact ih.step hex htold hstep.1.1 hstep.2

omit [DecidableEq ι] in
/-- What the wrappers hold fits with one more request into what was admitted. -/
theorem Node.AsAsked.add_sum_le [Fintype ι] (h : s.AsAsked asks pool) {i : ι} {pid : ℤ}
    (hi : s.wrappers i = .started pid) :
    asks i + ∑ j, ((s.wrappers j).heldIn pool).length ≤ s.admitted asks := by
  classical
  have hone : asks i = ∑ j, if j = i then asks j else 0 := by simp
  rw [hone, ← Finset.sum_add_distrib, Node.admitted]
  refine Finset.sum_le_sum fun j _ => ?_
  by_cases hj : j = i
  · subst hj
    simp [hi, Wrapper.heldIn, Wrapper.pid?]
  · rw [if_neg hj, Nat.zero_add]
    obtain hnil | ⟨pid', hw⟩ := (s.wrappers j).heldIn_cases pool
    · rw [hnil]
      exact Nat.zero_le _
    · rw [hw.pid?, Option.isSome_some, if_pos rfl]
      exact h.length_heldIn_le j

end Runs

/-- **A pod that the scheduler admits gets its cores.**  In a careful run of wrappers in containers
that the webhook has mutated, and after a reconciliation that finds no process but theirs: as long
as the quantities of the wrappers that are there fit into what some run of `discover` advertised,
each of them that asks is allocated as many CPU lists as its container has a quantity. -/
theorem admitted_granted {V : Type} [DecidableEq V] [DecidableEq ι] [Fintype ι]
    (merge : Merge) (hmerge : JsonValue.DataMerge merge) (file : Option JsonValue)
    (perPod perContainer : List (String × JsonValue)) (hm : IsMutations file perPod perContainer)
    (container : ι → JsonValue) (asks : ι → ℕ) (hasks : ∀ i, Asking (container i) (asks i))
    (hmerges : ∀ i, merge (container i) (.obj perContainer) ≠ none) (ctor : Except PyErr Unit)
    (d : ConfDict String String) (hd : d.Fresh) (pool : String)
    (hex : exclusivity pool = some true) (hlisted : pool = "exclusive" ∨ 0 < d.capacity pool)
    (s₀ s : Node ι) (h₀ : Node.Run ctor d s₀)
    (h : Node.AdmittedRun ctor d (fun i => mutated merge file (container i)) pool s)
    (codec : Codec String (Conf Scalar Yaml)) (self : Config V String (Conf Scalar Yaml))
    (v : Visit V String) (api : NodeApi) (noTaint : Bool) (node node' : JsonValue)
    (cm : ConfigMap V String) (version : List ℕ) (c₀ : Conf Scalar Yaml)
    (hversion : api.kubeVersion >>= parseVersion = .ok version) (hshow : s₀.Shows c₀)
    (hload : v.Loads codec c₀)
    (hdiscover : discover codec self v api noTaint node = some (cm, .ok (), node')) (m : ℤ)
    (hadvertised : Advertises node' (resourceOf version pool) m) (hfit : s.admitted asks ≤ m)
    (procExists : ℕ → ℤ → Except PyErr Bool) (c c' : Conf String String) (hread : s.Reads c)
    (hlive : ∀ pid, s.Live pid → ∀ k, procExists k pid = .ok true)
    (hfound : ∀ k pid, procExists k pid = .ok true → s.Live pid)
    (hrun : reconcileSection procExists c = .ok c') (c'' : Conf String String)
    (hread' : ({ s with config := buildConfigmap c' } : Node ι).Reads c'') (i : ι) (pid : ℤ)
    (hi : s.wrappers i = .started pid) (hpos : 1 ≤ asks i) (args : IsolateArgs) (env : IsolateEnv)
    (hpool : args.poolName = pool) (hsel : args.selectedSocket = none)
    (henv : env.numCores = environCores (mutated merge file (container i)))
    (hpid : ∀ k, env.getpid k = .ok pid) :
    ∃ clists, (isolateSection args env c'').1 = .ok clists ∧ clists.length = asks i := by
  subst hpool
  have htold : Told (fun i => mutated merge file (container i)) asks := fun j =>
    (hasks j).environCores_mutated hmerge hm (hmerges j)
  have hn : env.nCpus = .ok (asks i : ℤ) := by
    obtain ⟨text, htext, hn⟩ := htold i
    rw [IsolateEnv.nCpus, henv, htext]
    exact hn
  -- What is advertised is the capacity of the pool.
  have hcount := h₀.countIn hd hshow args.poolName
  have hm : m = d.capacity args.poolName := by
    have hnumber := advertises_of_discover hversion hload hdiscover hex (by rwa [hcount])
    rw [hcount] at hnumber
    exact Option.some.inj (hadvertised.symm.trans hnumber)
  have hcareful := h.careful
  have hrun' := (hcareful.reconcile hread hlive hrun).run
  obtain ⟨hlocs, htidy⟩ := hrun'.locs hd
  have hgranted : IsOk (isolateSection args env c'').1 := by
    rw [(hrun'.sound hd).granted_iff htidy hread' hex hsel hpid hn, length_listsIn_of_locs hlocs,
      hcareful.inUse_reconciled hd hread hlive hfound hrun]
    have hsum := (h.asAsked hex htold).add_sum_le hi
    exact ⟨by omega, by omega⟩
  obtain ⟨clists, hclists⟩ := hgranted
  have hlength := length_isolateSection hread'.known hex hclists
  exact ⟨clists, hclists, Nat.cast_injective (Except.ok.inj (hlength.symm.trans hn))⟩

/-! ## Two containers that ask for both lists, one after the other -/

/-- What `isolate` stores when it takes both lists. -/
def bothTaken : Conf String String :=
  (isolateSection (τ := String) ⟨"exclusive", some "-1"⟩ ⟨some "2", 0, fun _ => .ok 7⟩
    ⟨twoLists.map buildPool name_buildPool⟩).2

/-- The container of both wrappers, as the webhook leaves it. -/
def toldTwo : JsonValue :=
  mutated JsonValue.dataMerge (oneEntry (envEntry "CMK_PROC_FS" (.str "/host/proc")))
    askingContainer

theorem environCores_toldTwo : environCores toldTwo = some "2" := rfl

/-- The first wrapper takes both lists and dies, and the second starts. -/
theorem exists_secondWaits : ∃ s : Node Bool,
    Node.AdmittedRun (.ok ()) twoLists (fun _ => toldTwo) "exclusive" s ∧
      s.config = buildConfigmap bothTaken ∧ s.wrappers false = .dead ∧
      s.wrappers true = .started 8 := by
  have h : Node.AdmittedRun (.ok ()) twoLists (fun _ => toldTwo) "exclusive"
      (Node.fresh twoLists : Node Bool) := .refl
  have hnew : ∀ pid : ℤ, ∀ e ∈ twoLists.entries, taskOf String pid ∉ e.tasks :=
    fun pid e he => by simp [twoLists_fresh.empty e he]
  replace h := h.tail ⟨⟨.start false 7 rfl (by unfold Node.Live; decide),
    ⟨fun _ pid _ _ => hnew pid, fun _ _ hi => (nomatch hi)⟩⟩, fun _ _ _ hi => (nomatch hi)⟩
  replace h := h.tail ⟨⟨.allocate false 7 ⟨"exclusive", some "-1"⟩ ⟨some "2", 0, fun _ => .ok 7⟩ _
    bothTaken ["1", "2"] rfl ⟨_, .refl _, rfl⟩ (by simp) rfl,
    ⟨fun i _ hnone hsome => ?_, fun i _ _ hfailed => ?_⟩⟩, fun i pid clists hi hi' => ?_⟩
  · replace h := h.tail ⟨⟨.die false,
      ⟨fun i _ hnone hsome => ?_, fun i _ _ hfailed => ?_⟩⟩, fun i pid clists hi hi' => ?_⟩
    · replace h := h.tail ⟨⟨.start true 8 rfl ?_,
        ⟨fun i pid hnone hsome => ?_, fun i _ _ hfailed => ?_⟩⟩, fun i pid clists hi hi' => ?_⟩
      · exact ⟨_, h, rfl, rfl, rfl⟩
      · rintro ⟨b, hb⟩
        cases b <;> cases hb
      · cases i with
        | false => cases hsome
        | true =>
          cases hsome
          decide
      · cases i <;> cases hfailed
      · cases i <;> cases hi'
    · cases i with
      | false => cases hsome
      | true => cases hsome
    · cases i <;> cases hfailed
    · cases i <;> cases hi'
  · cases i with
    | false => cases hnone
    | true => cases hsome
  · cases i <;> cases hfailed
  · cases i with
    | false =>
      cases hi'
      exact ⟨⟨"exclusive", some "-1"⟩, ⟨some "2", 0, fun _ => .ok 7⟩, _, ⟨_, .refl _, rfl⟩, rfl,
        environCores_toldTwo.symm, rfl⟩
    | true => cases hi'

/-- What `discover` builds of the two lists. -/
def twoShown : Conf Scalar Yaml := (Conf.ofYaml twoLists.toYaml).toOption.getD ⟨.empty⟩

/-- The node that advertises both. -/
def discoveredTwo : JsonValue :=
  .obj [("metadata", .obj [("labels", .obj [("cmk.intel.com/cmk-node", .str "true")])]),
    ("status", .obj [("capacity", .obj [("cmk.intel.com/exclusive-non-isolcpus-cores", .str "0"),
      ("cmk.intel.com/exclusive-cores", .num 2)])])]

theorem discover_twoLists :
    discover ⟨fun _ => .ok twoShown, fun _ => ""⟩ (.init "cmk-config-node" "pod" "default")
      freeVisit openApi true (nodeWith (.str "0")) =
        some (⟨some "", some "", 2⟩, .ok (), discoveredTwo) := by
  rfl

/-- Both are reclaimed from the first wrapper, and the second is allocated them. -/
theorem admitted_granted_secondWaits : ∃ c : Conf String String,
    reconcileSection (fun _ pid => .ok (pid = 8)) bothTaken = .ok c ∧
      ∃ clists, (isolateSection ⟨"exclusive", some "-1"⟩ ⟨some "2", 0, fun _ => .ok 8⟩ c).1 =
        .ok clists ∧ clists.length = 2 := by
  obtain ⟨s, hrun, hconfig, hdead, hstarted⟩ := exists_secondWaits
  have hasking : Asking askingContainer 2 := ⟨isContainer_asking, rfl, "2", rfl, rfl⟩
  have hlive : ∀ pid, s.Live pid ↔ pid = 8 := fun pid => by
    rw [Node.Live, Bool.exists_bool, hdead, hstarted]
    simp [Wrapper.pid?, eq_comm]
  have hread : s.Reads bothTaken := by
    refine ⟨buildConfigmap bothTaken, ?_, rfl⟩
    rw [hconfig]
    exact .refl _
  refine ⟨_, rfl, admitted_granted JsonValue.dataMerge JsonValue.dataMerge_spec _ _ _
    isMutations_oneEntry (fun _ => askingContainer) (fun _ => 2) (fun _ => hasking) ?_ (.ok ())
    twoLists twoLists_fresh "exclusive" rfl (.inl rfl) (Node.fresh twoLists) s .refl hrun _ _ _ _
    true _ _ _ [1, 18, 3] twoShown rfl ⟨_, .refl _, rfl⟩ ⟨"text", rfl, rfl⟩ discover_twoLists 2 rfl
    ?_ (fun _ pid => .ok (pid = 8)) bothTaken _ hread ?_ ?_ rfl _
    ⟨_, .refl _, rfl⟩ true 8 hstarted (by decide) ⟨"exclusive", some "-1"⟩
    ⟨some "2", 0, fun _ => .ok 8⟩ rfl rfl environCores_toldTwo.symm fun _ => rfl⟩
  · rintro _ ⟨⟩
  · simp [Node.admitted, hdead, hstarted, Wrapper.pid?]
  · intro pid hpid k
    rw [(hlive pid).mp hpid]
    rfl
  · intro k pid hpid
    exact (hlive pid).mpr (of_decide_eq_true (Except.ok.inj hpid))

end Cmk
