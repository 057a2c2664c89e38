import Cmk.ClusterInit.DaemonSets
import Cmk.ClusterInit.WebhookRuns
import Cmk.Uninstall.Whole

/-!
# ClusterInit/Again — `cluster-init` after `uninstall`

A second `cluster-init` creates the objects of the first, and is refused what is still there.  So it
can only return where `uninstall` has deleted all of them; the webhook it never does.  That leaves
the clusters before 1.9, and there the commands in the order of the fixed names and the nodes whose
names are left alone (`reinstalled_iff`).
-/

open Machinery

namespace Cmk

/-! ## `cluster_init` on a cluster -/

/-- What `cluster_init` creates objects in. -/
structure ClusterState where
  workloads : List Workload
  server : ApiServer

/-- The API server refuses what is there, and may refuse other objects. -/
def createWorkload (refuses : Workload → Bool) (workloads sent : List Workload) (w : Workload) :
    Except PyErr Unit :=
  if refuses w = true ∨ w ∈ workloads ++ sent then .error .apiException else .ok ()

/-- What the API server refuses beyond that, in one run. -/
structure ClusterRefuses where
  workload : Workload → Bool
  object : ObjectKey → Bool

/-- A call of `run_pods` that is made for some commands only, with the objects after it. -/
def runPodsOn (refuses : ClusterRefuses) (version : List ℕ)
    (cmdList cmdInitList nodes : List String) (workloads : List Workload) (answers : List PodList) :
    Option (Except PyErr (List Workload) × List PodList) :=
  if cmdList = [] ∧ cmdInitList = [] then some (.ok workloads, answers)
  else
    match runPods (.ok version) (createWorkload refuses.workload workloads) cmdList cmdInitList
      nodes answers with
    | none => none
    | some (.error e, rest) => some (.error e, rest)
    | some (.ok (), rest) =>
      some (.ok (workloads ++ nodes.filterMap (workload version cmdList cmdInitList)), rest)

/-- `cluster_init` behind its checks, with the cluster after it when it returns. -/
def clusterInit (refuses : ClusterRefuses) (version : List ℕ) (namespaceName : String)
    (o : DeployOptions) (cmds nodes : List String) (c : ClusterState) (answers : List PodList) :
    Option (Except PyErr ClusterState × List PodList) :=
  match runPodsOn refuses version [] (initCommands cmds) nodes c.workloads answers with
  | none => none
  | some (.error e, rest) => some (.error e, rest)
  | some (.ok workloads, rest) =>
    match runPodsOn refuses version (daemonCommands cmds) [] nodes workloads rest with
    | none => none
    | some (.error e, rest) => some (.error e, rest)
    | some (.ok workloads, rest) =>
      if [1, 9] ≤ version then
        match (deployWebhook refuses.object namespaceName o).run.run c.server with
        | (.error e, _) => some (.error e, rest)
        | (.ok (), server) => some (.ok ⟨workloads, server⟩, rest)
      else some (.ok ⟨workloads, c.server⟩, rest)

/-- What the two runs create for all nodes. -/
def allCreated (version : List ℕ) (cmds nodes : List String) : List Workload :=
  nodes.filterMap (workload version [] (initCommands cmds)) ++
    nodes.filterMap (workload version (daemonCommands cmds) [])

/-! ## What it creates -/

variable {refuses : ClusterRefuses} {version : List ℕ} {namespaceName : String} {o : DeployOptions}
  {cmds nodes daemons inits : List String} {c c' : ClusterState} {answers rest : List PodList}
  {workloads workloads' : List Workload}

/-- **The objects of a run are created** where each is new. -/
theorem runCmdPods_createWorkload_iff {refuses : Workload → Bool} {objects : List Workload} :
    runCmdPods (createWorkload refuses workloads) version daemons inits nodes = .ok objects ↔
      objects = nodes.filterMap (workload version daemons inits) ∧ objects.Nodup ∧
        ∀ w ∈ objects, refuses w = false ∧ w ∉ workloads := by
  suffices hloop : ∀ (nodes : List String) (sent : List Workload),
      nodes.foldlM (createForNode (createWorkload refuses workloads) version daemons inits)
          sent = .ok objects ↔
        objects = sent ++ nodes.filterMap (workload version daemons inits) ∧
          (nodes.filterMap (workload version daemons inits)).Nodup ∧
            ∀ w ∈ nodes.filterMap (workload version daemons inits),
              refuses w = false ∧ w ∉ workloads ++ sent by
    rw [runCmdPods, hloop nodes []]
    simp only [List.nil_append, List.append_nil]
    exact and_congr_right fun h => by rw [h]
  intro nodes
  induction nodes with
  | nil =>
    intro sent
    rw [List.filterMap_nil, List.append_nil, List.foldlM_nil, pure_eq_ok]
    exact ⟨fun h => ⟨h.symm, .nil, List.forall_mem_nil _⟩, fun h => h.1.symm⟩
  | cons node nodes ih =>
    intro sent
    rw [List.foldlM_cons, List.filterMap_cons]
    cases hw : workload version daemons inits node with
    | none =>
      rw [createForNode, hw]
      exact ih sent
    | some w =>
      by_cases hold : refuses w = true ∨ w ∈ workloads ++ sent
      · have hcall : createForNode (createWorkload refuses workloads) version daemons inits
            sent node = .error (.systemExit 1) := by
          rw [createForNode, hw]
          simp only [createWorkload, if_pos hold]
          rfl
        rw [hcall]
        refine iff_of_false (fun h => by cases h) fun h => ?_
        obtain ⟨hrefuses, hnew⟩ := h.2.2 w List.mem_cons_self
        rcases hold with hold | hold
        · rw [hrefuses] at hold
          cases hold
        · exact hnew hold
      · have hcall : createForNode (createWorkload refuses workloads) version daemons inits
            sent node = .ok (sent ++ [w]) := by
          rw [createForNode, hw]
          simp only [createWorkload, if_neg hold]
          rfl
        obtain ⟨hrefuses, hnew⟩ := not_or.mp hold
        rw [hcall]
        refine (ih (sent ++ [w])).trans ?_
        simp only [List.append_assoc, List.singleton_append, List.nodup_cons, List.forall_mem_cons,
          List.mem_append, List.mem_singleton, not_or] at hnew ⊢
        refine and_congr_right fun _ => ?_
        constructor
        · rintro ⟨hnd, hall⟩
          exact ⟨⟨fun hmem => (hall w hmem).2.2.2 rfl, hnd⟩, ⟨by simpa using hrefuses, hnew⟩,
            fun w' hw' => ⟨(hall w' hw').1, (hall w' hw').2.1, (hall w' hw').2.2.1⟩⟩
        · rintro ⟨⟨hw', hnd⟩, -, hall⟩
          exact ⟨hnd, fun w'' hw'' => ⟨(hall w'' hw'').1, (hall w'' hw'').2.1, (hall w'' hw'').2.2,
            fun heq => hw' (heq ▸ hw'')⟩⟩

/-! ## The waits -/

/-- A list with the pod that is waited for, in its phase. -/
def readyList (podNamePrefix podPhaseName nodeName : String) : PodList :=
  .ok [⟨"default", some (podNamePrefix ++ nodeName), none, podPhaseName⟩]

/-- Every wait can end. -/
theorem waitForNodes_ready (podNamePrefix podPhaseName : String) (nodes : List String)
    (rest : List PodList) :
    waitForNodes podNamePrefix podPhaseName nodes
      (nodes.map (readyList podNamePrefix podPhaseName) ++ rest) = some (.ok (), rest) := by
  induction nodes with
  | nil => rfl
  | cons node nodes ih =>
    have hnamed : isIn (podNamePrefix ++ node) (podNamePrefix ++ node) = true :=
      decide_eq_true (List.infix_refl _)
    have hscan : pollPods (podNamePrefix ++ node) podPhaseName
        (readyList podNamePrefix podPhaseName node) = some (.ok ()) := by
      simp only [readyList, pollPods, scanPods, PodStatus.isNamed, hnamed, if_true]
    rw [List.map_cons, List.cons_append, waitForNodes, waitForPodPhase, poll, hscan]
    exact ih

/-! ## When it returns -/

theorem filterMap_workload_nil (version : List ℕ) (nodes : List String) :
    nodes.filterMap (workload version [] []) = [] :=
  List.filterMap_eq_nil_iff.mpr fun _ _ => rfl

/-- A run that returns has created its objects. -/
theorem runPodsOn_eq_ok (h : runPodsOn refuses version daemons inits nodes workloads answers =
    some (.ok workloads', rest)) :
    workloads' = workloads ++ nodes.filterMap (workload version daemons inits) ∧
      (nodes.filterMap (workload version daemons inits)).Nodup ∧
        ∀ w ∈ nodes.filterMap (workload version daemons inits), w ∉ workloads := by
  rw [runPodsOn] at h
  split_ifs at h with hnone
  · obtain ⟨rfl, rfl⟩ := hnone
    obtain ⟨hworkloads, -⟩ := Prod.mk.inj (Option.some.inj h)
    rw [filterMap_workload_nil, List.append_nil]
    exact ⟨(Except.ok.inj hworkloads).symm, .nil, List.forall_mem_nil _⟩
  · split at h
    · cases h
    · cases h
    next hrun =>
      obtain ⟨hworkloads, -⟩ := Prod.mk.inj (Option.some.inj h)
      have hcreated : ∃ objects, runCmdPods (createWorkload refuses.workload workloads) version
          daemons inits nodes = .ok objects := by
        rw [runPods] at hrun
        split at hrun
        · cases hrun
        next objects hobjects => exact ⟨objects, hobjects⟩
      obtain ⟨objects, hobjects⟩ := hcreated
      obtain ⟨rfl, hnd, hall⟩ := runCmdPods_createWorkload_iff.mp hobjects
      exact ⟨(Except.ok.inj hworkloads).symm, hnd, fun w hw => (hall w hw).2⟩

/-- Where every object is new and none is refused, a run can return. -/
theorem exists_runPodsOn (hrefuses : ∀ w, refuses.workload w = false)
    (hnd : (nodes.filterMap (workload version daemons inits)).Nodup)
    (hnew : ∀ w ∈ nodes.filterMap (workload version daemons inits), w ∉ workloads) :
    ∃ answers, ∀ rest,
      runPodsOn refuses version daemons inits nodes workloads (answers ++ rest) =
      some (.ok (workloads ++ nodes.filterMap (workload version daemons inits)), rest) := by
  by_cases hnone : daemons = [] ∧ inits = []
  · obtain ⟨rfl, rfl⟩ := hnone
    refine ⟨[], fun rest => ?_⟩
    rw [runPodsOn, if_pos ⟨rfl, rfl⟩, filterMap_workload_nil, List.append_nil]
    rfl
  · refine ⟨nodes.map (readyList (awaited daemons inits).1 (awaited daemons inits).2),
      fun rest => ?_⟩
    have hcreated : runCmdPods (createWorkload refuses.workload workloads) version daemons
        inits nodes = .ok (nodes.filterMap (workload version daemons inits)) :=
      runCmdPods_createWorkload_iff.mpr ⟨rfl, hnd, fun w hw => ⟨hrefuses w, hnew w hw⟩⟩
    have hrun : runPods (.ok version) (createWorkload refuses.workload workloads) daemons
        inits nodes (nodes.map (readyList (awaited daemons inits).1
          (awaited daemons inits).2) ++ rest) = some (.ok (), rest) := by
      rw [runPods, show (.ok version >>= fun version => runCmdPods
        (createWorkload refuses.workload workloads) version daemons inits nodes) = _ from
          hcreated]
      exact waitForNodes_ready _ _ nodes rest
    rw [runPodsOn, if_neg hnone, hrun]

/-! ## The webhook -/

/-- What is created stays while objects are created. -/
theorem isSome_of_runCalls {refuses : ObjectKey → Bool} {created : List (ObjectKey × ApiObject)}
    {server server' : ApiServer} {key : ObjectKey}
    (h : (runCalls refuses (created.map fun call => .create call.1 call.2)).run.run server =
      (.ok (), server')) (hkey : (server key).isSome ∨ key ∈ created.map Prod.fst) :
    (server' key).isSome := by
  induction created generalizing server with
  | nil =>
    obtain rfl : server = server' := (Prod.mk.inj h).2
    exact hkey.resolve_right List.not_mem_nil
  | cons call created ih =>
    rw [List.map_cons, runCalls, ExceptT.run_bind, StateT.run_bind] at h
    rcases (ApiCall.create call.1 call.2).run_cases refuses server with ⟨later, happly, hrun⟩ | hrun
    · rw [hrun] at h
      refine @ih later h ?_
      rw [ApiCall.apply] at happly
      split_ifs at happly
      obtain rfl := Option.some.inj happly
      by_cases hsame : key = call.1
      · rw [hsame, Function.update_self]
        exact .inl rfl
      · rw [Function.update_of_ne hsame]
        exact hkey.imp_right fun hmem => (List.mem_cons.mp hmem).resolve_left hsame
    · rw [hrun] at h
      cases (Prod.mk.inj h).1

/-- The objects of the webhook are there when it is deployed. -/
theorem isSome_of_deployWebhook {refuses : ObjectKey → Bool} {server server' : ApiServer}
    (h : (deployWebhook refuses namespaceName o).run.run server = (.ok (), server')) {m : ℕ}
    (hm : m < 5) : (server' (webhookKey namespaceName m)).isSome := by
  have hcalls : deployCalls namespaceName o = ((List.range 5).map fun m =>
      (webhookKey namespaceName m, deployedObject namespaceName o m)).map
        fun call => ApiCall.create call.1 call.2 := by
    rw [List.map_map]
    rfl
  rw [deployWebhook_eq, hcalls] at h
  refine isSome_of_runCalls h (.inr ?_)
  rw [List.map_map]
  exact List.mem_map.mpr ⟨m, List.mem_range.mpr hm, rfl⟩

/-- **A webhook that is there is not deployed again.** -/
theorem deployWebhook_refused {refuses : ObjectKey → Bool} {server : ApiServer}
    (h : (server (webhookKey namespaceName 0)).isSome) :
    (deployWebhook refuses namespaceName o).run.run server = (.error (.systemExit 1), server) := by
  have hcalls : deployCalls namespaceName o = .create (webhookKey namespaceName 0)
      (deployedObject namespaceName o 0) :: [1, 2, 3, 4].map fun m =>
        .create (webhookKey namespaceName m) (deployedObject namespaceName o m) := rfl
  have hrun : ((ApiCall.create (webhookKey namespaceName 0)
      (deployedObject namespaceName o 0)).run refuses).run.run server =
        (.error (.systemExit 1), server) := by
    rcases (ApiCall.create (webhookKey namespaceName 0)
      (deployedObject namespaceName o 0)).run_cases refuses server with ⟨later, happly, -⟩ | hrun
    · rw [ApiCall.apply, if_pos h] at happly
      cases happly
    · exact hrun
  rw [deployWebhook_eq, hcalls, runCalls, ExceptT.run_bind, StateT.run_bind, hrun]
  rfl

/-! ## A run of `cluster_init` -/

/-- **What a run leaves that returns.** -/
structure Installed (version : List ℕ) (namespaceName : String) (cmds nodes : List String)
    (c c' : ClusterState) : Prop where
  workloads : c'.workloads = c.workloads ++ allCreated version cmds nodes
  nodup : (allCreated version cmds nodes).Nodup
  new : ∀ w ∈ allCreated version cmds nodes, w ∉ c.workloads
  webhook : [1, 9] ≤ version → ¬ (c.server (webhookKey namespaceName 0)).isSome ∧
    (c'.server (webhookKey namespaceName 0)).isSome

theorem installed_of_clusterInit
    (h : clusterInit refuses version namespaceName o cmds nodes c answers = some (.ok c', rest)) :
    Installed version namespaceName cmds nodes c c' := by
  rw [clusterInit] at h
  split at h
  · cases h
  · cases h
  next workloads₁ rest₁ hinits =>
    split at h
    · cases h
    · cases h
    next workloads₂ rest₂ hdaemons =>
      obtain ⟨rfl, hinitsNodup, hinitsNew⟩ := runPodsOn_eq_ok hinits
      obtain ⟨rfl, hdaemonsNodup, hdaemonsNew⟩ := runPodsOn_eq_ok hdaemons
      have hworkloads : c'.workloads = c.workloads ++ allCreated version cmds nodes ∧
          ([1, 9] ≤ version → ¬ (c.server (webhookKey namespaceName 0)).isSome ∧
            (c'.server (webhookKey namespaceName 0)).isSome) := by
        split_ifs at h with hnew
        · split at h
          · cases h
          next server hserver =>
            obtain ⟨hc', -⟩ := Prod.mk.inj (Option.some.inj h)
            obtain rfl := Except.ok.inj hc'
            refine ⟨by rw [allCreated, List.append_assoc], fun _ => ⟨fun hthere => ?_,
              isSome_of_deployWebhook hserver (by decide)⟩⟩
            rw [deployWebhook_refused hthere] at hserver
            cases (Prod.mk.inj hserver).1
        · obtain ⟨hc', -⟩ := Prod.mk.inj (Option.some.inj h)
          obtain rfl := Except.ok.inj hc'
          exact ⟨by rw [allCreated, List.append_assoc], fun hnew' => absurd hnew' hnew⟩
      refine ⟨hworkloads.1, List.nodup_append.mpr ⟨hinitsNodup, hdaemonsNodup, ?_⟩, ?_,
        hworkloads.2⟩
      · rintro w hw _ hw' rfl
        exact hdaemonsNew w hw' (List.mem_append_right _ hw)
      · exact List.forall_mem_append.mpr ⟨hinitsNew, fun w hw hold =>
          hdaemonsNew w hw (List.mem_append_left _ hold)⟩

/-- Before 1.9 a run can return where all its objects are new. -/
theorem exists_clusterInit (hrefuses : ∀ w, refuses.workload w = false)
    (hold : ¬ [1, 9] ≤ version) (hnd : (allCreated version cmds nodes).Nodup)
    (hnew : ∀ w ∈ allCreated version cmds nodes, w ∉ c.workloads) :
    ∃ answers, clusterInit refuses version namespaceName o cmds nodes c answers =
      some (.ok ⟨c.workloads ++ allCreated version cmds nodes, c.server⟩, []) := by
  obtain ⟨hinitsNodup, hdaemonsNodup, hapart⟩ := List.nodup_append.mp hnd
  obtain ⟨hinitsNew, hdaemonsNew⟩ := List.forall_mem_append.mp hnew
  obtain ⟨answers₁, hinits⟩ := exists_runPodsOn hrefuses hinitsNodup hinitsNew
  obtain ⟨answers₂, hdaemons⟩ := @exists_runPodsOn refuses version nodes (daemonCommands cmds) []
    (c.workloads ++ nodes.filterMap (workload version [] (initCommands cmds))) hrefuses
      hdaemonsNodup fun w hw hmem => (List.mem_append.mp hmem).elim (hdaemonsNew w hw)
        fun hinit => hapart w hinit w hw rfl
  refine ⟨answers₁ ++ answers₂, ?_⟩
  have hlast := hdaemons []
  rw [List.append_nil] at hlast
  rw [clusterInit, hinits answers₂]
  dsimp only
  rw [hlast, allCreated, ← List.append_assoc]
  exact if_neg hold

/-! ## What `uninstall` deletes of it -/

/-- A run of `uninstall` on one of the nodes, whatever there is on that node. -/
inductive UninstallOn {V T C σ τ : Type} (lock : Config V T C → ConfDirM σ Unit)
    (dir : ConfDirApi σ τ) (version : List ℕ) (namespaceName : String) (nodes : List String) :
    ClusterState → ClusterState → Prop
  | run (env : UninstallEnv) (s : Installation σ) (nodeName confDir : String)
      (hnode : nodeName ∈ nodes) (henv : env.nodeName = some nodeName)
      (hversion : ∀ v, env.version = .ok v → v = version) :
      UninstallOn lock dir version namespaceName nodes ⟨s.workloads, s.server⟩
        ⟨(uninstall env (fun args => (Config.call args).map (Config.confDirApi lock dir)) confDir
          namespaceName s).2.workloads,
        (uninstall env (fun args => (Config.call args).map (Config.confDirApi lock dir)) confDir
          namespaceName s).2.server⟩

variable {V T C σ τ : Type} {lock : Config V T C → ConfDirM σ Unit} {dir : ConfDirApi σ τ}

/-- Some call on some of the nodes names the object. -/
def NamedOn (version : List ℕ) (nodes : List String) (w : Workload) : Prop :=
  ∃ nodeName ∈ nodes, ∃ call ∈ deletions (some nodeName), w = workloadFor version call.1 call.2

/-- **Any number of runs** leave the webhook, and what none of their calls names. -/
theorem UninstallOn.leaves
    (h : Relation.ReflTransGen (UninstallOn lock dir version namespaceName nodes) c c') :
    c'.server = c.server ∧
      ∀ w ∈ c.workloads, ¬ NamedOn version nodes w → w ∈ c'.workloads := by
  induction h with
  | refl => exact ⟨rfl, fun w hw _ => hw⟩
  | tail _ hstep ih =>
    cases hstep with
    | run env s nodeName confDir hnode henv hversion =>
      obtain ⟨hserver, hworkloads⟩ := ih
      obtain ⟨e, s', hrun, hunremoved⟩ := uninstall_stops env lock dir confDir namespaceName s
      refine ⟨by rw [hrun]; exact hunremoved.server.trans hserver, fun w hw hnamed => ?_⟩
      refine uninstall_keeps hversion (fun call hcall heq => ?_) (hworkloads w hw hnamed)
      exact hnamed ⟨nodeName, hnode, call, henv ▸ hcall, heq⟩

/-- A cluster of a version, on which nothing is refused. -/
def undisturbed (kubeVersion nodeName : String) : UninstallEnv where
  nodeName := some nodeName
  api := jsonApi (.ok kubeVersion)
  missing path := "jsonpatch remove operation failed: unable to remove nonexistant key: " ++ path
  refuses _ := false
  fault _ := none

/-- **One run for each node** deletes all that the calls name. -/
theorem UninstallOn.exists_deleted {kubeVersion : String}
    (hversion : parseVersion kubeVersion = .ok version) (s₀ : Installation σ) (c : ClusterState) :
    ∃ c', Relation.ReflTransGen (UninstallOn lock dir version namespaceName nodes) c c' ∧
      ∀ w ∈ c'.workloads, w ∈ c.workloads ∧ ¬ NamedOn version nodes w := by
  suffices hloop : ∀ visited ⊆ nodes, ∃ c',
      Relation.ReflTransGen (UninstallOn lock dir version namespaceName nodes) c c' ∧
        ∀ w ∈ c'.workloads, w ∈ c.workloads ∧ ¬ NamedOn version visited w from
    hloop nodes (List.Subset.refl _)
  intro visited
  induction visited with
  | nil =>
    refine fun _ => ⟨c, .refl, fun w hw => ⟨hw, ?_⟩⟩
    rintro ⟨nodeName, hnode, -⟩
    cases hnode
  | cons node visited ih =>
    intro hsub
    obtain ⟨hnode, hvisited⟩ := List.cons_subset.mp hsub
    obtain ⟨c', hrun, hleft⟩ := ih hvisited
    have henv : (undisturbed kubeVersion node).version = .ok version := hversion
    refine ⟨_, hrun.tail (.run (undisturbed kubeVersion node)
      { s₀ with workloads := c'.workloads, server := c'.server } node "" hnode rfl
        fun v hv => Except.ok.inj (hv.symm.trans henv)), fun w hw => ?_⟩
    rw [uninstall_deletes henv fun _ _ => rfl, mem_uninstallPods] at hw
    obtain ⟨hthere, hnotCalled⟩ := hw
    obtain ⟨hold, hnamed⟩ := hleft w hthere
    refine ⟨hold, ?_⟩
    rintro ⟨nodeName, hmem, call, hcall, heq⟩
    rcases List.mem_cons.mp hmem with rfl | hmem
    · exact hnotCalled call hcall heq
    · exact hnamed ⟨nodeName, hmem, call, hcall, heq⟩

/-! ## The objects that are named -/

/-- A postfix that has the pieces of a text is that text. -/
theorem eq_of_postfixPieces {text nodeName : String}
    (h : splitText '-' text = postfixPieces (some nodeName)) : nodeName ≠ "" ∧ nodeName = text := by
  have hnode : nodeName ≠ "" := fun hnil =>
    splitText_ne_nil '-' text (h.trans (by simp [postfixPieces, hnil]))
  rw [postfixPieces, Option.elim_some, if_neg hnode, splitText_inj] at h
  exact ⟨hnode, h.symm⟩

/-- A pod is only named on its own node. -/
theorem pod_namedOn_iff {cs : List String} {nodeName : String}
    (hcs : ∀ cmd ∈ cs, cmd ∈ cmdInitList) (hne : cs ≠ []) (hnode : nodeName ∈ nodes) :
    NamedOn version nodes ⟨.core, podName cs nodeName⟩ ↔
      cs = ["init", "install", "discover"] ∧ nodeName ≠ "" ∧
        isIn "-ds-" ("-" ++ nodeName) = false := by
  have hvalid : ∀ cmd ∈ cs, cmd ∈ validCmdList := fun cmd hcmd => by
    have hall : ∀ cmd ∈ cmdInitList, cmd ∈ validCmdList := by decide
    exact hall cmd (hcs cmd hcmd)
  constructor
  · rintro ⟨other, -, call, hcall, heq⟩
    obtain ⟨pieces, hmem, hpieces⟩ := pieces_of_deleted hcall heq
    rw [splitText_podName hvalid hne] at hpieces
    obtain ⟨-, htail⟩ :=
      (pod_pieces hcs hne hmem hpieces).resolve_left (splitText_ne_nil '-' nodeName)
    obtain ⟨-, rfl⟩ := eq_of_postfixPieces htail
    exact (pod_deleted_iff hcs hne).mp ⟨call, hcall, heq⟩
  · exact fun h => ⟨nodeName, hnode, (pod_deleted_iff hcs hne).mpr h⟩

/-- A DaemonSet is named on the node that has its rewritten name. -/
theorem node_of_daemonSet_namedOn {cs : List String} {nodeName : String}
    (hcs : ∀ cmd ∈ cs, cmd ∈ validCmdList) (hdaemon : ∀ cmd ∈ cs, cmd ∉ cmdInitList)
    (hne : cs ≠ []) (h : NamedOn version nodes ⟨dsApi version, dsName cs nodeName⟩) :
    (cs = ["reconcile", "nodereport"] ∧ ∃ other ∈ nodes, other ≠ "" ∧
        other.toList = replacePod nodeName.toList) ∨
      cs = ["reconcile"] ∧ nodeName = "all" := by
  obtain ⟨other, hother, call, hcall, heq⟩ := h
  obtain ⟨pieces, hmem, hpieces⟩ := pieces_of_deleted hcall heq
  rw [splitText_dsName hcs hne] at hpieces
  rcases daemonSet_pieces hcs hdaemon hne hmem hpieces with ⟨hcs', htail⟩ | ⟨hcs', htail⟩
  · obtain ⟨hnode, rfl⟩ := eq_of_postfixPieces htail
    exact .inl ⟨hcs', _, hother, hnode, String.toList_ofList⟩
  · have hjoin := congrArg (joinText '-') htail
    rw [joinText_splitText, joinText_singleton, ← String.toList_inj, String.toList_ofList] at hjoin
    exact .inr ⟨hcs', eq_all_of_replacePod hjoin⟩

/-- **Where every DaemonSet has a name of its own** and is named on some node, no node's name is
rewritten. -/
theorem replacePod_eq_of_named
    (hnamed : ∀ node ∈ nodes, ∃ other ∈ nodes, other.toList = replacePod node.toList)
    (hapart : ∀ a ∈ nodes, ∀ b ∈ nodes, replacePod a.toList = replacePod b.toList → a = b) :
    ∀ node ∈ nodes, replacePod node.toList = node.toList := by
  -- the other node's name is shorter than a name that is rewritten
  suffices hlength : ∀ (n : ℕ), ∀ node ∈ nodes, node.toList.length < n →
      replacePod node.toList = node.toList from fun node hnode =>
    hlength _ node hnode (Nat.lt_succ_self _)
  intro n
  induction n with
  | zero => exact fun node _ hlt => absurd hlt (Nat.not_lt_zero _)
  | succ n ih =>
    intro node hnode hlt
    rcases replacePod_cases node.toList with ⟨hsame, -⟩ | ⟨-, hshorter, -⟩
    · exact hsame
    · obtain ⟨other, hother, heq⟩ := hnamed node hnode
      rw [← heq] at hshorter
      have hfixed := ih other hother (by omega)
      rw [← heq, hapart other hother node hnode (hfixed.trans heq)]

theorem forall_allCreated {P : Workload → Prop} : (∀ w ∈ allCreated version cmds nodes, P w) ↔
    ∀ node ∈ nodes, ∀ w ∈ created version cmds node, P w := by
  simp only [allCreated, created, List.forall_mem_append, List.mem_filterMap, Option.mem_toList]
  constructor
  · exact fun h node hnode => ⟨fun w hw => h.1 w ⟨node, hnode, hw⟩,
      fun w hw => h.2 w ⟨node, hnode, hw⟩⟩
  · intro h
    constructor
    · rintro w ⟨node, hnode, hw⟩
      exact (h node hnode).1 w hw
    · rintro w ⟨node, hnode, hw⟩
      exact (h node hnode).2 w hw

/-- The DaemonSets of the nodes have names of their own where they are created. -/
theorem apart_of_nodup (hcmds : ∀ cmd ∈ cmds, cmd ∈ validCmdList)
    (hnd : (allCreated version cmds nodes).Nodup) (hne : daemonCommands cmds ≠ []) :
    ∀ a ∈ nodes, ∀ b ∈ nodes, replacePod a.toList = replacePod b.toList → a = b := by
  intro a ha b hb heq
  have hdaemons : nodes.filterMap (workload version (daemonCommands cmds) []) =
      nodes.map fun node => ⟨dsApi version, dsName (daemonCommands cmds) node⟩ := by
    rw [← List.filterMap_eq_map]
    exact List.filterMap_congr fun node _ => if_pos hne
  have hnames := (List.nodup_append.mp hnd).2.1
  have hvalid : ∀ cmd ∈ daemonCommands cmds, cmd ∈ validCmdList :=
    fun cmd hcmd => hcmds cmd (List.mem_of_mem_filter hcmd)
  rw [hdaemons] at hnames
  refine List.inj_on_of_nodup_map hnames ha hb ?_
  rw [(dsName_eq_dsName_iff hvalid).mpr heq]

/-- **All is named** exactly when all can be deleted. -/
theorem all_named_iff (hcmds : ∀ cmd ∈ cmds, cmd ∈ validCmdList)
    (hnd : (allCreated version cmds nodes).Nodup) :
    (∀ w ∈ allCreated version cmds nodes, NamedOn version nodes w) ↔
      ∀ node ∈ nodes, Deletable cmds node := by
  have hinit : ∀ cmd ∈ initCommands cmds, cmd ∈ cmdInitList := fun _ => mem_initCommands
  have hdaemon : ∀ cmd ∈ daemonCommands cmds, cmd ∉ cmdInitList := fun _ => mem_daemonCommands
  have hvalid : ∀ cmd ∈ daemonCommands cmds, cmd ∈ validCmdList :=
    fun cmd hcmd => hcmds cmd (List.mem_of_mem_filter hcmd)
  simp only [forall_allCreated, forall_created]
  constructor
  · intro h node hnode
    refine ⟨or_iff_not_imp_left.mpr fun hne =>
      (pod_namedOn_iff hinit hne hnode).mp ((h node hnode).1 hne),
      or_iff_not_imp_left.mpr fun hne => ?_⟩
    have hnamed := fun node hnode =>
      node_of_daemonSet_namedOn hvalid hdaemon hne ((h node hnode).2 hne)
    rcases hnamed node hnode with ⟨hboth, -⟩ | hone
    · have hother : ∀ node ∈ nodes, ∃ other ∈ nodes, other ≠ "" ∧
          other.toList = replacePod node.toList := fun node hnode =>
        (hnamed node hnode).elim And.right fun hone => by
          rw [hone.1] at hboth
          cases hboth
      have hfixed := replacePod_eq_of_named (fun node hnode =>
        let ⟨other, hmem, _, heq⟩ := hother node hnode
        ⟨other, hmem, heq⟩) (apart_of_nodup hcmds hnd hne) node hnode
      obtain ⟨other, -, hnonempty, heq⟩ := hother node hnode
      obtain rfl := String.toList_inj.mp (heq.trans hfixed)
      exact .inl ⟨hboth, hnonempty, isIn_pod_iff.mpr hfixed⟩
    · exact .inr hone
  · intro h node hnode
    obtain ⟨hpod, hds⟩ := h node hnode
    exact ⟨fun hne => (pod_namedOn_iff hinit hne hnode).mpr (hpod.resolve_left hne),
      fun hne => ⟨node, hnode,
        (daemonSet_deleted_iff hvalid hdaemon hne).mpr (hds.resolve_left hne)⟩⟩

/-- **Installing again.**  After a run of `cluster_init` that has returned, and whatever runs of
`uninstall` on its nodes, a second run with the same commands and nodes returns, in one of the ways
in which it can be answered, exactly on a cluster before 1.9 where the commands came in the order of
the fixed names and no node has a name that is rewritten or mistaken. -/
theorem reinstalled_iff (lock : Config V T C → ConfDirM σ Unit) (dir : ConfDirApi σ τ)
    (s₀ : Installation σ) {kubeVersion cmdText : String}
    (hversion : parseVersion kubeVersion = .ok version) (hcmds : cmkCmdList cmdText = .ok cmds)
    (h : clusterInit refuses version namespaceName o cmds nodes c answers = some (.ok c', rest)) :
    (∃ c₂, Relation.ReflTransGen (UninstallOn lock dir version namespaceName nodes) c' c₂ ∧
      ∃ refuses o answers c₃ rest, clusterInit refuses version namespaceName o cmds nodes c₂
        answers = some (.ok c₃, rest)) ↔
      ¬ [1, 9] ≤ version ∧ ∀ node ∈ nodes, Deletable cmds node := by
  have hinstalled := installed_of_clusterInit h
  rw [← all_named_iff (valid_of_cmkCmdList hcmds) hinstalled.nodup]
  constructor
  · rintro ⟨c₂, hrun, refuses', o', answers', c₃, rest', hagain⟩
    obtain ⟨hserver, hleft⟩ := UninstallOn.leaves hrun
    have hinstalled' := installed_of_clusterInit hagain
    refine ⟨fun hnew => ?_, fun w hw => ?_⟩
    · refine (hinstalled'.webhook hnew).1 ?_
      rw [hserver]
      exact (hinstalled.webhook hnew).2
    · by_contra hnamed
      refine hinstalled'.new w hw (hleft w ?_ hnamed)
      rw [hinstalled.workloads]
      exact List.mem_append_right _ hw
  · rintro ⟨hold, hnamed⟩
    obtain ⟨c₂, hrun, hdeleted⟩ := @UninstallOn.exists_deleted version namespaceName nodes _ _ _ _ _
      lock dir kubeVersion hversion s₀ c'
    obtain ⟨answers', hagain⟩ := @exists_clusterInit ⟨fun _ => false, fun _ => false⟩ version
      namespaceName o cmds nodes c₂ (fun _ => rfl) hold hinstalled.nodup
        fun w hw hthere => (hdeleted w hthere).2 (hnamed w hw)
    exact ⟨c₂, hrun, _, o, answers', _, [], hagain⟩

/-- A node on which everything is installed. -/
def someInstallation : Installation (Option (Conf String String)) where
  workloads := []
  reports _ := none
  server _ := none
  node := .null
  confDir := some idleConf
  binary := true

/-- The commands in the order of the fixed names. -/
def fixedOrder : List String := ["init", "install", "discover", "reconcile", "nodereport"]

/-- The cluster after a first run for two nodes. -/
def installedOnTwo : ClusterState where
  workloads := allCreated [1, 8, 4] fixedOrder ["node1", "node2"]
  server _ := none

/-- A cluster of 1.8 with two nodes. -/
theorem reinstalled_twoNodes :
    ∃ c₂, Relation.ReflTransGen (UninstallOn (fun _ : Config Unit Unit Unit => pure ()) emptyDir
        [1, 8, 4] "default" ["node1", "node2"]) installedOnTwo c₂ ∧
      ∃ refuses o answers c₃ rest, clusterInit refuses [1, 8, 4] "default" o fixedOrder
        ["node1", "node2"] c₂ answers = some (.ok c₃, rest) := by
  have hdeletable : ∀ node ∈ ["node1", "node2"], Deletable fixedOrder node :=
    List.forall_mem_cons.mpr ⟨⟨by decide, by decide⟩, List.forall_mem_singleton.mpr
      ⟨by decide, by decide⟩⟩
  obtain ⟨answers, hfirst⟩ := @exists_clusterInit ⟨fun _ => false, fun _ => false⟩ [1, 8, 4]
    "default" someOptions fixedOrder ["node1", "node2"] ⟨[], fun _ => none⟩ (fun _ => rfl)
      (by decide) (by decide) (by simp)
  exact (@reinstalled_iff _ [1, 8, 4] "default" someOptions _ _ _ _ _ _ Unit Unit Unit _ _
    (fun _ => pure ()) emptyDir someInstallation "v1.8.4"
      "init,install,discover,reconcile,nodereport" (by decide) (by decide) hfirst).mpr
        ⟨by decide, hdeletable⟩

end Cmk
