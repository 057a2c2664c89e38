import Cmk.ClusterInit.Webhook
import Cmk.Machinery.Steps
import Cmk.Reports
import Cmk.Uninstall.ConfDir
import Cmk.Uninstall.Pods
import Cmk.Uninstall.Resources
import Cmk.Uninstall.Taint

/-!
# Uninstall/Whole — `uninstall` from its first step to its last

The command deletes the pods and the DaemonSets, the reports of its node, the taint and the resource
there; then the configuration directory, the binary, the webhook and the label.  It never gets past
the directory: what comes behind is there after every run, whatever the API server answers
(`uninstall_stops`).
-/

open Machinery

namespace Cmk

/-! ## The command -/

/-- What there is to remove, on the cluster and on the node of the command. -/
structure Installation (σ : Type) where
  workloads : List Workload
  reports : ReportStore
  server : ApiServer
  node : JsonValue
  confDir : σ
  binary : Bool

/-- The calls of `uninstall`. -/
inductive UninstallStep
  | pod (podBaseName : String) (postfixName : Option String)
  | report (kind : ReportKind)
  | taint
  | tracking
  | confDir
  | binary
  | webhook
  | label

/-- What the command is told, besides by what there is; a step may raise an error of its own. -/
structure UninstallEnv where
  nodeName : Option String
  api : NodeApi
  missing : String → String
  refuses : ObjectKey → Bool
  fault : UninstallStep → Option PyErr

def UninstallEnv.version (env : UninstallEnv) : Except PyErr (List ℕ) :=
  env.api.kubeVersion >>= parseVersion

variable {σ τ : Type}

/-- The version is asked for the DaemonSets only. -/
def removePod (env : UninstallEnv) (podBaseName : String) (postfixName : Option String)
    (workloads : List Workload) : Except PyErr (List Workload) :=
  if isIn "-ds-" (workloadFor [] podBaseName postfixName).name then do
    let version ← env.version
    return deleteCmkPod version podBaseName postfixName workloads
  else .ok (deleteCmkPod [] podBaseName postfixName workloads)

/-- `remove_report_crd` or `remove_report_tpr`, on a report that is there or not. -/
def removeReport (env : UninstallEnv) (kind : ReportKind) (reports : ReportStore) :
    Except PyErr ReportStore := do
  let version ← env.version
  match env.nodeName with
  | none => .error .typeError
  | some nodeName => do
    let object ← reportObject ([1, 7] ≤ version) kind nodeName .null
    return Function.update reports (object.resourcePath, object.name) none

def removeNodeLabel (env : UninstallEnv) (node : JsonValue) : NodeStep :=
  unlessMissing node (removeStatus env.missing "/metadata/labels/cmk.intel.com~1cmk-node" node)

def UninstallStep.perform (env : UninstallEnv)
    (config : List String → Except PyErr (ConfDirApi σ τ)) (confDir namespaceName : String)
    (s : Installation σ) : UninstallStep → Except PyErr Unit × Installation σ
  | .pod podBaseName postfixName =>
    match removePod env podBaseName postfixName s.workloads with
    | .ok workloads => (.ok (), { s with workloads })
    | .error e => (.error e, s)
  | .report kind =>
    match removeReport env kind s.reports with
    | .ok reports => (.ok (), { s with reports })
    | .error e => (.error e, s)
  | .taint =>
    match env.version with
    | .ok version =>
      let result := removeNodeTaint env.api version s.node
      (result.1, { s with node := result.2 })
    | .error e => (.error e, s)
  | .tracking =>
    let result := removeResourceTracking env.api.kubeVersion env.missing s.node
    (result.1, { s with node := result.2 })
  | .confDir =>
    let result := checkRemoveConfDir config confDir s.confDir
    (result.1, { s with confDir := result.2.1 })
  | .binary => (.ok (), { s with binary := false })
  | .webhook =>
    let result := (removeWebhookResources env.refuses env.version namespaceName).run.run s.server
    (result.1, { s with server := result.2 })
  | .label =>
    let result := removeNodeLabel env s.node
    (result.1, { s with node := result.2 })

def UninstallStep.run (env : UninstallEnv)
    (config : List String → Except PyErr (ConfDirApi σ τ)) (confDir namespaceName : String)
    (step : UninstallStep) (s : Installation σ) : Except PyErr Unit × Installation σ :=
  match env.fault step with
  | some e => (.error e, s)
  | none => step.perform env config confDir namespaceName s

/-- After the pods, `remove_all_report` and what is on the node. -/
def nodeSteps : List UninstallStep :=
  [.report .nodeReport, .report .reconcileReport, .taint, .tracking]

/-- The steps before the configuration directory. -/
def firstSteps (nodeName : Option String) : List UninstallStep :=
  (deletions nodeName).map (fun call => .pod call.1 call.2) ++ nodeSteps

/-- The steps from there on. -/
def lastSteps : List UninstallStep := [.confDir, .binary, .webhook, .label]

def uninstall (env : UninstallEnv) (config : List String → Except PyErr (ConfDirApi σ τ))
    (confDir namespaceName : String) : Installation σ → Except PyErr Unit × Installation σ :=
  runSteps ((firstSteps env.nodeName ++ lastSteps).map
    (UninstallStep.run env config confDir namespaceName))

/-! ## The steps -/

def labelPath : List String := ["metadata", "labels", "cmk.intel.com/cmk-node"]

/-- What stands behind the step that never returns. -/
structure Unremoved (s s' : Installation σ) : Prop where
  server : s'.server = s.server
  confDir : s'.confDir = s.confDir
  binary : s'.binary = s.binary
  label : s'.node.get? labelPath = s.node.get? labelPath

variable {env : UninstallEnv} {config : List String → Except PyErr (ConfDirApi σ τ)}
  {confDir namespaceName : String} {s s' s'' : Installation σ} {version : List ℕ}

theorem Unremoved.refl (s : Installation σ) : Unremoved s s := ⟨rfl, rfl, rfl, rfl⟩

theorem Unremoved.trans (h : Unremoved s s') (h' : Unremoved s' s'') : Unremoved s s'' :=
  ⟨h'.server.trans h.server, h'.confDir.trans h.confDir, h'.binary.trans h.binary,
    h'.label.trans h.label⟩

theorem label_replaceOnNode {api : NodeApi} {text : String} {path : List String}
    (hpointer : JsonValue.pointer text = some path) (hapart : JsonValue.Apart path labelPath)
    (value node : JsonValue) :
    (replaceOnNode api ⟨text, value⟩ node).2.get? labelPath = node.get? labelPath := by
  rw [replaceOnNode, hpointer, Option.bind_some]
  split_ifs
  · rfl
  · split
    next node' hnode' =>
      obtain ⟨-, -, hadd⟩ := Option.bind_eq_some_iff.mp hnode'
      exact JsonValue.get?_add_of_apart hadd hapart
    next => rfl

theorem label_removeNodeTaint (api : NodeApi) (version : List ℕ) (node : JsonValue) :
    (removeNodeTaint api version node).2.get? labelPath = node.get? labelPath := by
  have hspec : JsonValue.pointer "/spec/taints" = some ["spec", "taints"] := rfl
  have hannotation : JsonValue.pointer
      "/metadata/annotations/scheduler.alpha.kubernetes.io~1taints" =
        some ["metadata", "annotations", "scheduler.alpha.kubernetes.io/taints"] := rfl
  rw [removeNodeTaint]
  split
  · rfl
  · split
    · rfl
    · split_ifs
      · rfl
      · exact label_replaceOnNode hspec (by decide) _ node
      · exact label_replaceOnNode hannotation (by decide) _ node

theorem label_removeStatus {missing : String → String} {text : String} {path : List String}
    (hpointer : JsonValue.pointer text = some path) (hapart : JsonValue.Apart path labelPath)
    {node node' : JsonValue} (h : removeStatus missing text node = .ok node') :
    node'.get? labelPath = node.get? labelPath := by
  rw [removeStatus, hpointer, Option.bind_some] at h
  split at h
  next hremove =>
    obtain rfl := Except.ok.inj h
    exact JsonValue.get?_remove_of_apart hremove hapart
  next => cases h

/-- A removal that finds nothing leaves the node. -/
theorem label_unlessMissing {node : JsonValue} {result : Except String JsonValue}
    (h : ∀ node', result = .ok node' → node'.get? labelPath = node.get? labelPath) :
    (unlessMissing node result).2.get? labelPath = node.get? labelPath := by
  cases result with
  | ok node' => exact h node' rfl
  | error message =>
    rw [unlessMissing]
    split_ifs <;> rfl

theorem label_removeResourceTracking (kubeVersion : Except PyErr String)
    (missing : String → String) (node : JsonValue) :
    (removeResourceTracking kubeVersion missing node).2.get? labelPath = node.get? labelPath := by
  have hoir : JsonValue.pointer
      "/status/capacity/pod.alpha.kubernetes.io~1opaque-int-resource-cmk" =
        some ["status", "capacity", "pod.alpha.kubernetes.io/opaque-int-resource-cmk"] := rfl
  have hcapacity : JsonValue.pointer "/status/capacity/cmk.intel.com~1exclusive-cores" =
      some ["status", "capacity", "cmk.intel.com/exclusive-cores"] := rfl
  have hallocatable : JsonValue.pointer "/status/allocatable/cmk.intel.com~1exclusive-cores" =
      some ["status", "allocatable", "cmk.intel.com/exclusive-cores"] := rfl
  rw [removeResourceTracking]
  split
  · rfl
  · split_ifs
    · rfl
    · rw [removeNodeCmkEr]
      split
      next message _ =>
        refine label_unlessMissing fun node' h => ?_
        cases h
      next node' hnode' =>
        rw [label_unlessMissing fun _ => label_removeStatus hallocatable (by decide)]
        exact label_removeStatus hcapacity (by decide) hnode'
    · exact label_unlessMissing fun _ => label_removeStatus hoir (by decide)

/-- **The first steps leave** what the last ones are for. -/
theorem unremoved_of_firstSteps {step : UninstallStep} (hstep : step ∈ firstSteps env.nodeName)
    (s : Installation σ) :
    Unremoved s (step.run env config confDir namespaceName s).2 := by
  rw [UninstallStep.run]
  split
  · exact .refl s
  · simp only [firstSteps, nodeSteps, List.mem_append, List.mem_map, List.mem_cons,
      List.not_mem_nil, or_false] at hstep
    rcases hstep with ⟨call, -, rfl⟩ | rfl | rfl | rfl | rfl
    · rw [UninstallStep.perform]
      split
      · exact ⟨rfl, rfl, rfl, rfl⟩
      · exact .refl s
    · rw [UninstallStep.perform]
      split
      · exact ⟨rfl, rfl, rfl, rfl⟩
      · exact .refl s
    · rw [UninstallStep.perform]
      split
      · exact ⟨rfl, rfl, rfl, rfl⟩
      · exact .refl s
    · rw [UninstallStep.perform]
      split
      next version _ => exact ⟨rfl, rfl, rfl, label_removeNodeTaint env.api version s.node⟩
      next => exact .refl s
    · exact ⟨rfl, rfl, rfl, label_removeResourceTracking _ _ s.node⟩

/-! ## The pods and the DaemonSets -/

/-- The version decides nothing for a name that is no DaemonSet's. -/
theorem workloadFor_of_pod {podBaseName : String} {postfixName : Option String}
    (h : isIn "-ds-" (workloadFor [] podBaseName postfixName).name = false) (version : List ℕ) :
    workloadFor version podBaseName postfixName = workloadFor [] podBaseName postfixName := by
  simp only [workloadFor] at h ⊢
  simp only [h, Bool.false_eq_true, if_false]

theorem removePod_eq_ok (hversion : ∀ v, env.version = .ok v → v = version) {podBaseName : String}
    {postfixName : Option String} {workloads workloads' : List Workload}
    (h : removePod env podBaseName postfixName workloads = .ok workloads') :
    workloads' = deleteCmkPod version podBaseName postfixName workloads := by
  rw [removePod] at h
  split_ifs at h with hds
  · obtain ⟨v, hv, h⟩ := bind_eq_ok.mp h
    rw [← pure_eq_ok.mp h, hversion v hv]
  · rw [← Except.ok.inj h, deleteCmkPod, deleteCmkPod,
      workloadFor_of_pod (Bool.eq_false_of_not_eq_true hds) version]

theorem removePod_of_version (hversion : env.version = .ok version) (podBaseName : String)
    (postfixName : Option String) (workloads : List Workload) :
    removePod env podBaseName postfixName workloads =
      .ok (deleteCmkPod version podBaseName postfixName workloads) := by
  rw [removePod]
  split_ifs with hds
  · exact bind_eq_ok.mpr ⟨version, hversion, rfl⟩
  · rw [deleteCmkPod, deleteCmkPod,
      workloadFor_of_pod (Bool.eq_false_of_not_eq_true hds) version]

/-- The other steps leave the pods. -/
theorem workloads_run {step : UninstallStep} (hstep : ∀ base post, step ≠ .pod base post)
    (s : Installation σ) :
    (step.run env config confDir namespaceName s).2.workloads = s.workloads := by
  rw [UninstallStep.run]
  split
  · rfl
  · cases step with
    | pod base post => exact absurd rfl (hstep base post)
    | report | taint =>
      rw [UninstallStep.perform]
      split <;> rfl
    | tracking | confDir | binary | webhook | label => rfl

/-- **What no call names** is there after every run. -/
theorem uninstall_keeps (hversion : ∀ v, env.version = .ok v → v = version) {w : Workload}
    (hw : ∀ call ∈ deletions env.nodeName, w ≠ workloadFor version call.1 call.2)
    (hs : w ∈ s.workloads) :
    w ∈ (uninstall env config confDir namespaceName s).2.workloads := by
  refine runSteps_keeps (P := fun s : Installation σ => w ∈ s.workloads)
    (List.forall_mem_map.mpr ?_) hs
  intro step hstep s hs
  cases hkind : step with
  | pod base post =>
    have hcall : (base, post) ∈ deletions env.nodeName := by
      simpa [hkind, firstSteps, nodeSteps, lastSteps] using hstep
    rw [UninstallStep.run]
    split
    · exact hs
    · rw [UninstallStep.perform]
      split
      next workloads hworkloads =>
        rw [removePod_eq_ok hversion hworkloads]
        exact List.mem_filter.mpr ⟨hs, decide_eq_true (hw _ hcall)⟩
      next => exact hs
  | _ =>
    rw [workloads_run (by simp)]
    exact hs

/-- **Undisturbed**, the command deletes what its calls name. -/
theorem uninstall_deletes (hversion : env.version = .ok version)
    (hfault : ∀ base post, env.fault (.pod base post) = none) (s : Installation σ) :
    (uninstall env config confDir namespaceName s).2.workloads =
      uninstallPods version env.nodeName s.workloads := by
  have hpods : ∀ (calls : List (String × Option String)) (s : Installation σ),
      runSteps (calls.map fun call => UninstallStep.run env config confDir namespaceName
        (.pod call.1 call.2)) s = (.ok (), { s with workloads := calls.foldl (fun workloads call =>
          deleteCmkPod version call.1 call.2 workloads) s.workloads }) := by
    intro calls
    induction calls with
    | nil => exact fun s => rfl
    | cons call calls ih =>
      intro s
      have hcall : UninstallStep.run env config confDir namespaceName (.pod call.1 call.2) s =
          (.ok (), { s with workloads := deleteCmkPod version call.1 call.2 s.workloads }) := by
        rw [UninstallStep.run, hfault, UninstallStep.perform, removePod_of_version hversion]
      rw [List.map_cons, runSteps_cons_ok hcall, ih]
      rfl
  have hrest : ∀ step ∈ nodeSteps ++ lastSteps, ∀ s,
      (step.run env config confDir namespaceName s).2.workloads = s.workloads := by
    intro step hstep
    refine workloads_run fun base post heq => ?_
    simp [heq, nodeSteps, lastSteps] at hstep
  have hsteps : (firstSteps env.nodeName ++ lastSteps).map
      (UninstallStep.run env config confDir namespaceName) =
      (deletions env.nodeName).map (fun call => UninstallStep.run env config confDir namespaceName
        (.pod call.1 call.2)) ++
          (nodeSteps ++ lastSteps).map (UninstallStep.run env config confDir namespaceName) := by
    rw [firstSteps, List.append_assoc, List.map_append, List.map_map]
    rfl
  rw [uninstall, hsteps, runSteps_append, hpods]
  refine runSteps_keeps (P := fun s' : Installation σ =>
    s'.workloads = uninstallPods version env.nodeName s.workloads) (List.forall_mem_map.mpr ?_) rfl
  exact fun step hstep s' hs' => (hrest step hstep s').trans hs'

/-- **`uninstall` never ends well.**  Whatever is installed, and whatever its calls are answered,
the command fails, and it has not touched the configuration directory, the binary, the webhook or
the label of the node. -/
theorem uninstall_stops {V T C : Type} (env : UninstallEnv)
    (lock : Config V T C → ConfDirM σ Unit) (dir : ConfDirApi σ τ)
    (confDir namespaceName : String) (s : Installation σ) :
    ∃ e s', uninstall env (fun args => (Config.call args).map (Config.confDirApi lock dir)) confDir
      namespaceName s = (.error e, s') ∧ Unremoved s s' := by
  have hstop : ∀ s : Installation σ, ∃ e, UninstallStep.run env
      (fun args => (Config.call args).map (Config.confDirApi lock dir)) confDir namespaceName
        .confDir s = (.error e, s) := by
    intro s
    rw [UninstallStep.run]
    split
    · exact ⟨_, rfl⟩
    · exact ⟨.systemExit 1, by
        rw [UninstallStep.perform, checkRemoveConfDir_config]⟩
  obtain ⟨e, hrun⟩ := runSteps_stops hstop ((firstSteps env.nodeName).map (UninstallStep.run env
    (fun args => (Config.call args).map (Config.confDirApi lock dir)) confDir namespaceName))
      ([.binary, .webhook, .label].map (UninstallStep.run env
        (fun args => (Config.call args).map (Config.confDirApi lock dir)) confDir namespaceName)) s
  refine ⟨e, _, by rw [uninstall, List.map_append]; exact hrun, ?_⟩
  refine runSteps_keeps (List.forall_mem_map.mpr fun step hstep s' hs' => ?_) (.refl s)
  exact hs'.trans (unremoved_of_firstSteps hstep s')

end Cmk
