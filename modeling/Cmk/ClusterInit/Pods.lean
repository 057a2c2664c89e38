import Cmk.ClusterInit.Templates
import Cmk.ClusterInit.Wait

/-!
# ClusterInit/Pods — the pods and DaemonSets that `run_cmd_pods` sends

A pod is put together for a list of commands, one container for each, and then sent for every node
under the name and with the `nodeName` of that node.  `init` runs before the others, in a container
of another kind unless it is alone.  The API server accepts the names and the mounts of what is sent
exactly when no command is repeated, `init` aside where the cluster keeps one init container only
and there is another container (`pods_valid_iff`).
-/

open Machinery

namespace Cmk

/-! ## The pod of the commands -/

/-- The options of `cluster_init` that get into the pods. -/
structure ClusterOptions where
  cmkImg : String
  cmkImgPol : String
  installDir : String
  numExclusiveCores : String
  numSharedCores : String
  pullSecret : Option String
  serviceaccount : String
  sharedMode : String
  exclusiveMode : String
  namespaceName : String
  exclNonIsolcpus : String
  noTaint : Bool

/-- The options that are left out have these values. -/
def ClusterOptions.byDefault : ClusterOptions where
  cmkImg := "cmk:v1.5.2"
  cmkImgPol := "IfNotPresent"
  installDir := "/opt/bin"
  numExclusiveCores := "4"
  numSharedCores := "1"
  pullSecret := none
  serviceaccount := "cmk-serviceaccount"
  sharedMode := "packed"
  exclusiveMode := "packed"
  namespaceName := "default"
  exclNonIsolcpus := "-1"
  noTaint := false

/-- The arguments of a command of a DaemonSet. -/
def daemonArgs (o : ClusterOptions) (cmd : String) : String :=
  if cmd = "reconcile" then
    "/cmk/cmk.py isolate --pool=infra --namespace=" ++ o.namespaceName ++
      " /cmk/cmk.py -- reconcile --interval=5 --publish --namespace=" ++ o.namespaceName
  else if cmd = "nodereport" then
    "/cmk/cmk.py isolate --pool=infra --namespace=" ++ o.namespaceName ++
      " /cmk/cmk.py -- node-report --interval=5 --publish --namespace=" ++ o.namespaceName
  else ""

/-- The arguments of a command of a pod that ends. -/
def initArgs (o : ClusterOptions) (cmd : String) : String :=
  if cmd = "init" then
    "/cmk/cmk.py init --num-exclusive-cores=" ++ o.numExclusiveCores ++
      " --num-shared-cores=" ++ o.numSharedCores ++ " --shared-mode=" ++ o.sharedMode ++
      " --exclusive-mode=" ++ o.exclusiveMode ++ " --excl-non-isolcpus=" ++ o.exclNonIsolcpus ++
      " --namespace=" ++ o.namespaceName
  else if cmd = "discover" then
    "/cmk/cmk.py discover --namespace=" ++ o.namespaceName ++
      if o.noTaint then " --no-taint" else ""
  else if cmd = "install" then "/cmk/cmk.py install"
  else ""

def addDaemonCommand (o : ClusterOptions) (pod : PodTemplate) (cmd : String) :
    Except PyErr PodTemplate :=
  pod.updatePodWithContainer cmd o.cmkImg o.cmkImgPol (daemonArgs o cmd)

/-- `init` runs as an init container, unless it is the only command. -/
def addInitCommand (o : ClusterOptions) (version : List ℕ) (alone : Bool) (pod : PodTemplate)
    (cmd : String) : Except PyErr PodTemplate :=
  if cmd = "init" ∧ ¬ alone then
    pod.updatePodWithInitContainer version cmd o.cmkImg o.cmkImgPol (initArgs o cmd)
  else pod.updatePodWithContainer cmd o.cmkImg o.cmkImgPol (initArgs o cmd)

/-- The template before its first update, with a secret if there is one. -/
def templateFor (o : ClusterOptions) : PodTemplate :=
  match o.pullSecret with
  | none => getPodTemplate "cmk-serviceaccount"
  | some secret =>
    if secret = "" then getPodTemplate "cmk-serviceaccount"
    else (getPodTemplate "cmk-serviceaccount").updatePodWithPullSecret secret

/-- DaemonSets tolerate every taint where the pod has a field for it. -/
def PodTemplate.tolerateAll (pod : PodTemplate) (version : List ℕ) : PodTemplate :=
  if [1, 7] ≤ version then
    { pod with spec := { pod.spec with tolerations := [("operator", "Exists")] } }
  else pod

/-- The code of `run_cmd_pods` before its loop over the nodes. -/
def commandPod (o : ClusterOptions) (version : List ℕ) (cmdList cmdInitList : List String) :
    Except PyErr PodTemplate :=
  if cmdList ≠ [] then
    cmdList.foldlM (addDaemonCommand o)
      (((templateFor o).updatePod "Always" o.installDir o.serviceaccount).tolerateAll version)
  else if cmdInitList ≠ [] then
    cmdInitList.foldlM (addInitCommand o version (cmdInitList.length = 1))
      ((templateFor o).updatePod "Never" o.installDir o.serviceaccount)
  else .ok (templateFor o)

/-! ## The loop over the nodes -/

/-- What is sent to the API server. -/
inductive ClusterObject
  | pod (pod : PodTemplate)
  | daemonSet (daemonSet : DaemonSet)

/-- The pod with the details of a node, and what is sent of it. -/
def objectFor (version : List ℕ) (cmdList cmdInitList : List String) (pod : PodTemplate)
    (nodeName : String) : PodTemplate × Option ClusterObject :=
  if cmdList ≠ [] then
    let pod := pod.updatePodWithNodeDetails nodeName cmdList
    (pod, some (.daemonSet (dsFrom pod version)))
  else if cmdInitList ≠ [] then
    let pod := pod.updatePodWithNodeDetails nodeName cmdInitList
    (pod, some (.pod pod))
  else (pod, none)

/-- A round of the loop, on the pod that the last round has left; `send` answers a call after those
before it. -/
def sendForNode (send : List ClusterObject → ClusterObject → Except PyErr Unit) (version : List ℕ)
    (cmdList cmdInitList : List String) (st : PodTemplate × List ClusterObject)
    (nodeName : String) : Except PyErr (PodTemplate × List ClusterObject) :=
  match objectFor version cmdList cmdInitList st.1 nodeName with
  | (pod, some object) => do
    exitOnApiException (send st.2 object)
    return (pod, st.2 ++ [object])
  | (pod, none) => return (pod, st.2)

/-- `run_cmd_pods`, with the objects that it has sent. -/
def sendCmdPods (send : List ClusterObject → ClusterObject → Except PyErr Unit)
    (o : ClusterOptions) (version : List ℕ) (cmdList cmdInitList nodes : List String) :
    Except PyErr (List ClusterObject) := do
  let pod ← commandPod o version cmdList cmdInitList
  let st ← nodes.foldlM (sendForNode send version cmdList cmdInitList) (pod, [])
  return st.2

/-- The run of `cluster_init` for the pods that end. -/
def sendInitPods (send : List ClusterObject → ClusterObject → Except PyErr Unit)
    (o : ClusterOptions) (version : List ℕ) (cmds nodes : List String) :
    Except PyErr (List ClusterObject) :=
  if initCommands cmds ≠ [] then sendCmdPods send o version [] (initCommands cmds) nodes else .ok []

/-- Its run for the DaemonSets. -/
def sendDaemonSets (send : List ClusterObject → ClusterObject → Except PyErr Unit)
    (o : ClusterOptions) (version : List ℕ) (cmds nodes : List String) :
    Except PyErr (List ClusterObject) :=
  if daemonCommands cmds ≠ [] then sendCmdPods send o version (daemonCommands cmds) [] nodes
  else .ok []

/-- What `cluster_init` sends for its commands. -/
def sendClusterPods (send : List ClusterObject → ClusterObject → Except PyErr Unit)
    (o : ClusterOptions) (version : List ℕ) (cmds nodes : List String) :
    Except PyErr (List ClusterObject) := do
  let pods ← sendInitPods send o version cmds nodes
  let daemonSets ← sendDaemonSets (fun objects => send (pods ++ objects)) o version cmds nodes
  return pods ++ daemonSets

/-! ## What the API server accepts -/

/-- The init containers of a pod: in a field of their own, or in the annotation. -/
def PodTemplate.HasInits (pod : PodTemplate) (inits : List ContainerTemplate) : Prop :=
  ∃ annotated, annotatedContainers pod.annotations =
      .ok (annotated.map ContainerTemplate.toJson) ∧
    inits = pod.spec.initContainers ++ annotated

/-- The mounts of the containers are of volumes of the pod. -/
def PodSpec.Mounts (spec : PodSpec) (containers : List ContainerTemplate) : Prop :=
  ∀ c ∈ containers, ∀ m ∈ c.volumeMounts, m.name ∈ spec.volumes.map Volume.name

/-- **A pod that is accepted**: it has a container, its containers and init containers have names of
their own, and mount volumes of the pod. -/
structure PodTemplate.Valid (pod : PodTemplate) : Prop where
  containers : pod.spec.containers ≠ []
  volumes : (pod.spec.volumes.map Volume.name).Nodup
  inits : ∃ inits, pod.HasInits inits ∧
    ((inits ++ pod.spec.containers).map ContainerTemplate.name).Nodup ∧
      pod.spec.Mounts (inits ++ pod.spec.containers)

/-- **A DaemonSet that is accepted**: its pods are, start again when they end, and are those that it
selects. -/
structure DaemonSet.Valid (daemonSet : DaemonSet) : Prop where
  template : (PodTemplate.mk "" [] (some daemonSet.labels) daemonSet.spec).Valid
  restarts : daemonSet.spec.restartPolicy = "Always"
  selects : ∀ selector, daemonSet.selector = some selector → selector ⊆ daemonSet.labels

def ClusterObject.Valid : ClusterObject → Prop
  | pod p => p.Valid
  | daemonSet d => d.Valid

/-- The node that the pods of an object are for. -/
def ClusterObject.nodeName : ClusterObject → Option String
  | pod p => p.spec.nodeName
  | daemonSet d => d.spec.nodeName

/-- The API and the name of an object. -/
def ClusterObject.workload (version : List ℕ) : ClusterObject → Workload
  | pod p => ⟨.core, p.name⟩
  | daemonSet d => ⟨dsApi version, d.name⟩

/-! ## Containers -/

/-- What every container has: it mounts the two volumes of the template at most, and reads back from
its own text. -/
structure ContainerTemplate.Sound (c : ContainerTemplate) : Prop where
  mounts : ∀ m ∈ c.volumeMounts, m.name ∈ ["host-proc", "cmk-install-dir"]
  unique : c.toJson.UniqueKeys

theorem uniqueKeys_volumeMount (m : VolumeMount) : m.toJson.UniqueKeys := by
  rw [VolumeMount.toJson]
  refine JsonValue.uniqueKeys_obj.mpr ?_
  split_ifs
  · refine ⟨by simp, List.forall_mem_cons.mpr ⟨rfl, List.forall_mem_cons.mpr ⟨rfl, ?_⟩⟩⟩
    exact List.forall_mem_singleton.mpr rfl
  · exact ⟨by simp, List.forall_mem_cons.mpr ⟨rfl, List.forall_mem_singleton.mpr rfl⟩⟩

theorem uniqueKeys_container {c : ContainerTemplate} (henv : c.env.UniqueKeys)
    (hcontext : c.securityContext.UniqueKeys) : c.toJson.UniqueKeys := by
  have htexts : ∀ texts : List String, (JsonValue.arr (texts.map .str)).UniqueKeys := fun texts =>
    JsonValue.uniqueKeys_arr.mpr (List.forall_mem_map.mpr fun _ _ => rfl)
  have hmounts : (JsonValue.arr (c.volumeMounts.map VolumeMount.toJson)).UniqueKeys :=
    JsonValue.uniqueKeys_arr.mpr (List.forall_mem_map.mpr fun m _ => uniqueKeys_volumeMount m)
  refine JsonValue.uniqueKeys_obj.mpr ⟨by simp, ?_⟩
  simp only [List.forall_mem_cons, List.not_mem_nil, false_imp_iff, implies_true, and_true]
  exact ⟨htexts _, htexts _, henv, rfl, rfl, hcontext, hmounts, rfl⟩

theorem member?_name (c : ContainerTemplate) : c.toJson.member? "name" = some (.str c.name) := rfl

/-- What is written down for the commands of `cluster_init`. -/
theorem exists_mounts {cmd : String} (hcmd : cmd ∈ validCmdList) :
    ∃ mounts context, containerVolumeMounts.lookup cmd = some (mounts, context) ∧
      (∀ m ∈ mounts, m.name ∈ ["host-proc", "cmk-install-dir"]) ∧ context.UniqueKeys := by
  simp only [validCmdList, List.mem_cons, List.not_mem_nil, or_false] at hcmd
  rcases hcmd with rfl | rfl | rfl | rfl | rfl <;>
    exact ⟨_, _, rfl, by decide, by decide⟩

/-- **Each command has its container.** -/
theorem containerOf_sound {cmd : String} (hcmd : cmd ∈ validCmdList)
    (cmkImg cmkImgPol args : String) :
    ∃ c, containerOf cmd cmkImg cmkImgPol args = .ok c ∧ c.name = cmd ∧ c.Sound := by
  obtain ⟨mounts, context, hlookup, hmounts, hcontext⟩ := exists_mounts hcmd
  have henv : containerEnv.UniqueKeys := by decide
  refine ⟨_, by rw [containerOf, getContainerTemplate, hlookup]; rfl, rfl, hmounts, ?_⟩
  exact uniqueKeys_container henv hcontext

/-! ## The annotation -/

theorem lookup_annotate (annotations : List (String × String)) (key text : String) :
    (annotate annotations key text).lookup key = some text := by
  rw [annotate]
  induction annotations with
  | nil => simp
  | cons a annotations ih =>
    by_cases ha : a.1 = key
    · rw [if_pos (by simp [ha])]
      simp [ha]
    · have hbeq : (key == a.1) = false := by simpa using Ne.symm ha
      rw [List.any_cons, decide_eq_false ha, Bool.false_or]
      split_ifs at ih ⊢ with hany
      · rw [List.map_cons, if_neg ha, List.lookup_cons, hbeq]
        exact ih
      · rw [List.cons_append, List.lookup_cons, hbeq]
        exact ih

/-- **What is put into the annotation is read from it.** -/
theorem annotatedContainers_set (annotations : List (String × String))
    {containers : List ContainerTemplate} (h : ∀ c ∈ containers, c.Sound) :
    annotatedContainers (annotate annotations initContainersKey
      (JsonValue.dumps (.arr (containers.map ContainerTemplate.toJson)))) =
        .ok (containers.map ContainerTemplate.toJson) := by
  have hunique : (JsonValue.arr (containers.map ContainerTemplate.toJson)).UniqueKeys :=
    JsonValue.uniqueKeys_arr.mpr (List.forall_mem_map.mpr fun c hc => (h c hc).unique)
  rw [annotatedContainers, lookup_annotate]
  dsimp only
  rw [JsonValue.loads_dumps hunique]

/-! ## Adding the commands -/

/-- A pod that commands are added to, with the names of its init containers and of its containers.
-/
structure Building (version : List ℕ) (restartPol : String) (pod : PodTemplate)
    (inits names : List String) : Prop where
  restartPolicy : pod.spec.restartPolicy = restartPol
  volumes : pod.spec.volumes.map Volume.name = ["host-proc", "cmk-install-dir"]
  containers : pod.spec.containers.map ContainerTemplate.name = names
  sound : ∀ c ∈ pod.spec.containers, c.Sound
  inits : ∃ annotated, annotatedContainers pod.annotations =
      .ok (annotated.map ContainerTemplate.toJson) ∧
    (pod.spec.initContainers ++ annotated).map ContainerTemplate.name = inits ∧
      ∀ c ∈ pod.spec.initContainers ++ annotated, c.Sound
  kept : if [1, 7] ≤ version then pod.annotations = [] else pod.spec.initContainers = []

variable {o : ClusterOptions} {version : List ℕ} {restartPol cmd : String} {pod : PodTemplate}
  {inits names cmds nodes : List String}

theorem Building.container (h : Building version restartPol pod inits names)
    (hcmd : cmd ∈ validCmdList) (cmkImg cmkImgPol args : String) :
    ∃ pod', pod.updatePodWithContainer cmd cmkImg cmkImgPol args = .ok pod' ∧
      Building version restartPol pod' inits (names ++ [cmd]) := by
  obtain ⟨c, hc, rfl, hsound⟩ := containerOf_sound hcmd cmkImg cmkImgPol args
  refine ⟨{ pod with spec := { pod.spec with containers := pod.spec.containers ++ [c] } },
    bind_eq_ok.mpr ⟨c, hc, rfl⟩, h.restartPolicy, h.volumes, ?_, ?_, h.inits, h.kept⟩
  · rw [List.map_append, h.containers, List.map_singleton]
  · exact List.forall_mem_append.mpr ⟨h.sound, List.forall_mem_singleton.mpr hsound⟩

/-- **An init container** replaces the one before it in the field, and comes behind it in the
annotation. -/
theorem Building.initContainer (h : Building version restartPol pod inits names)
    (hcmd : cmd ∈ validCmdList) (cmkImg cmkImgPol args : String) :
    ∃ pod', pod.updatePodWithInitContainer version cmd cmkImg cmkImgPol args = .ok pod' ∧
      Building version restartPol pod' (if [1, 7] ≤ version then [cmd] else inits ++ [cmd])
        names := by
  obtain ⟨c, hc, rfl, hsound⟩ := containerOf_sound hcmd cmkImg cmkImgPol args
  obtain ⟨annotated, hannotated, hnames, hall⟩ := h.inits
  have hkept := h.kept
  by_cases hnew : [1, 7] ≤ version
  · rw [if_pos hnew] at hkept ⊢
    refine ⟨{ pod with spec := { pod.spec with initContainers := [c] } }, ?_, h.restartPolicy,
      h.volumes, h.containers, h.sound, ⟨[], ?_, rfl, List.forall_mem_singleton.mpr hsound⟩,
      by rwa [if_pos hnew]⟩
    · simp only [PodTemplate.updatePodWithInitContainer, hc, bind, Except.bind, if_pos hnew]
      rfl
    · simp only [hkept]
      rfl
  · rw [if_neg hnew] at hkept ⊢
    rw [hkept, List.nil_append] at hnames hall
    have hsounds : ∀ c' ∈ annotated ++ [c], c'.Sound :=
      List.forall_mem_append.mpr ⟨hall, List.forall_mem_singleton.mpr hsound⟩
    have hset := annotatedContainers_set pod.annotations hsounds
    rw [List.map_append, List.map_singleton] at hset
    let text := JsonValue.dumps (.arr (annotated.map ContainerTemplate.toJson ++ [c.toJson]))
    refine ⟨{ pod with annotations := annotate pod.annotations initContainersKey text }, ?_,
      h.restartPolicy, h.volumes, h.containers, h.sound, ⟨annotated ++ [c], ?_, ?_, ?_⟩,
      by rwa [if_neg hnew]⟩
    · simp only [PodTemplate.updatePodWithInitContainer, hc, bind, Except.bind, if_neg hnew,
        hannotated]
      rfl
    · rw [List.map_append, List.map_singleton]
      exact hset
    · simp only [hkept, List.nil_append, List.map_append, hnames, List.map_singleton]
    · simp only [hkept, List.nil_append]
      exact hsounds

/-- The init containers of a list of commands. -/
def initsOf (version : List ℕ) (alone : Bool) (cmds : List String) : List String :=
  if alone then []
  else if [1, 7] ≤ version then if "init" ∈ cmds then ["init"] else []
  else cmds.filter (· = "init")

/-- The other containers. -/
def namesOf (alone : Bool) (cmds : List String) : List String :=
  if alone then cmds else cmds.filter (· ≠ "init")

theorem Building.daemonCommands (h : Building version restartPol pod [] [])
    (hcmds : ∀ cmd ∈ cmds, cmd ∈ validCmdList) :
    ∃ pod', cmds.foldlM (addDaemonCommand o) pod = .ok pod' ∧
      Building version restartPol pod' [] cmds := by
  induction cmds using List.reverseRecOn with
  | nil => exact ⟨pod, rfl, h⟩
  | append_singleton cmds cmd ih =>
    obtain ⟨hcmds, hcmd⟩ := List.forall_mem_append.mp hcmds
    obtain ⟨pod₁, hpod₁, hbuilding⟩ := ih hcmds
    obtain ⟨pod₂, hpod₂, hbuilding₂⟩ := hbuilding.container (hcmd cmd (by simp)) o.cmkImg
      o.cmkImgPol (daemonArgs o cmd)
    refine ⟨pod₂, ?_, hbuilding₂⟩
    rw [List.foldlM_append, hpod₁]
    exact bind_eq_ok.mpr ⟨pod₁, rfl, bind_eq_ok.mpr ⟨pod₂, hpod₂, rfl⟩⟩

/-- **The containers of the commands of a pod that ends.** -/
theorem Building.initCommands (h : Building version restartPol pod [] []) (alone : Bool)
    (hcmds : ∀ cmd ∈ cmds, cmd ∈ validCmdList) :
    ∃ pod', cmds.foldlM (addInitCommand o version alone) pod = .ok pod' ∧
      Building version restartPol pod' (initsOf version alone cmds) (namesOf alone cmds) := by
  induction cmds using List.reverseRecOn with
  | nil => exact ⟨pod, rfl, by simpa [initsOf, namesOf] using h⟩
  | append_singleton cmds cmd ih =>
    obtain ⟨hcmds, hcmd⟩ := List.forall_mem_append.mp hcmds
    obtain ⟨pod₁, hpod₁, hbuilding⟩ := ih hcmds
    have hfold : ∀ pod₂, addInitCommand o version alone pod₁ cmd = .ok pod₂ →
        (cmds ++ [cmd]).foldlM (addInitCommand o version alone) pod = .ok pod₂ := by
      intro pod₂ hpod₂
      rw [List.foldlM_append, hpod₁]
      exact bind_eq_ok.mpr ⟨pod₁, rfl, bind_eq_ok.mpr ⟨pod₂, hpod₂, rfl⟩⟩
    by_cases hinit : cmd = "init" ∧ ¬ alone
    · obtain ⟨pod₂, hpod₂, hbuilding₂⟩ := hbuilding.initContainer (hcmd cmd (by simp)) o.cmkImg
        o.cmkImgPol (initArgs o cmd)
      refine ⟨pod₂, hfold pod₂ (by rwa [addInitCommand, if_pos hinit]), ?_⟩
      obtain ⟨rfl, halone⟩ := hinit
      have hinits : initsOf version alone (cmds ++ ["init"]) =
          if [1, 7] ≤ version then ["init"] else initsOf version alone cmds ++ ["init"] := by
        simp only [initsOf, if_neg halone]
        split_ifs <;> simp_all
      have hnames : namesOf alone (cmds ++ ["init"]) = namesOf alone cmds := by
        simp [namesOf, halone]
      rwa [hinits, hnames]
    · obtain ⟨pod₂, hpod₂, hbuilding₂⟩ := hbuilding.container (hcmd cmd (by simp)) o.cmkImg
        o.cmkImgPol (initArgs o cmd)
      refine ⟨pod₂, hfold pod₂ (by rwa [addInitCommand, if_neg hinit]), ?_⟩
      have hinits : initsOf version alone (cmds ++ [cmd]) = initsOf version alone cmds := by
        cases alone with
        | true => rfl
        | false =>
          have hne : cmd ≠ "init" := fun heq => hinit ⟨heq, by simp⟩
          simp [initsOf, hne, Ne.symm hne]
      have hnames : namesOf alone (cmds ++ [cmd]) = namesOf alone cmds ++ [cmd] := by
        cases alone with
        | true => rfl
        | false =>
          have hne : cmd ≠ "init" := fun heq => hinit ⟨heq, by simp⟩
          simp [namesOf, hne]
      rwa [hinits, hnames]

theorem building_templateFor (o : ClusterOptions) (version : List ℕ) (restartPol : String) :
    Building version restartPol ((templateFor o).updatePod restartPol o.installDir o.serviceaccount)
      [] [] := by
  have hstart : ∀ secrets, Building version restartPol
      (({ getPodTemplate "cmk-serviceaccount" with spec :=
        { (getPodTemplate "cmk-serviceaccount").spec with
          imagePullSecrets := secrets } } : PodTemplate).updatePod restartPol o.installDir
            o.serviceaccount) [] [] := fun secrets =>
    ⟨rfl, rfl, rfl, by simp [PodTemplate.updatePod, getPodTemplate], ⟨[], rfl, rfl, by
      simp [PodTemplate.updatePod, getPodTemplate]⟩, by split_ifs <;> rfl⟩
  rw [templateFor]
  split
  · exact hstart []
  · split_ifs
    · exact hstart []
    · exact hstart [_]

theorem Building.tolerateAll (h : Building version restartPol pod inits names) :
    Building version restartPol (pod.tolerateAll version) inits names := by
  rw [PodTemplate.tolerateAll]
  split_ifs
  · exact ⟨h.restartPolicy, h.volumes, h.containers, h.sound, h.inits, h.kept⟩
  · exact h

theorem Building.withNode (h : Building version restartPol pod inits names) (nodeName : String)
    (cmdList : List String) :
    Building version restartPol (pod.updatePodWithNodeDetails nodeName cmdList) inits names :=
  ⟨h.restartPolicy, h.volumes, h.containers, h.sound, h.inits, h.kept⟩

/-- The pod that is put together for the commands of a DaemonSet. -/
theorem commandPod_daemons (o : ClusterOptions) (version : List ℕ) (hne : cmds ≠ [])
    (hcmds : ∀ cmd ∈ cmds, cmd ∈ validCmdList) :
    ∃ pod, commandPod o version cmds [] = .ok pod ∧ Building version "Always" pod [] cmds := by
  obtain ⟨pod, hpod, hbuilding⟩ :=
    (building_templateFor o version "Always").tolerateAll.daemonCommands (o := o) hcmds
  exact ⟨pod, by rwa [commandPod, if_pos hne], hbuilding⟩

/-- The pod that is put together for the commands of a pod that ends. -/
theorem commandPod_inits (o : ClusterOptions) (version : List ℕ) (hne : cmds ≠ [])
    (hcmds : ∀ cmd ∈ cmds, cmd ∈ validCmdList) :
    ∃ pod, commandPod o version [] cmds = .ok pod ∧
      Building version "Never" pod (initsOf version (cmds.length = 1) cmds)
        (namesOf (cmds.length = 1) cmds) := by
  obtain ⟨pod, hpod, hbuilding⟩ :=
    (building_templateFor o version "Never").initCommands (o := o) (cmds.length = 1) hcmds
  exact ⟨pod, by rwa [commandPod, if_neg (not_not.mpr rfl), if_pos hne], hbuilding⟩

/-! ## Acceptance -/

theorem map_name_of_toJson {cs ds : List ContainerTemplate}
    (h : cs.map ContainerTemplate.toJson = ds.map ContainerTemplate.toJson) :
    cs.map ContainerTemplate.name = ds.map ContainerTemplate.name := by
  have hnames : ∀ cs : List ContainerTemplate,
      (cs.map ContainerTemplate.toJson).map (JsonValue.member? "name") =
        (cs.map ContainerTemplate.name).map fun name => some (.str name) := fun cs => by
    rw [List.map_map, List.map_map]
    exact List.map_congr_left fun c _ => member?_name c
  have hinj : Function.Injective fun name => some (JsonValue.str name) := fun x y hxy =>
    JsonValue.str.inj (Option.some.inj hxy)
  refine List.map_injective_iff.mpr hinj ?_
  rw [← hnames, ← hnames, h]

/-- **A pod that was put together is accepted** as far as its names tell. -/
theorem Building.valid_iff (h : Building version restartPol pod inits names) :
    pod.Valid ↔ names ≠ [] ∧ (inits ++ names).Nodup := by
  obtain ⟨annotated, hannotated, hinits, hsound⟩ := h.inits
  have hne : pod.spec.containers ≠ [] ↔ names ≠ [] := by
    rw [← h.containers, Ne, Ne, List.map_eq_nil_iff]
  refine ⟨fun hvalid => ⟨hne.mp hvalid.containers, ?_⟩, fun ⟨hnames, hnodup⟩ =>
    ⟨hne.mpr hnames, by rw [h.volumes]; decide, _, ⟨annotated, hannotated, rfl⟩, ?_, ?_⟩⟩
  · obtain ⟨_, ⟨annotated', hannotated', rfl⟩, hnodup, -⟩ := hvalid.inits
    have hsame := map_name_of_toJson (Except.ok.inj (hannotated.symm.trans hannotated'))
    rwa [List.map_append, List.map_append, ← hsame, ← List.map_append, hinits, h.containers]
      at hnodup
  · rwa [List.map_append, hinits, h.containers]
  · rw [PodSpec.Mounts, h.volumes]
    exact List.forall_mem_append.mpr
      ⟨fun c hc => (hsound c hc).mounts, fun c hc => (h.sound c hc).mounts⟩

/-- A DaemonSet has no init containers. -/
theorem Building.daemonSet_valid_iff (h : Building version "Always" pod [] names) :
    (dsFrom pod version).Valid ↔ names ≠ [] ∧ names.Nodup := by
  obtain ⟨annotated, -, hinits, -⟩ := h.inits
  obtain ⟨hfield, -⟩ := List.append_eq_nil_iff.mp (List.map_eq_nil_iff.mp hinits)
  have htemplate : ∀ labels, Building version "Always" ⟨"", [], some labels, pod.spec⟩ [] names :=
    fun labels => ⟨h.restartPolicy, h.volumes, h.containers, h.sound,
      ⟨[], rfl, by rw [hfield]; rfl, by rw [hfield]; simp⟩, by split_ifs; exacts [rfl, hfield]⟩
  have hspec : (dsFrom pod version).spec = pod.spec := by
    rw [dsFrom]
    split_ifs <;> rfl
  have hselects : ∀ selector, (dsFrom pod version).selector = some selector →
      selector ⊆ (dsFrom pod version).labels := by
    rw [dsFrom]
    split_ifs
    · rintro selector ⟨⟩
      exact List.Subset.refl _
    · rintro selector ⟨⟩
  have hiff := (htemplate (dsFrom pod version).labels).valid_iff
  rw [List.nil_append] at hiff
  rw [← hiff, ← hspec]
  exact ⟨DaemonSet.Valid.template, fun hvalid => ⟨hvalid, hspec ▸ h.restartPolicy, hselects⟩⟩

/-! ## What is sent -/

variable {send : List ClusterObject → ClusterObject → Except PyErr Unit}
  {cmdList cmdInitList : List String} {objects : List ClusterObject}

/-- What is sent for the nodes is each time the pod of the commands. -/
def objectsFor (version : List ℕ) (cmdList cmdInitList nodes : List String) (pod : PodTemplate) :
    List ClusterObject :=
  nodes.filterMap fun nodeName => (objectFor version cmdList cmdInitList pod nodeName).2

/-- The details of a node replace those of the node before it. -/
theorem objectFor_left (version : List ℕ) (cmdList cmdInitList : List String) (pod : PodTemplate)
    (nodeName : String) :
    objectFor version cmdList cmdInitList (objectFor version cmdList cmdInitList pod nodeName).1 =
      objectFor version cmdList cmdInitList pod := by
  funext later
  by_cases hlist : cmdList = []
  · by_cases hinit : cmdInitList = []
    · simp only [objectFor, hlist, hinit, ne_eq, not_true_eq_false, if_false]
    · simp only [objectFor, hlist, hinit, ne_eq, not_true_eq_false, not_false_eq_true, if_false,
        if_true]
      rfl
  · simp only [objectFor, hlist, ne_eq, not_false_eq_true, if_true]
    rfl

/-- **A run that ends has sent one object for each node**, in their order. -/
theorem foldlM_sendForNode {pod : PodTemplate} {st : PodTemplate × List ClusterObject}
    (h : nodes.foldlM (sendForNode send version cmdList cmdInitList) (pod, objects) = .ok st) :
    st.2 = objects ++ objectsFor version cmdList cmdInitList nodes pod := by
  induction nodes generalizing pod objects with
  | nil => rw [← pure_eq_ok.mp h, objectsFor, List.filterMap_nil, List.append_nil]
  | cons node later ih =>
    rw [List.foldlM_cons] at h
    obtain ⟨⟨pod₁, objects₁⟩, hnode, hlater⟩ := bind_eq_ok.mp h
    have hleft := objectFor_left version cmdList cmdInitList pod node
    rw [objectsFor, List.filterMap_cons]
    rw [sendForNode] at hnode
    split at hnode
    next pod₂ object hobject =>
      obtain ⟨-, -, hpure⟩ := bind_eq_ok.mp hnode
      cases pure_eq_ok.mp hpure
      dsimp only at hobject
      rw [hobject] at hleft ⊢
      rw [ih hlater, List.append_assoc, objectsFor, hleft]
      rfl
    next pod₂ hobject =>
      cases pure_eq_ok.mp hnode
      dsimp only at hobject
      rw [hobject] at hleft ⊢
      rw [ih hlater, objectsFor, hleft]

theorem sendCmdPods_eq_ok (h : sendCmdPods send o version cmdList cmdInitList nodes = .ok objects) :
    ∃ pod, commandPod o version cmdList cmdInitList = .ok pod ∧
      objects = objectsFor version cmdList cmdInitList nodes pod := by
  obtain ⟨pod, hpod, hrest⟩ := bind_eq_ok.mp h
  obtain ⟨st, hst, hpure⟩ := bind_eq_ok.mp hrest
  exact ⟨pod, hpod, by rw [← pure_eq_ok.mp hpure, foldlM_sendForNode hst, List.nil_append]⟩

/-- Where the API server takes everything, everything is sent. -/
theorem sendCmdPods_taken (hsend : ∀ objects object, send objects object = .ok ())
    {pod : PodTemplate} (hpod : commandPod o version cmdList cmdInitList = .ok pod) :
    ∃ objects, sendCmdPods send o version cmdList cmdInitList nodes = .ok objects := by
  have hloop : ∀ st, ∃ st',
      nodes.foldlM (sendForNode send version cmdList cmdInitList) st = .ok st' := by
    induction nodes with
    | nil => exact fun st => ⟨st, rfl⟩
    | cons node later ih =>
      intro st
      have hnode : ∃ st₁, sendForNode send version cmdList cmdInitList st node = .ok st₁ := by
        rw [sendForNode]
        split
        · rw [hsend]
          exact ⟨_, rfl⟩
        · exact ⟨_, rfl⟩
      obtain ⟨st₁, hst₁⟩ := hnode
      obtain ⟨st', hst'⟩ := ih st₁
      exact ⟨st', by rw [List.foldlM_cons]; exact bind_eq_ok.mpr ⟨st₁, hst₁, hst'⟩⟩
  obtain ⟨st, hst⟩ := hloop (pod, [])
  exact ⟨st.2, bind_eq_ok.mpr ⟨pod, hpod, bind_eq_ok.mpr ⟨st, hst, rfl⟩⟩⟩

/-- **What is sent goes by the names of `runCmdPods`.** -/
theorem map_workload_objectsFor (pod : PodTemplate) :
    (objectsFor version cmdList cmdInitList nodes pod).map (ClusterObject.workload version) =
      nodes.filterMap (workload version cmdList cmdInitList) := by
  have hname : ∀ pod : PodTemplate,
      (dsFrom pod version).name = String.ofList (replacePod pod.name.toList) := fun pod => by
    rw [dsFrom]
    split_ifs <;> rfl
  rw [objectsFor, List.map_filterMap]
  refine List.filterMap_congr fun node _ => ?_
  rw [objectFor, Cmk.workload]
  split_ifs
  · exact congrArg (fun name => some (Workload.mk (dsApi version) name)) (hname _)
  · rfl
  · rfl

/-- The objects of the DaemonSets of the commands. -/
theorem forall_daemonSets {P : ClusterObject → Prop} {pod : PodTemplate} (hne : cmds ≠ []) :
    (∀ object ∈ objectsFor version cmds [] nodes pod, P object) ↔
      ∀ node ∈ nodes, P (.daemonSet (dsFrom (pod.updatePodWithNodeDetails node cmds) version)) := by
  have hobjects : objectsFor version cmds [] nodes pod = nodes.map fun node =>
      .daemonSet (dsFrom (pod.updatePodWithNodeDetails node cmds) version) := by
    rw [← List.filterMap_eq_map]
    exact List.filterMap_congr fun node _ => by rw [objectFor, if_pos hne]; rfl
  rw [hobjects, List.forall_mem_map]

/-- The objects of the pods that end. -/
theorem forall_pods {P : ClusterObject → Prop} {pod : PodTemplate} (hne : cmds ≠ []) :
    (∀ object ∈ objectsFor version [] cmds nodes pod, P object) ↔
      ∀ node ∈ nodes, P (.pod (pod.updatePodWithNodeDetails node cmds)) := by
  have hobjects : objectsFor version [] cmds nodes pod = nodes.map fun node =>
      .pod (pod.updatePodWithNodeDetails node cmds) := by
    rw [← List.filterMap_eq_map]
    refine List.filterMap_congr fun node _ => ?_
    rw [objectFor, if_neg (not_not.mpr rfl), if_pos hne]
    rfl
  rw [hobjects, List.forall_mem_map]

theorem forall_const {p : Prop} (hnodes : nodes ≠ []) : (∀ node ∈ nodes, p) ↔ p := by
  obtain ⟨node, hnode⟩ := List.exists_mem_of_ne_nil nodes hnodes
  exact ⟨fun h => h node hnode, fun h _ _ => h⟩

theorem daemonSets_valid_iff (hcmds : ∀ cmd ∈ cmds, cmd ∈ validCmdList) (hne : cmds ≠ [])
    (hnodes : nodes ≠ []) (h : sendCmdPods send o version cmds [] nodes = .ok objects) :
    (∀ object ∈ objects, object.Valid) ↔ cmds.Nodup := by
  obtain ⟨pod, hpod, rfl⟩ := sendCmdPods_eq_ok h
  obtain ⟨pod', hpod', hbuilding⟩ := commandPod_daemons o version hne hcmds
  obtain rfl := Except.ok.inj (hpod.symm.trans hpod')
  rw [forall_daemonSets hne, ← forall_const (p := cmds.Nodup) hnodes]
  refine forall₂_congr fun node _ => ?_
  exact (hbuilding.withNode node cmds).daemonSet_valid_iff.trans (and_iff_right hne)

theorem initPods_valid_iff (hcmds : ∀ cmd ∈ cmds, cmd ∈ validCmdList) (hne : cmds ≠ [])
    (hnodes : nodes ≠ []) (h : sendCmdPods send o version [] cmds nodes = .ok objects) :
    (∀ object ∈ objects, object.Valid) ↔ namesOf (cmds.length = 1) cmds ≠ [] ∧
      (initsOf version (cmds.length = 1) cmds ++ namesOf (cmds.length = 1) cmds).Nodup := by
  obtain ⟨pod, hpod, rfl⟩ := sendCmdPods_eq_ok h
  obtain ⟨pod', hpod', hbuilding⟩ := commandPod_inits o version hne hcmds
  obtain rfl := Except.ok.inj (hpod.symm.trans hpod')
  rw [forall_pods hne]
  exact (forall₂_congr fun node _ => (hbuilding.withNode node cmds).valid_iff).trans
    (forall_const hnodes)

/-! ## Acceptance of what is sent -/

theorem nodup_filter_iff (p : String → Bool) :
    cmds.Nodup ↔ (cmds.filter p).Nodup ∧ (cmds.filter fun cmd => ! p cmd).Nodup := by
  rw [← (List.filter_append_perm p cmds).nodup_iff, List.nodup_append]
  refine and_congr_right fun _ => and_iff_left ?_
  rintro a ha b hb rfl
  rw [List.mem_filter] at ha hb
  simp [ha.2] at hb

/-- `init` is apart from the other commands. -/
theorem inits_nodup_iff {others : List String} (hothers : "init" ∉ others) {inits : List String}
    (hinits : ∀ cmd ∈ inits, cmd = "init") :
    (inits ++ others).Nodup ↔ inits.length ≤ 1 ∧ others.Nodup := by
  have heq : inits = List.replicate inits.length "init" := List.eq_replicate_iff.mpr ⟨rfl, hinits⟩
  have hnodup : inits.Nodup ↔ inits.length ≤ 1 := by
    rw [heq, List.nodup_replicate, List.length_replicate]
  rw [List.nodup_append, hnodup]
  refine and_congr_right fun _ => and_iff_left ?_
  rintro a ha b hb rfl
  exact hothers (hinits a ha ▸ hb)

/-- **When the containers of a pod that ends have names of their own.** -/
theorem names_valid_iff (hne : cmds ≠ []) :
    (namesOf (cmds.length = 1) cmds ≠ [] ∧
      (initsOf version (cmds.length = 1) cmds ++ namesOf (cmds.length = 1) cmds).Nodup) ↔
      (cmds.filter (· ≠ "init")).Nodup ∧
        (cmds.count "init" ≤ 1 ∨ [1, 7] ≤ version ∧ ∃ cmd ∈ cmds, cmd ≠ "init") := by
  by_cases hone : cmds.length = 1
  · obtain ⟨cmd, rfl⟩ := List.length_eq_one_iff.mp hone
    have hcount : List.count "init" [cmd] ≤ 1 := List.count_le_length
    have hfilter : ([cmd].filter (· ≠ "init")).Nodup := (List.nodup_singleton cmd).filter _
    refine iff_of_true ⟨hne, ?_⟩ ⟨hfilter, .inl hcount⟩
    exact List.nodup_singleton cmd
  · have hothers : "init" ∉ cmds.filter (· ≠ "init") := by simp
    have hex : cmds.filter (· ≠ "init") ≠ [] ↔ ∃ cmd ∈ cmds, cmd ≠ "init" := by
      simp [List.filter_eq_nil_iff]
    -- more than one command, and `init` once at most
    have hsome : cmds.count "init" ≤ 1 → ∃ cmd ∈ cmds, cmd ≠ "init" := by
      intro hcount
      by_contra hall
      push Not at hall
      have hlength : cmds.count "init" = cmds.length :=
        List.count_eq_length.mpr fun cmd hcmd => (hall cmd hcmd).symm
      have hpos := List.length_pos_iff.mpr hne
      omega
    have hinits : ∀ cmd ∈ initsOf version false cmds, cmd = "init" := by
      intro cmd hcmd
      rw [initsOf, if_neg (by simp)] at hcmd
      split_ifs at hcmd <;> simp_all
    have hlength : (initsOf version false cmds).length ≤ 1 ↔
        [1, 7] ≤ version ∨ cmds.count "init" ≤ 1 := by
      rw [initsOf, if_neg (by simp)]
      split_ifs with hnew
      · simp [hnew]
      · simp [hnew]
      · rw [List.count_eq_length_filter, or_iff_right hnew]
        rfl
    have hnames : namesOf false cmds = cmds.filter (· ≠ "init") := rfl
    rw [decide_eq_false hone, hnames, inits_nodup_iff hothers hinits, hlength, hex]
    tauto

/-- What the commands of the pod and those of the DaemonSet say together. -/
theorem commands_iff :
    ((initCommands cmds ≠ [] → ((initCommands cmds).filter (· ≠ "init")).Nodup ∧
        ((initCommands cmds).count "init" ≤ 1 ∨
          [1, 7] ≤ version ∧ ∃ cmd ∈ initCommands cmds, cmd ≠ "init")) ∧
      (daemonCommands cmds ≠ [] → (daemonCommands cmds).Nodup)) ↔
      (cmds.filter (· ≠ "init")).Nodup ∧
        (cmds.count "init" ≤ 1 ∨
          [1, 7] ≤ version ∧ ∃ cmd ∈ cmds, cmd = "discover" ∨ cmd = "install") := by
  have hcount : (initCommands cmds).count "init" = cmds.count "init" :=
    List.count_filter (by decide)
  have hex : (∃ cmd ∈ initCommands cmds, cmd ≠ "init") ↔
      ∃ cmd ∈ cmds, cmd = "discover" ∨ cmd = "install" := by
    refine exists_congr fun cmd => ?_
    simp only [initCommands, cmdInitList, List.mem_filter, List.mem_cons, List.not_mem_nil,
      or_false, decide_eq_true_eq]
    constructor
    · rintro ⟨⟨hcmd, rfl | hother⟩, hne⟩
      · exact absurd rfl hne
      · exact ⟨hcmd, hother⟩
    · rintro ⟨hcmd, hother⟩
      refine ⟨⟨hcmd, .inr hother⟩, ?_⟩
      rcases hother with rfl | rfl <;> decide
  have hfilter : (cmds.filter (· ≠ "init")).Nodup ↔
      ((initCommands cmds).filter (· ≠ "init")).Nodup ∧ (daemonCommands cmds).Nodup := by
    rw [nodup_filter_iff (· ∈ cmdInitList), List.filter_comm]
    have hdaemon : ((cmds.filter (· ≠ "init")).filter fun cmd => ! decide (cmd ∈ cmdInitList)) =
        daemonCommands cmds := by
      rw [List.filter_filter, daemonCommands]
      refine List.filter_congr fun cmd _ => ?_
      by_cases hcmd : cmd = "init" <;> simp [hcmd, cmdInitList]
    rw [hdaemon]
    rfl
  have hnil : initCommands cmds = [] → ((initCommands cmds).filter (· ≠ "init")).Nodup ∧
      (initCommands cmds).count "init" ≤ 1 := by
    intro hnil
    simp [hnil]
  have hdaemon : daemonCommands cmds = [] → (daemonCommands cmds).Nodup := by
    intro hnil
    simp [hnil]
  rw [hfilter, ← hcount, ← hex]
  tauto

/-- The pods that end are accepted together. -/
theorem sendInitPods_valid_iff (hcmds : ∀ cmd ∈ cmds, cmd ∈ validCmdList) (hnodes : nodes ≠ [])
    (h : sendInitPods send o version cmds nodes = .ok objects) :
    (∀ object ∈ objects, object.Valid) ↔ (initCommands cmds ≠ [] →
      ((initCommands cmds).filter (· ≠ "init")).Nodup ∧
        ((initCommands cmds).count "init" ≤ 1 ∨
          [1, 7] ≤ version ∧ ∃ cmd ∈ initCommands cmds, cmd ≠ "init")) := by
  have hinits : ∀ cmd ∈ initCommands cmds, cmd ∈ validCmdList := fun cmd hcmd =>
    hcmds cmd (List.mem_of_mem_filter hcmd)
  rw [sendInitPods] at h
  split_ifs at h with hne
  · rw [initPods_valid_iff hinits hne hnodes h, names_valid_iff hne, forall_prop_of_true hne]
  · rw [← Except.ok.inj h]
    exact iff_of_true (List.forall_mem_nil _) fun hsome => absurd hsome hne

/-- So are the DaemonSets. -/
theorem sendDaemonSets_valid_iff (hcmds : ∀ cmd ∈ cmds, cmd ∈ validCmdList) (hnodes : nodes ≠ [])
    (h : sendDaemonSets send o version cmds nodes = .ok objects) :
    (∀ object ∈ objects, object.Valid) ↔
      (daemonCommands cmds ≠ [] → (daemonCommands cmds).Nodup) := by
  have hdaemons : ∀ cmd ∈ daemonCommands cmds, cmd ∈ validCmdList := fun cmd hcmd =>
    hcmds cmd (List.mem_of_mem_filter hcmd)
  rw [sendDaemonSets] at h
  split_ifs at h with hne
  · rw [daemonSets_valid_iff hdaemons hne hnodes h, forall_prop_of_true hne]
  · rw [← Except.ok.inj h]
    exact iff_of_true (List.forall_mem_nil _) fun hsome => absurd hsome hne

/-- Where the API server takes everything, the run ends. -/
theorem sendClusterPods_taken (hcmds : ∀ cmd ∈ cmds, cmd ∈ validCmdList) (o : ClusterOptions)
    (version : List ℕ) (nodes : List String) :
    ∃ objects, sendClusterPods (fun _ _ => .ok ()) o version cmds nodes = .ok objects := by
  have hpods : ∃ pods, sendInitPods (fun _ _ => .ok ()) o version cmds nodes = .ok pods := by
    rw [sendInitPods]
    split_ifs with hne
    · obtain ⟨pod, hpod, -⟩ := commandPod_inits o version hne
        fun cmd hcmd => hcmds cmd (List.mem_of_mem_filter hcmd)
      exact sendCmdPods_taken (fun _ _ => rfl) hpod
    · exact ⟨_, rfl⟩
  have hdaemonSets : ∃ daemonSets,
      sendDaemonSets (fun _ _ => .ok ()) o version cmds nodes = .ok daemonSets := by
    rw [sendDaemonSets]
    split_ifs with hne
    · obtain ⟨pod, hpod, -⟩ := commandPod_daemons o version hne
        fun cmd hcmd => hcmds cmd (List.mem_of_mem_filter hcmd)
      exact sendCmdPods_taken (fun _ _ => rfl) hpod
    · exact ⟨_, rfl⟩
  obtain ⟨pods, hpods⟩ := hpods
  obtain ⟨daemonSets, hdaemonSets⟩ := hdaemonSets
  exact ⟨_, bind_eq_ok.mpr ⟨pods, hpods, bind_eq_ok.mpr ⟨daemonSets, hdaemonSets, rfl⟩⟩⟩

/-- The names of what is sent. -/
theorem map_workload_sent (h : sendCmdPods send o version cmdList cmdInitList nodes = .ok objects) :
    objects.map (ClusterObject.workload version) =
      nodes.filterMap (workload version cmdList cmdInitList) := by
  obtain ⟨pod, -, rfl⟩ := sendCmdPods_eq_ok h
  exact map_workload_objectsFor pod

/-- **What `cluster_init` sends** are the pods and then the DaemonSets of the nodes, and is accepted
exactly when each command is given once, or `init` again and again in a cluster of 1.7 and later,
where one of the other commands of its pod is given with it. -/
theorem pods_valid_iff {cmdText : String} (hcmds : cmkCmdList cmdText = .ok cmds)
    (hnodes : nodes ≠ []) (h : sendClusterPods send o version cmds nodes = .ok objects) :
    objects.map (ClusterObject.workload version) =
        nodes.filterMap (workload version [] (initCommands cmds)) ++
          nodes.filterMap (workload version (daemonCommands cmds) []) ∧
      ((∀ object ∈ objects, object.Valid) ↔ (cmds.filter (· ≠ "init")).Nodup ∧
        (cmds.count "init" ≤ 1 ∨
          [1, 7] ≤ version ∧ ∃ cmd ∈ cmds, cmd = "discover" ∨ cmd = "install")) := by
  have hvalid := valid_of_cmkCmdList hcmds
  obtain ⟨pods, hpods, hrest⟩ := bind_eq_ok.mp h
  obtain ⟨daemonSets, hdaemonSets, hpure⟩ := bind_eq_ok.mp hrest
  have hnames : nodes.filterMap (workload version [] []) = [] :=
    List.filterMap_eq_nil_iff.mpr fun _ _ => rfl
  rw [← pure_eq_ok.mp hpure, List.forall_mem_append, sendInitPods_valid_iff hvalid hnodes hpods,
    sendDaemonSets_valid_iff hvalid hnodes hdaemonSets, commands_iff, List.map_append]
  refine ⟨congrArg₂ (· ++ ·) ?_ ?_, Iff.rfl⟩
  · rw [sendInitPods] at hpods
    split_ifs at hpods with hne
    · exact map_workload_sent hpods
    · rw [← Except.ok.inj hpods, not_not.mp hne, hnames, List.map_nil]
  · rw [sendDaemonSets] at hdaemonSets
    split_ifs at hdaemonSets with hne
    · exact map_workload_sent hdaemonSets
    · rw [← Except.ok.inj hdaemonSets, not_not.mp hne, hnames, List.map_nil]

/-- The options and the commands that are taken by default. -/
theorem pods_valid_default :
    ∃ objects, sendClusterPods (fun _ _ => .ok ()) ClusterOptions.byDefault [1, 9]
        ["init", "reconcile", "install", "discover", "nodereport"] ["node1", "node2"] =
          .ok objects ∧ ∀ object ∈ objects, object.Valid := by
  have hcmds : ∀ cmd ∈ ["init", "reconcile", "install", "discover", "nodereport"],
      cmd ∈ validCmdList := by decide
  obtain ⟨objects, hobjects⟩ := sendClusterPods_taken hcmds ClusterOptions.byDefault [1, 9]
    ["node1", "node2"]
  exact ⟨objects, hobjects, (@pods_valid_iff _ _ _ _ _ _
    "init,reconcile,install,discover,nodereport" (by decide) (by decide) hobjects).2.mpr
      (by decide)⟩

end Cmk
