import Cmk.ClusterInit.Names
import Cmk.Machinery.Polling

/-!
# ClusterInit/Wait — creating the pods of the nodes and waiting for them

`wait_for_pod_phase` takes any pod of the cluster for the one it waits for when the name that it
waits for is in the pod's name.  A run of `run_pods` returns or exits for its own pods as long as
the pod that decides each list is one of them (`own_pods_awaited`).
-/

open Machinery

namespace Cmk

/-- A pod as `get_pod_list` reports it, whatever its namespace; a pod of a DaemonSet has another
name. -/
structure PodStatus where
  namespaceName : String
  name : Option String
  daemonSet : Option String
  phase : String

/-- An answer of `get_pod_list`. -/
abbrev PodList := Except PyErr (List PodStatus)

def PodStatus.isNamed (podName : String) (pod : PodStatus) : Bool :=
  match pod.name with
  | some name => isIn podName name
  | none => false

/-- The pods of a list in their order. -/
def scanPods (podName phaseName : String) : List PodStatus → Option (Except PyErr Unit)
  | [] => none
  | pod :: pods =>
    if pod.isNamed podName then
      if pod.phase = phaseName then some (.ok ())
      else if pod.phase = "Failed" then
        some (.error (.runtimeError ("The Pod " ++ podName ++ " went into Failed state")))
      else scanPods podName phaseName pods
    else scanPods podName phaseName pods

/-- One turn of the loop of `wait_for_pod_phase`. -/
def pollPods (podName phaseName : String) : PodList → Option (Except PyErr Unit)
  | .error e => some (exitOnApiException (.error e))
  | .ok pods => scanPods podName phaseName pods

/-- The wait, and the answers that are left after it; `none` still waits. -/
def waitForPodPhase (podName phaseName : String) :
    List PodList → Option (Except PyErr Unit × List PodList) :=
  poll (pollPods podName phaseName)

/-- `except RuntimeError: sys.exit(1)`. -/
def exitOnRuntimeError (x : Except PyErr Unit) : Except PyErr Unit :=
  match x with
  | .error (.runtimeError _) => .error (.systemExit 1)
  | _ => x

/-- The prefix of the names and the phase that `run_pods` waits for. -/
def awaited (cmdList cmdInitList : List String) : String × String :=
  if cmdInitList ≠ [] then ("cmk-" ++ joinText '-' cmdInitList ++ "-pod-", "Succeeded")
  else if cmdList ≠ [] then ("cmk-" ++ joinText '-' cmdList ++ "-ds-", "Running")
  else ("", "")

def waitForNodes (podNamePrefix podPhaseName : String) :
    List String → List PodList → Option (Except PyErr Unit × List PodList)
  | [], answers => some (.ok (), answers)
  | node :: nodes, answers =>
    match waitForPodPhase (podNamePrefix ++ node) podPhaseName answers with
    | none => none
    | some (r, rest) =>
      match exitOnRuntimeError r with
      | .ok () => waitForNodes podNamePrefix podPhaseName nodes rest
      | .error e => some (.error e, rest)

/-- One node of `run_cmd_pods`; `create` answers a call after those before it. -/
def createForNode (create : List Workload → Workload → Except PyErr Unit) (version : List ℕ)
    (cmdList cmdInitList : List String) (objects : List Workload) (nodeName : String) :
    Except PyErr (List Workload) :=
  match workload version cmdList cmdInitList nodeName with
  | some w => do
    exitOnApiException (create objects w)
    pure (objects ++ [w])
  | none => pure objects

/-- The objects that are created. -/
def runCmdPods (create : List Workload → Workload → Except PyErr Unit) (version : List ℕ)
    (cmdList cmdInitList cmkNodeList : List String) : Except PyErr (List Workload) :=
  cmkNodeList.foldlM (createForNode create version cmdList cmdInitList) []

/-- A run reads the lists of pods that it needs, and leaves the others. -/
def runPods (kubeVersion : Except PyErr (List ℕ))
    (create : List Workload → Workload → Except PyErr Unit)
    (cmdList cmdInitList cmkNodeList : List String) (answers : List PodList) :
    Option (Except PyErr Unit × List PodList) :=
  match kubeVersion >>= fun version =>
    runCmdPods create version cmdList cmdInitList cmkNodeList with
  | .error e => some (.error e, answers)
  | .ok _ => waitForNodes (awaited cmdList cmdInitList).1 (awaited cmdList cmdInitList).2
      cmkNodeList answers

/-! ## The pod that decides a list -/

/-- A pod that ends the wait for a name. -/
def PodStatus.isDecisive (podName phaseName : String) (pod : PodStatus) : Bool :=
  pod.isNamed podName && (pod.phase = phaseName || pod.phase = "Failed")

/-- What a pod that decides says. -/
def PodStatus.verdict (podName phaseName : String) (pod : PodStatus) : Except PyErr Unit :=
  if pod.phase = phaseName then .ok ()
  else .error (.runtimeError ("The Pod " ++ podName ++ " went into Failed state"))

/-- **A list is decided by its first decisive pod.** -/
theorem scanPods_eq (podName phaseName : String) (pods : List PodStatus) :
    scanPods podName phaseName pods =
      (pods.find? (·.isDecisive podName phaseName)).map (·.verdict podName phaseName) := by
  induction pods with
  | nil => rfl
  | cons pod pods ih =>
    rw [scanPods, ih]
    by_cases hdecisive : pod.isDecisive podName phaseName = true
    · rw [List.find?_cons_of_pos hdecisive, Option.map_some, PodStatus.verdict]
      obtain ⟨hnamed, hphase⟩ : pod.isNamed podName = true ∧ _ := by
        simpa [PodStatus.isDecisive] using hdecisive
      rw [if_pos hnamed]
      split_ifs with hready hfailed
      · rfl
      · rfl
      · exact absurd hphase (not_or_intro hready hfailed)
    · rw [List.find?_cons_of_neg hdecisive]
      split_ifs with hnamed hready hfailed
      · exact absurd (by simp [PodStatus.isDecisive, hnamed, hready]) hdecisive
      · exact absurd (by simp [PodStatus.isDecisive, hnamed, hfailed]) hdecisive
      · rfl
      · rfl

theorem scanPods_eq_some {podName phaseName : String} {pods : List PodStatus}
    {r : Except PyErr Unit} (h : scanPods podName phaseName pods = some r) :
    ∃ pod ∈ pods, pods.find? (·.isDecisive podName phaseName) = some pod ∧
      (r = .ok () → pod.phase = phaseName) ∧
        ∀ e, r = .error e → pod.phase ≠ phaseName ∧ pod.phase = "Failed" := by
  rw [scanPods_eq] at h
  obtain ⟨pod, hfind, rfl⟩ := Option.map_eq_some_iff.mp h
  have hphase : pod.phase = phaseName ∨ pod.phase = "Failed" := by
    have hdecisive := List.find?_some hfind
    simp only [PodStatus.isDecisive, Bool.and_eq_true, Bool.or_eq_true,
      decide_eq_true_eq] at hdecisive
    exact hdecisive.2
  refine ⟨pod, List.mem_of_find?_eq_some hfind, hfind, ?_⟩
  rw [PodStatus.verdict]
  split_ifs with hready
  · exact ⟨fun _ => hready, by simp⟩
  · exact ⟨by simp, fun _ _ => ⟨hready, hphase.resolve_left hready⟩⟩

/-! ## A run -/

/-- One answer, for the node that is waited for. -/
def nodeVerdict (podNamePrefix podPhaseName nodeName : String) (answer : PodList) :
    Option (Except PyErr Unit) :=
  (pollPods (podNamePrefix ++ nodeName) podPhaseName answer).map exitOnRuntimeError

theorem waitForNodes_eq (podNamePrefix podPhaseName : String) (nodes : List String)
    (answers : List PodList) : waitForNodes podNamePrefix podPhaseName nodes answers =
      pollAll (nodeVerdict podNamePrefix podPhaseName) nodes answers := by
  induction nodes generalizing answers with
  | nil => rfl
  | cons node nodes ih =>
    have hpoll : poll (nodeVerdict podNamePrefix podPhaseName node) answers =
        (waitForPodPhase (podNamePrefix ++ node) podPhaseName answers).map
          (Prod.map exitOnRuntimeError id) := poll_map exitOnRuntimeError _ answers
    rw [waitForNodes, pollAll, hpoll]
    cases waitForPodPhase (podNamePrefix ++ node) podPhaseName answers with
    | none => rfl
    | some result =>
      obtain ⟨r, rest⟩ := result
      simp only [Option.map_some, Prod.map_apply, id_eq]
      cases exitOnRuntimeError r with
      | ok => exact ih rest
      | error e => rfl

variable {kubeVersion : Except PyErr (List ℕ)}
  {create : List Workload → Workload → Except PyErr Unit}
  {namespaceName : String} {cmdList cmdInitList nodes : List String} {read rest : List PodList}
  {r : Except PyErr Unit}

/-- A pod is the object that was created, or one of its pods. -/
def PodStatus.IsOf (namespaceName : String) (w : Workload) (pod : PodStatus) : Prop :=
  pod.namespaceName = namespaceName ∧
    if w.api = .core then pod.name = some w.name else pod.daemonSet = some w.name

/-- A pod of what `run_pods` created for a node. -/
def IsOwn (kubeVersion : Except PyErr (List ℕ)) (namespaceName : String)
    (cmdList cmdInitList : List String) (nodeName : String) (pod : PodStatus) : Prop :=
  ∃ version w, kubeVersion = .ok version ∧
    workload version cmdList cmdInitList nodeName = some w ∧ pod.IsOf namespaceName w

/-- An answer has a pod of what was created for a node, in a phase. -/
def Reports (kubeVersion : Except PyErr (List ℕ)) (namespaceName : String)
    (cmdList cmdInitList : List String) (phase nodeName : String) (answer : PodList) : Prop :=
  ∃ pods, answer = .ok pods ∧ ∃ pod ∈ pods,
    IsOwn kubeVersion namespaceName cmdList cmdInitList nodeName pod ∧ pod.phase = phase

/-- A call of the run was answered by an error. -/
inductive CallFailed (kubeVersion : Except PyErr (List ℕ))
    (create : List Workload → Workload → Except PyErr Unit) (cmdList cmdInitList : List String)
    (nodes : List String) (read : List PodList) : Prop
  | version (e : PyErr) : kubeVersion = .error e →
      CallFailed kubeVersion create cmdList cmdInitList nodes read
  | create (version : List ℕ) (before : List String) (nodeName : String) (after : List String)
      (w : Workload) (e : PyErr) : kubeVersion = .ok version →
      nodes = before ++ nodeName :: after →
      workload version cmdList cmdInitList nodeName = some w →
      create (before.filterMap (workload version cmdList cmdInitList)) w = .error e →
      CallFailed kubeVersion create cmdList cmdInitList nodes read
  | podList (e : PyErr) : .error e ∈ read →
      CallFailed kubeVersion create cmdList cmdInitList nodes read

/-- The run returns only when every node's own pod is ready, and exits only for one of them. -/
structure WaitedForOwn (kubeVersion : Except PyErr (List ℕ))
    (create : List Workload → Workload → Except PyErr Unit) (namespaceName : String)
    (cmdList cmdInitList nodes : List String) (read : List PodList) (r : Except PyErr Unit) :
    Prop where
  returned : r = .ok () → ∀ nodeName ∈ nodes, ∃ answer ∈ read,
    Reports kubeVersion namespaceName cmdList cmdInitList (awaited cmdList cmdInitList).2 nodeName
      answer
  exited : ∀ e, r = .error e →
    (∃ nodeName ∈ nodes, ∃ answer ∈ read,
      Reports kubeVersion namespaceName cmdList cmdInitList "Failed" nodeName answer) ∨
      CallFailed kubeVersion create cmdList cmdInitList nodes read

/-- When a pod decides a list for a node, it is ready and of what was created for that node, or it
has failed and is of what was created for one of the nodes. -/
structure DecidedByOwn (kubeVersion : Except PyErr (List ℕ)) (namespaceName : String)
    (cmdList cmdInitList nodes : List String) (nodeName : String) (pods : List PodStatus) :
    Prop where
  ready : ∀ pod, pods.find? (·.isDecisive ((awaited cmdList cmdInitList).1 ++ nodeName)
      (awaited cmdList cmdInitList).2) = some pod → pod.phase = (awaited cmdList cmdInitList).2 →
    IsOwn kubeVersion namespaceName cmdList cmdInitList nodeName pod
  failed : ∀ pod, pods.find? (·.isDecisive ((awaited cmdList cmdInitList).1 ++ nodeName)
      (awaited cmdList cmdInitList).2) = some pod → pod.phase ≠ (awaited cmdList cmdInitList).2 →
    ∃ owner ∈ nodes, IsOwn kubeVersion namespaceName cmdList cmdInitList owner pod

/-- The nodes that are still waited for after some answers. -/
def waitingAfter (cmdList cmdInitList nodes : List String) (read : List PodList) :
    Progress String PyErr :=
  pollRun (nodeVerdict (awaited cmdList cmdInitList).1 (awaited cmdList cmdInitList).2) nodes read

/-! ## Creation -/

theorem createForNode_eq_ok {version : List ℕ} {objects objects' : List Workload}
    {nodeName : String}
    (h : createForNode create version cmdList cmdInitList objects nodeName = .ok objects') :
    objects' = objects ++ (workload version cmdList cmdInitList nodeName).toList := by
  rw [createForNode] at h
  cases hw : workload version cmdList cmdInitList nodeName with
  | none =>
    rw [hw] at h
    simpa using (pure_eq_ok.mp h).symm
  | some w =>
    rw [hw] at h
    obtain ⟨-, -, h⟩ := bind_eq_ok.mp h
    exact (pure_eq_ok.mp h).symm

/-- **What is created** is one object for each node, in their order. -/
theorem runCmdPods_eq_ok {version : List ℕ} {objects : List Workload}
    (h : runCmdPods create version cmdList cmdInitList nodes = .ok objects) :
    objects = nodes.filterMap (workload version cmdList cmdInitList) := by
  suffices hloop : ∀ (later : List String) (objects₀ : List Workload),
      later.foldlM (createForNode create version cmdList cmdInitList) objects₀ = .ok objects →
        objects = objects₀ ++ later.filterMap (workload version cmdList cmdInitList) from
    hloop nodes [] h
  intro later
  induction later with
  | nil => intro objects₀ h₀; rw [List.filterMap_nil, List.append_nil, ← pure_eq_ok.mp h₀]
  | cons node later ih =>
    intro objects₀ h₀
    rw [List.foldlM_cons] at h₀
    obtain ⟨objects₁, hnode, hlater⟩ := bind_eq_ok.mp h₀
    rw [ih objects₁ hlater, createForNode_eq_ok hnode, List.filterMap_cons, List.append_assoc]
    cases workload version cmdList cmdInitList node <;> rfl

/-- The creation fails with one of its calls. -/
theorem callFailed_of_creation {e : PyErr}
    (h : (kubeVersion >>= fun version => runCmdPods create version cmdList cmdInitList nodes) =
      .error e) : CallFailed kubeVersion create cmdList cmdInitList nodes read := by
  cases kubeVersion with
  | error e' => exact .version e' rfl
  | ok version =>
    have hloop : runCmdPods create version cmdList cmdInitList nodes = .error e := h
    obtain ⟨before, nodeName, after, objects, hnodes, hbefore, herror⟩ := foldlM_eq_error hloop
    have hobjects := runCmdPods_eq_ok hbefore
    rw [createForNode] at herror
    cases hw : workload version cmdList cmdInitList nodeName with
    | none =>
      rw [hw] at herror
      cases herror
    | some w =>
      rw [hw] at herror
      cases hcreate : create objects w with
      | ok =>
        simp only [hcreate, exitOnApiException, bind, Except.bind] at herror
        cases herror
      | error e' =>
        exact .create version before nodeName after w e' rfl hnodes hw (hobjects ▸ hcreate)

/-! ## Waiting -/

theorem nodeVerdict_eq_some {podNamePrefix phase nodeName : String} {pods : List PodStatus}
    (h : nodeVerdict podNamePrefix phase nodeName (.ok pods) = some r) :
    ∃ r', scanPods (podNamePrefix ++ nodeName) phase pods = some r' ∧
      (r = .ok () ↔ r' = .ok ()) := by
  obtain ⟨r', hr', rfl⟩ := Option.map_eq_some_iff.mp h
  refine ⟨r', hr', ?_⟩
  unfold exitOnRuntimeError
  split <;> simp

/-- **An answer is right about a node** when an own pod decides it. -/
theorem right_of_own {nodeName : String} {answer : PodList}
    (hown : ∀ pods, answer = .ok pods →
      DecidedByOwn kubeVersion namespaceName cmdList cmdInitList nodes nodeName pods) :
    Right (Reports kubeVersion namespaceName cmdList cmdInitList (awaited cmdList cmdInitList).2)
      (fun _ _ answer => (∃ owner ∈ nodes,
        Reports kubeVersion namespaceName cmdList cmdInitList "Failed" owner answer) ∨
          ∃ e, answer = .error e)
      (nodeVerdict (awaited cmdList cmdInitList).1 (awaited cmdList cmdInitList).2)
      nodeName answer := by
  cases answer with
  | error e =>
    refine ⟨fun h => ?_, fun _ _ => .inr ⟨e, rfl⟩⟩
    cases e <;> cases h
  | ok pods =>
    obtain ⟨hready, hfailed⟩ := hown pods rfl
    constructor
    · intro h
      obtain ⟨r', hscan, hr'⟩ := nodeVerdict_eq_some h
      obtain ⟨pod, hmem, hfind, hphase, -⟩ := scanPods_eq_some hscan
      have hpod := hphase (hr'.mp rfl)
      exact ⟨pods, rfl, pod, hmem, hready pod hfind hpod, hpod⟩
    · intro e h
      obtain ⟨r', hscan, hr'⟩ := nodeVerdict_eq_some h
      obtain ⟨pod, hmem, hfind, -, hphase⟩ := scanPods_eq_some hscan
      cases r' with
      | ok => cases hr'.mpr rfl
      | error e' =>
        obtain ⟨hne, hpod⟩ := hphase e' rfl
        obtain ⟨owner, howner, hown⟩ := hfailed pod hfind hne
        exact .inl ⟨owner, howner, pods, rfl, pod, hmem, hown, hpod⟩

/-- What was seen when the waiting ended is what the run returns or exits for. -/
theorem WaitedForOwn.of_accounted
    (h : Accounted
      (Reports kubeVersion namespaceName cmdList cmdInitList (awaited cmdList cmdInitList).2)
      (fun _ _ answer => (∃ owner ∈ nodes,
        Reports kubeVersion namespaceName cmdList cmdInitList "Failed" owner answer) ∨
          ∃ e, answer = .error e) nodes read (.returned String r)) :
    WaitedForOwn kubeVersion create namespaceName cmdList cmdInitList nodes read r := by
  cases r with
  | ok =>
    obtain ⟨earlier, hnodes, hmet⟩ := h
    rw [List.append_nil] at hnodes
    exact ⟨fun _ => hnodes ▸ hmet, by simp⟩
  | error e =>
    obtain ⟨-, -, answer, hanswer, hbroken⟩ := h
    refine ⟨by simp, fun _ _ => ?_⟩
    rcases hbroken with ⟨owner, howner, hfailed⟩ | ⟨e', rfl⟩
    · exact .inl ⟨owner, howner, answer, hanswer, hfailed⟩
    · exact .inr (.podList e' hanswer)

/-- **Every run of `run_pods`** returns and exits for its own pods, if each list that it reads for a
node is decided by a ready pod of that node or by a failed one of the nodes, when any pod decides
it. -/
theorem own_pods_awaited
    (h : runPods kubeVersion create cmdList cmdInitList nodes (read ++ rest) = some (r, rest))
    (hown : ∀ before pods after nodeName later, read = before ++ .ok pods :: after →
      waitingAfter cmdList cmdInitList nodes before = .waiting (nodeName :: later) →
        DecidedByOwn kubeVersion namespaceName cmdList cmdInitList nodes nodeName pods) :
    WaitedForOwn kubeVersion create namespaceName cmdList cmdInitList nodes read r := by
  rw [runPods] at h
  cases hcreate : kubeVersion >>= fun version =>
      runCmdPods create version cmdList cmdInitList nodes with
  | error e =>
    rw [hcreate] at h
    obtain ⟨rfl, -⟩ := Prod.mk.inj (Option.some.inj h)
    exact ⟨by simp, fun _ _ => .inr (callFailed_of_creation hcreate)⟩
  | ok objects =>
    rw [hcreate] at h
    dsimp only at h
    rw [waitForNodes_eq] at h
    obtain ⟨read', hread, hrun⟩ := exists_read h
    obtain rfl := List.append_cancel_right hread
    refine .of_accounted (hrun ▸ accounted_run ?_)
    intro before answer after nodeName later hsplit hwaiting
    exact right_of_own fun pods hpods =>
      hown before pods after nodeName later (hpods ▸ hsplit) hwaiting

/-- The pod of a node that runs `init`. -/
def initPod (nodeName phase : String) : PodStatus :=
  ⟨"default", some (podName ["init"] nodeName), none, phase⟩

theorem isOwn_initPod (nodeName phase : String) :
    IsOwn (.ok [1, 9]) "default" [] ["init"] nodeName (initPod nodeName phase) :=
  ⟨[1, 9], _, rfl, rfl, rfl, rfl⟩

/-- One node, whose pod is the only one with its name in it. -/
theorem own_pods_awaited_node : WaitedForOwn (.ok [1, 9]) (fun _ _ => .ok ()) "default" []
    ["init"] ["node1"] [.ok [initPod "node1" "Running"], .ok [initPod "node1" "Succeeded"]]
    (.ok ()) := by
  refine @own_pods_awaited (.ok [1, 9]) _ _ _ _ _ _ [] _ rfl ?_
  intro before pods after nodeName later hread hwaiting
  obtain rfl := List.mem_singleton.mp (mem_of_waiting hwaiting)
  have hpods : Except.ok pods ∈ [(.ok [initPod "node1" "Running"] : PodList),
      .ok [initPod "node1" "Succeeded"]] := hread ▸ List.mem_append_right _ List.mem_cons_self
  have hown : ∀ pod ∈ pods, IsOwn (.ok [1, 9]) "default" [] ["init"] "node1" pod := by
    simp only [List.mem_cons, Except.ok.injEq, List.not_mem_nil, or_false] at hpods
    rcases hpods with rfl | rfl
    · exact List.forall_mem_singleton.mpr (isOwn_initPod ..)
    · exact List.forall_mem_singleton.mpr (isOwn_initPod ..)
  exact ⟨fun pod hpod _ => hown pod (List.mem_of_find?_eq_some hpod),
    fun pod hpod _ => ⟨_, List.mem_cons_self, hown pod (List.mem_of_find?_eq_some hpod)⟩⟩

/-- The pod of `node10` is taken for the one of `node1`. -/
theorem other_node_awaited : ¬ ∀ (kubeVersion : Except PyErr (List ℕ))
    (create : List Workload → Workload → Except PyErr Unit) (namespaceName : String)
    (cmdList cmdInitList nodes : List String) (read rest : List PodList) (r : Except PyErr Unit),
      runPods kubeVersion create cmdList cmdInitList nodes (read ++ rest) = some (r, rest) →
        WaitedForOwn kubeVersion create namespaceName cmdList cmdInitList nodes read r := by
  intro h
  have hrun := h (.ok [1, 9]) (fun _ _ => .ok ()) "default" [] ["init"] ["node1", "node10"]
    [.ok [initPod "node10" "Succeeded", initPod "node1" "Running"],
      .ok [initPod "node10" "Succeeded", initPod "node1" "Running"]] [] (.ok ()) rfl
  obtain ⟨answer, hanswer, pods, rfl, pod, hpod, ⟨version, w, -, hw, -, hname⟩, hphase⟩ :=
    hrun.returned rfl "node1" List.mem_cons_self
  obtain rfl := Option.some.inj hw
  simp only [List.mem_cons, Except.ok.injEq, List.not_mem_nil, or_false, or_self] at hanswer
  subst hanswer
  simp only [List.mem_cons, List.not_mem_nil, or_false] at hpod
  rcases hpod with rfl | rfl
  · exact absurd hname (by decide)
  · exact absurd hphase (by decide)

end Cmk
