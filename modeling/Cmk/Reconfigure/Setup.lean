import Cmk.ClusterInit.Templates
import Cmk.ClusterInit.Wait
import Cmk.Machinery.Rolling

/-!
# Reconfigure/Setup — `reconfigure_setup`, which reconfigures the nodes of the cluster one by one

For every node in its turn the command creates the pod that runs `reconfigure` there, and waits
until a pod with that name in its name has succeeded.  Its runs interleave with the pods, which end
when they like, and with whoever else creates and deletes pods.  Only one node is reconfigured at a
time, and the command only goes on after a success, exactly when no name that it waits for is in the
name of a pod that it created before (`reconfigure_orderly_iff`).
-/

open Machinery

namespace Cmk

/-! ## The nodes -/

/-- What the command reads of a node. -/
structure NodeItem where
  name : String
  unschedulable : Option Bool
  labels : Option (List (String × String))

/-- The nodes that are not marked as unschedulable. -/
def getComputeNodes (nodes : List NodeItem) : List NodeItem :=
  nodes.filter fun node => node.unschedulable ≠ some true

/-- A node without labels ends the loop, as `None` has no keys. -/
def cmkNodesOf : List NodeItem → Except PyErr (List String)
  | [] => .ok []
  | node :: nodes =>
    match node.labels with
    | none => .error .typeError
    | some labels => do
      let rest ← cmkNodesOf nodes
      if labels.lookup "cmk.intel.com/cmk-node" = some "true" then return node.name :: rest
      else return rest

def getCmkNodes (nodeList : Except PyErr (List NodeItem)) : Except PyErr (List String) := do
  let nodes ← nodeList
  let cmkNodes ← cmkNodesOf (getComputeNodes nodes)
  if cmkNodes.length < 1 then .error (.systemExit 1) else .ok cmkNodes

theorem cmkNodesOf_sublist {nodes : List NodeItem} {names : List String}
    (h : cmkNodesOf nodes = .ok names) : names.Sublist (nodes.map NodeItem.name) := by
  induction nodes generalizing names with
  | nil =>
    obtain rfl := Except.ok.inj h
    exact .slnil
  | cons node nodes ih =>
    rw [cmkNodesOf] at h
    split at h
    · cases h
    · obtain ⟨rest, hrest, h⟩ := bind_eq_ok.mp h
      split at h
      · obtain rfl := pure_eq_ok.mp h
        exact (ih hrest).cons_cons _
      · obtain rfl := pure_eq_ok.mp h
        exact (ih hrest).cons _

/-- The names of the nodes are different where those of the cluster are. -/
theorem nodup_of_getCmkNodes {nodes : List NodeItem} {names : List String}
    (hnd : (nodes.map NodeItem.name).Nodup) (h : getCmkNodes (.ok nodes) = .ok names) :
    names.Nodup := by
  obtain ⟨listed, hlisted, h⟩ := bind_eq_ok.mp h
  obtain rfl := Except.ok.inj hlisted
  obtain ⟨found, hfound, h⟩ := bind_eq_ok.mp h
  split at h
  · cases h
  · obtain rfl := Except.ok.inj h
    exact hnd.sublist ((cmkNodesOf_sublist hfound).trans (List.filter_sublist.map _))

/-! ## The pod of a node -/

structure ReconfigureOptions where
  numExclusiveCores : String
  numSharedCores : String
  exclNonIsolcpus : String
  exclusiveMode : String
  sharedMode : String
  cmkImg : String
  cmkImgPol : String
  installDir : String
  saname : String
  namespaceName : String

def reconfigureArgs (o : ReconfigureOptions) (nodeName : String) : String :=
  "/cmk/cmk.py reconfigure --node-name=" ++ nodeName ++
    " --num-exclusive-cores=" ++ o.numExclusiveCores ++
    " --num-shared-cores=" ++ o.numSharedCores ++
    " --excl-non-isolcpus=" ++ o.exclNonIsolcpus ++ " --exclusive-mode=" ++ o.exclusiveMode ++
    " --shared-mode=" ++ o.sharedMode ++ " --install-dir=" ++ o.installDir ++
    " --namespace=" ++ o.namespaceName

def setupPod (o : ReconfigureOptions) (nodeName : String) : Except PyErr PodTemplate := do
  let pod := (getPodTemplate "cmk-serviceaccount").updatePod "Never" o.installDir o.saname
  let pod ← pod.updatePodWithContainer "reconfigure" o.cmkImg o.cmkImgPol
    (reconfigureArgs o nodeName)
  return pod.updatePodWithNodeDetails nodeName ["reconfigure"]

/-- The name of the pod is the one that is waited for. -/
theorem setupPod_name (o : ReconfigureOptions) (nodeName : String) :
    ∃ pod, setupPod o nodeName = .ok pod ∧ pod.name = podName ["reconfigure"] nodeName ∧
      pod.spec.nodeName = some nodeName ∧
      pod.spec.containers.map (fun c => c.args) = [[reconfigureArgs o nodeName]] :=
  ⟨_, rfl, rfl, rfl, rfl⟩

theorem awaited_reconfigure (nodeName : String) :
    "cmk-reconfigure-pod-" ++ nodeName = podName ["reconfigure"] nodeName := by
  rw [← String.toList_inj]
  simp [podName, joinText]

/-! ## The command among the pods of the cluster -/

/-- Before the nodes that are left, in wait for the pod of one, or at an exit. -/
inductive SetupDriver
  | next (later : List String)
  | waiting (nodeName : String) (later : List String)
  | exited (e : PyErr)

/-- After a wait. -/
def SetupDriver.afterWait (later : List String) : Except PyErr Unit → SetupDriver
  | .ok () => .next later
  | .error e => .exited e

/-- The pods of all namespaces in some order, and the command. -/
structure SetupSystem where
  pods : List PodStatus
  driver : SetupDriver

/-- The pod that the command creates for a node, by its name. -/
def PodStatus.Reconfigures (namespaceName nodeName : String) (pod : PodStatus) : Prop :=
  pod.namespaceName = namespaceName ∧ pod.name = some (podName ["reconfigure"] nodeName)

/-- Not the pod of any node, nor one that could be taken for it. -/
def PodStatus.Foreign (nodes : List String) (pod : PodStatus) : Prop :=
  ∀ nodeName ∈ nodes, pod.isNamed (podName ["reconfigure"] nodeName) = false

/-- A phase that does not change any more. -/
def PodStatus.Ended (pod : PodStatus) : Prop := pod.phase = "Succeeded" ∨ pod.phase = "Failed"

instance (pod : PodStatus) : Decidable pod.Ended := inferInstanceAs (Decidable (_ ∨ _))

/-- One call of `execute_reconfigure`, or a change of the pods. -/
inductive SetupSystem.Step (o : ReconfigureOptions) (nodes : List String) :
    SetupSystem → SetupSystem → Prop
  | create {s} (nodeName : String) (later : List String) (pod : PodTemplate)
      (before after : List PodStatus) (hs : s.driver = .next (nodeName :: later))
      (hpod : setupPod o nodeName = .ok pod) (hpods : s.pods = before ++ after)
      (hnew : ∀ p ∈ s.pods, p.namespaceName = o.namespaceName → p.name ≠ some pod.name) :
      Step o nodes s
        { pods := before ++ ⟨o.namespaceName, some pod.name, none, "Pending"⟩ :: after
          driver := .waiting nodeName later }
  /-- The API refuses the pod. -/
  | createError {s} (nodeName : String) (later : List String) (e : PyErr)
      (hs : s.driver = .next (nodeName :: later)) :
      Step o nodes s { s with driver := .afterWait later (exitOnApiException (.error e)) }
  /-- A list of the pods that ends the wait. -/
  | poll {s} (nodeName : String) (later : List String) (answer : PodList) (r : Except PyErr Unit)
      (hs : s.driver = .waiting nodeName later)
      (hanswer : ∀ pods, answer = .ok pods → pods.Perm s.pods)
      (hr : nodeVerdict "cmk-reconfigure-pod-" "Succeeded" nodeName answer = some r) :
      Step o nodes s { s with driver := .afterWait later r }
  /-- A pod that has not ended gets into another phase. -/
  | proceed {s} (before after : List PodStatus) (pod : PodStatus) (phase : String)
      (hpods : s.pods = before ++ pod :: after) (hpod : ¬ pod.Ended) :
      Step o nodes s { s with pods := before ++ { pod with phase } :: after }
  | delete {s} (before after : List PodStatus) (pod : PodStatus)
      (hpods : s.pods = before ++ pod :: after) : Step o nodes s { s with pods := before ++ after }
  /-- Somebody else creates a pod. -/
  | other {s} (before after : List PodStatus) (pod : PodStatus) (hpods : s.pods = before ++ after)
      (hpod : pod.Foreign nodes) : Step o nodes s { s with pods := before ++ pod :: after }

/-- What the command and the cluster can reach from some pods. -/
def SetupSystem.Run (o : ReconfigureOptions) (nodes : List String) (pods : List PodStatus) :
    SetupSystem → Prop :=
  Relation.ReflTransGen (SetupSystem.Step o nodes) ⟨pods, .next nodes⟩

/-- The reconfiguration of a node has begun and has not ended. -/
def SetupSystem.InProgress (namespaceName : String) (s : SetupSystem) (nodeName : String) : Prop :=
  ∃ pod ∈ s.pods, pod.Reconfigures namespaceName nodeName ∧ ¬ pod.Ended

def SetupSystem.Succeeded (namespaceName : String) (s : SetupSystem) (nodeName : String) : Prop :=
  ∃ pod ∈ s.pods, pod.Reconfigures namespaceName nodeName ∧ pod.phase = "Succeeded"

/-- One node at a time, none when the command goes on or has returned, and it goes on when the node
that it waited for has succeeded. -/
structure SetupSystem.Orderly (o : ReconfigureOptions) (nodes : List String) (s : SetupSystem) :
    Prop where
  one : ∀ a ∈ nodes, ∀ b ∈ nodes, s.InProgress o.namespaceName a →
    s.InProgress o.namespaceName b → a = b
  none : ∀ later, s.driver = .next later → ∀ a ∈ nodes, ¬ s.InProgress o.namespaceName a
  succeeded : ∀ s', SetupSystem.Step o nodes s s' → ∀ nodeName later,
    s.driver = .waiting nodeName later → s'.driver = .next later →
      s.Succeeded o.namespaceName nodeName

/-- The name that is waited for is in the name of the pod of another node. -/
def looksLike (nodeName other : String) : Prop :=
  isIn (podName ["reconfigure"] nodeName) (podName ["reconfigure"] other) = true

instance (nodeName other : String) : Decidable (looksLike nodeName other) :=
  inferInstanceAs (Decidable (_ = _))

/-! ## The pods and the driver -/

theorem podName_injective (cmds : List String) {a b : String}
    (h : podName cmds a = podName cmds b) : a = b := by
  rwa [podName, podName, String.append_right_inj] at h

variable {o : ReconfigureOptions} {nodes : List String} {s s' : SetupSystem}

theorem PodStatus.Reconfigures.unique {namespaceName a b : String} {pod : PodStatus}
    (ha : pod.Reconfigures namespaceName a) (hb : pod.Reconfigures namespaceName b) : a = b :=
  podName_injective _ (Option.some.inj (ha.2.symm.trans hb.2))

theorem PodStatus.Reconfigures.isNamed {namespaceName a : String} {pod : PodStatus}
    (h : pod.Reconfigures namespaceName a) (nodeName : String) :
    pod.isNamed (podName ["reconfigure"] nodeName) = true ↔ looksLike nodeName a := by
  rw [PodStatus.isNamed, h.2]
  rfl

/-- Two pods that are not those of one node. -/
def NotTwice (namespaceName : String) (nodes : List String) (p q : PodStatus) : Prop :=
  ∀ nodeName ∈ nodes, p.Reconfigures namespaceName nodeName →
    ¬ q.Reconfigures namespaceName nodeName

theorem NotTwice.symm {namespaceName : String} {p q : PodStatus}
    (h : NotTwice namespaceName nodes p q) : NotTwice namespaceName nodes q p :=
  fun nodeName hmem hq hp => h nodeName hmem hp hq

/-- What the pods are, in every run. -/
structure SetupSystem.Inv (o : ReconfigureOptions) (nodes : List String) (s : SetupSystem) :
    Prop where
  known : ∀ pod ∈ s.pods, pod.Foreign nodes ∨
    ∃ nodeName ∈ nodes, pod.Reconfigures o.namespaceName nodeName
  apart : s.pods.Pairwise (NotTwice o.namespaceName nodes)

/-- A pod among others. -/
theorem SetupSystem.Inv.split (h : s.Inv o nodes) {before after : List PodStatus} {pod : PodStatus}
    (hpods : s.pods = before ++ pod :: after) :
    (∀ q ∈ before ++ after, NotTwice o.namespaceName nodes pod q) ∧
      (before ++ after).Pairwise (NotTwice o.namespaceName nodes) := by
  have hpairs := h.apart
  rw [hpods, List.pairwise_middle fun h => NotTwice.symm h] at hpairs
  exact List.pairwise_cons.mp hpairs

theorem pairwise_insert {before after : List PodStatus} {pod : PodStatus} {namespaceName : String}
    (hpod : ∀ q ∈ before ++ after, NotTwice namespaceName nodes pod q)
    (hrest : (before ++ after).Pairwise (NotTwice namespaceName nodes)) :
    (before ++ pod :: after).Pairwise (NotTwice namespaceName nodes) := by
  rw [List.pairwise_middle fun h => NotTwice.symm h]
  exact List.pairwise_cons.mpr ⟨hpod, hrest⟩

theorem mem_middle {α : Type} {before after : List α} {x y : α} :
    y ∈ before ++ x :: after ↔ y = x ∨ y ∈ before ++ after := by
  simp only [List.mem_append, List.mem_cons]
  tauto

/-- A foreign pod is nobody's. -/
theorem PodStatus.Foreign.not_reconfigures {pod : PodStatus} (h : pod.Foreign nodes)
    {namespaceName nodeName : String} (hmem : nodeName ∈ nodes) :
    ¬ pod.Reconfigures namespaceName nodeName := by
  intro hpod
  have hnamed := (hpod.isNamed nodeName).mpr (decide_eq_true (List.infix_refl _))
  rw [h nodeName hmem] at hnamed
  cases hnamed

theorem SetupSystem.Inv.step (h : s.Inv o nodes) (hstep : SetupSystem.Step o nodes s s')
    (hnext : ∀ nodeName later, s.driver = .next (nodeName :: later) → nodeName ∈ nodes) :
    s'.Inv o nodes := by
  cases hstep with
  | create nodeName later pod before after hs hpod hpods hnew =>
    obtain ⟨pod', hpod', hname, -⟩ := setupPod_name o nodeName
    obtain rfl := Except.ok.inj (hpod.symm.trans hpod')
    refine ⟨fun p hp => ?_, pairwise_insert (fun q hq x _ hx hq' => ?_) (hpods ▸ h.apart)⟩
    · rcases mem_middle.mp hp with rfl | hp
      · exact .inr ⟨nodeName, hnext nodeName later hs, rfl, congrArg some hname⟩
      · exact h.known p (hpods ▸ hp)
    · exact hnew q (hpods ▸ hq) hq'.1 (hq'.2.trans hx.2.symm)
  | createError | poll => exact ⟨h.known, h.apart⟩
  | proceed before after pod phase hpods hpod =>
    obtain ⟨hothers, hrest⟩ := h.split hpods
    refine ⟨fun p hp => ?_, pairwise_insert (fun q hq => hothers q hq) hrest⟩
    rcases mem_middle.mp hp with rfl | hp
    · exact h.known pod (hpods ▸ mem_middle.mpr (.inl rfl))
    · exact h.known p (hpods ▸ mem_middle.mpr (.inr hp))
  | delete before after pod hpods =>
    exact ⟨fun p hp => h.known p (hpods ▸ mem_middle.mpr (.inr hp)), (h.split hpods).2⟩
  | other before after pod hpods hpod =>
    refine ⟨fun p hp => ?_, pairwise_insert (fun q _ x hx hpx => ?_) (hpods ▸ h.apart)⟩
    · rcases mem_middle.mp hp with rfl | hp
      · exact .inl hpod
      · exact h.known p (hpods ▸ hp)
    · exact absurd hpx (hpod.not_reconfigures hx)

/-- **A list that ends a wait well** has a pod that has succeeded and looks like the one that is
waited for. -/
theorem SetupSystem.Inv.seen (h : s.Inv o nodes) {nodeName : String} (hmem : nodeName ∈ nodes)
    {answer : PodList} (hanswer : ∀ pods, answer = .ok pods → pods.Perm s.pods)
    (hr : nodeVerdict "cmk-reconfigure-pod-" "Succeeded" nodeName answer = some (.ok ())) :
    ∃ x ∈ nodes, looksLike nodeName x ∧ s.Succeeded o.namespaceName x := by
  cases answer with
  | error e =>
    rw [nodeVerdict, pollPods, Option.map_some, Option.some.injEq] at hr
    cases e <;> cases hr
  | ok pods =>
    obtain ⟨r', hscan, hr'⟩ := nodeVerdict_eq_some hr
    obtain ⟨pod, hpod, hfind, hphase, -⟩ := scanPods_eq_some hscan
    have hpod := (hanswer pods rfl).subset hpod
    have hnamed : pod.isNamed (podName ["reconfigure"] nodeName) = true := by
      have hdecisive := List.find?_some hfind
      rw [PodStatus.isDecisive, Bool.and_eq_true, awaited_reconfigure] at hdecisive
      exact hdecisive.1
    rcases h.known pod hpod with hforeign | ⟨x, hx, hreconfigures⟩
    · rw [hforeign nodeName hmem] at hnamed
      cases hnamed
    · exact ⟨x, hx, (hreconfigures.isNamed nodeName).mp hnamed, pod, hpod, hreconfigures,
        hphase (hr'.mp rfl)⟩

/-! ## The driver of tasks that it is -/

/-- What has not ended for the driver may have, and what has succeeded for it may be deleted. -/
structure SetupSystem.Matches (o : ReconfigureOptions) (nodes : List String) (s : SetupSystem)
    (a : Rolling.State String) : Prop where
  active : ∀ x ∈ nodes, s.InProgress o.namespaceName x → x ∈ a.active
  succeeded : ∀ x ∈ nodes, s.Succeeded o.namespaceName x → x ∈ a.succeeded
  next : ∀ later, s.driver = .next later → a.current = none ∧ a.later = later
  waiting : ∀ nodeName later, s.driver = .waiting nodeName later →
    a.current = some nodeName ∧ a.later = later

/-- An exit is nothing to the driver. -/
theorem SetupSystem.Matches.exit {a : Rolling.State String} (h : s.Matches o nodes a)
    (later : List String) (e : PyErr) :
    SetupSystem.Matches o nodes { s with driver := .afterWait later (.error e) } a :=
  ⟨h.active, h.succeeded, fun _ hd => (nomatch hd), fun _ _ hd => (nomatch hd)⟩

/-- The pods have changed, and nothing more has begun or succeeded. -/
theorem SetupSystem.Matches.pods {a : Rolling.State String} (h : s.Matches o nodes a)
    {pods : List PodStatus}
    (hactive : ∀ x ∈ nodes, SetupSystem.InProgress o.namespaceName { s with pods } x →
      s.InProgress o.namespaceName x)
    (hsucceeded : ∀ x ∈ nodes, SetupSystem.Succeeded o.namespaceName { s with pods } x →
      s.Succeeded o.namespaceName x) : SetupSystem.Matches o nodes { s with pods } a :=
  ⟨fun x hx hp => h.active x hx (hactive x hx hp),
    fun x hx hp => h.succeeded x hx (hsucceeded x hx hp), h.next, h.waiting⟩

/-- **A pod gets into another phase**: its node succeeds, or nothing has happened. -/
theorem SetupSystem.Matches.proceed {a : Rolling.State String} (h : s.Matches o nodes a)
    (hinv : s.Inv o nodes) {before after : List PodStatus} {pod : PodStatus} {phase : String}
    (hpods : s.pods = before ++ pod :: after) (hpod : ¬ pod.Ended) :
    ∃ a', (a' = a ∨ Rolling.Step looksLike a a') ∧ SetupSystem.Matches o nodes
      { s with pods := before ++ { pod with phase } :: after } a' := by
  have hthere : pod ∈ s.pods := hpods ▸ mem_middle.mpr (.inl rfl)
  have hrest : ∀ q ∈ before ++ after, q ∈ s.pods := fun q hq =>
    hpods ▸ mem_middle.mpr (.inr hq)
  by_cases hown : phase = "Succeeded" ∧ ∃ x ∈ nodes, pod.Reconfigures o.namespaceName x
  · obtain ⟨rfl, x, hx, hreconfigures⟩ := hown
    refine ⟨_, .inr (.succeed x (h.active x hx ⟨pod, hthere, hreconfigures, hpod⟩)),
      fun y hy hprogress => ?_, fun y hy hsucceeded => ?_, h.next, h.waiting⟩
    · obtain ⟨p, hp, hpy, hended⟩ := hprogress
      rcases mem_middle.mp hp with rfl | hp
      · exact absurd (.inl rfl) hended
      · refine ⟨h.active y hy ⟨p, hrest p hp, hpy, hended⟩, ?_⟩
        rintro rfl
        exact (hinv.split hpods).1 p hp y hy hreconfigures hpy
    · obtain ⟨p, hp, hpy, hphase⟩ := hsucceeded
      rcases mem_middle.mp hp with rfl | hp
      · exact .inl (PodStatus.Reconfigures.unique hpy hreconfigures)
      · exact .inr (h.succeeded y hy ⟨p, hrest p hp, hpy, hphase⟩)
  · refine ⟨a, .inl rfl, h.pods (fun y hy hprogress => ?_) fun y hy hsucceeded => ?_⟩
    · obtain ⟨p, hp, hpy, hended⟩ := hprogress
      rcases mem_middle.mp hp with rfl | hp
      · exact ⟨pod, hthere, hpy, hpod⟩
      · exact ⟨p, hrest p hp, hpy, hended⟩
    · obtain ⟨p, hp, hpy, hphase⟩ := hsucceeded
      rcases mem_middle.mp hp with rfl | hp
      · exact absurd ⟨hphase, y, hy, hpy⟩ hown
      · exact ⟨p, hrest p hp, hpy, hphase⟩

/-- **A step of the command or of the pods** is one of the driver or of a task, or none at all. -/
theorem SetupSystem.sim {a : Rolling.State String} (h : s.Matches o nodes a)
    (hinv : s.Inv o nodes) (ha : Rolling.Inv nodes a) (hstep : SetupSystem.Step o nodes s s') :
    ∃ a', (a' = a ∨ Rolling.Step looksLike a a') ∧ s'.Matches o nodes a' := by
  cases hstep with
  | create nodeName later pod before after hs hpod hpods hnew =>
    obtain ⟨hidle, hlater⟩ := h.next _ hs
    obtain ⟨pod', hpod', hname, -⟩ := setupPod_name o nodeName
    obtain rfl := Except.ok.inj (hpod.symm.trans hpod')
    refine ⟨_, .inr (.start nodeName later hidle hlater), fun x hx hprogress => ?_,
      fun x hx hsucceeded => ?_, fun _ hd => (nomatch hd), fun y rest hd => ?_⟩
    · obtain ⟨p, hp, hpx, hended⟩ := hprogress
      rcases mem_middle.mp hp with rfl | hp
      · exact .inl (podName_injective _ (Option.some.inj (hpx.2.symm.trans (congrArg some hname))))
      · exact .inr (h.active x hx ⟨p, hpods ▸ hp, hpx, hended⟩)
    · obtain ⟨p, hp, hpx, hphase⟩ := hsucceeded
      rcases mem_middle.mp hp with rfl | hp
      · exact absurd hphase (by simp)
      · exact h.succeeded x hx ⟨p, hpods ▸ hp, hpx, hphase⟩
    · obtain ⟨rfl, rfl⟩ := SetupDriver.waiting.inj hd
      exact ⟨rfl, rfl⟩
  | createError nodeName later e hs =>
    refine ⟨a, .inl rfl, ?_⟩
    cases e <;> exact h.exit later _
  | poll nodeName later answer r hs hanswer hr =>
    cases r with
    | error e => exact ⟨a, .inl rfl, h.exit later e⟩
    | ok u =>
      obtain ⟨hcurrent, hlater⟩ := h.waiting _ _ hs
      obtain ⟨x, hx, hlooks, hsucceeded⟩ := hinv.seen (ha.current_mem hcurrent) hanswer hr
      refine ⟨_, .inr (.pass nodeName x hcurrent hlooks (h.succeeded x hx hsucceeded)),
        h.active, h.succeeded, fun rest hd => ?_, fun _ _ hd => (nomatch hd)⟩
      obtain rfl := SetupDriver.next.inj hd
      exact ⟨rfl, hlater⟩
  | proceed before after pod phase hpods hpod => exact h.proceed hinv hpods hpod
  | delete before after pod hpods =>
    have hrest : ∀ q ∈ before ++ after, q ∈ s.pods := fun q hq =>
      hpods ▸ mem_middle.mpr (.inr hq)
    exact ⟨a, .inl rfl, h.pods (fun x _ ⟨p, hp, hrec⟩ => ⟨p, hrest p hp, hrec⟩)
      fun x _ ⟨p, hp, hrec⟩ => ⟨p, hrest p hp, hrec⟩⟩
  | other before after pod hpods hpod =>
    refine ⟨a, .inl rfl, h.pods (fun x hx ⟨p, hp, hrec⟩ => ?_) fun x hx ⟨p, hp, hrec⟩ => ?_⟩
    all_goals
      rcases mem_middle.mp hp with rfl | hp
      · exact absurd hrec.1 (hpod.not_reconfigures hx)
      · exact ⟨p, hpods ▸ hp, hrec⟩

/-- **Every run** is one of the driver's, where the names are clear. -/
theorem SetupSystem.Run.sound (hnd : nodes.Nodup) (hclear : Rolling.Clear looksLike nodes)
    {pods : List PodStatus} (hforeign : ∀ pod ∈ pods, pod.Foreign nodes)
    (h : SetupSystem.Run o nodes pods s) :
    ∃ a, s.Matches o nodes a ∧ Rolling.Inv nodes a ∧ s.Inv o nodes := by
  induction h with
  | refl =>
    have hnone : ∀ x ∈ nodes, ∀ pod ∈ pods, ¬ pod.Reconfigures o.namespaceName x :=
      fun x hx pod hpod => (hforeign pod hpod).not_reconfigures hx
    refine ⟨Rolling.start nodes, ⟨fun x hx ⟨pod, hpod, hrec, _⟩ => (hnone x hx pod hpod hrec).elim,
      fun x hx ⟨pod, hpod, hrec, _⟩ => (hnone x hx pod hpod hrec).elim, fun later hd => ?_,
      fun _ _ hd => (nomatch hd)⟩, .init nodes, fun pod hpod => .inl (hforeign pod hpod), ?_⟩
    · obtain rfl := SetupDriver.next.inj hd
      exact ⟨rfl, rfl⟩
    · exact List.pairwise_of_forall_mem_list fun p hp q _ x hx hpx => (hnone x hx p hp hpx).elim
  | @tail s s' _ hstep ih =>
    obtain ⟨a, hmatches, ha, hinv⟩ := ih
    obtain ⟨a', hor, hmatches'⟩ := SetupSystem.sim hmatches hinv ha hstep
    refine ⟨a', hmatches', ?_, hinv.step hstep fun nodeName later hd => ?_⟩
    · rcases hor with rfl | hroll
      · exact ha
      · exact ha.step hclear hnd hroll
    · exact ha.later_mem (by rw [(hmatches.next _ hd).2]; exact List.mem_cons_self)

/-- **Where the names are clear** every state is orderly. -/
theorem SetupSystem.Run.orderly (hnd : nodes.Nodup) (hclear : Rolling.Clear looksLike nodes)
    {pods : List PodStatus} (hforeign : ∀ pod ∈ pods, pod.Foreign nodes)
    (h : SetupSystem.Run o nodes pods s) : s.Orderly o nodes := by
  obtain ⟨a, hmatches, ha, hinv⟩ := h.sound hnd hclear hforeign
  refine ⟨fun x hx y hy hpx hpy => ?_, fun later hd x hx hpx => ?_,
    fun s' hstep nodeName later hs hs' => ?_⟩
  · have hcurrent := ha.alone x (hmatches.active x hx hpx)
    exact Option.some.inj (hcurrent.symm.trans (ha.alone y (hmatches.active y hy hpy)))
  · have hcurrent := ha.alone x (hmatches.active x hx hpx)
    rw [(hmatches.next later hd).1] at hcurrent
    cases hcurrent
  · have hcurrent := (hmatches.waiting _ _ hs).1
    cases hstep with
    | create _ _ _ _ _ hd | createError _ _ _ hd =>
      rw [hs] at hd
      cases hd
    | poll node' later' answer r hd hanswer hr =>
      obtain ⟨rfl, rfl⟩ := SetupDriver.waiting.inj (hs.symm.trans hd)
      cases r with
      | error e => cases hs'
      | ok u =>
        obtain ⟨x, hx, hlooks, hsucceeded⟩ := hinv.seen (ha.current_mem hcurrent) hanswer hr
        obtain rfl := ha.succeeded_of_sees hclear hcurrent hlooks
          (hmatches.succeeded x hx hsucceeded)
        exact hsucceeded
    | proceed | delete | other =>
      rw [show s.driver = .next later from hs'] at hs
      cases hs

/-! ## Names that are not clear -/

/-- The pod of a node that has been reconfigured. -/
def donePod (o : ReconfigureOptions) (nodeName : String) : PodStatus :=
  ⟨o.namespaceName, some (podName ["reconfigure"] nodeName), none, "Succeeded"⟩

theorem nodeVerdict_donePod (o : ReconfigureOptions) {nodeName x : String}
    (h : looksLike nodeName x) (pods : List PodStatus) :
    nodeVerdict "cmk-reconfigure-pod-" "Succeeded" nodeName (.ok (donePod o x :: pods)) =
      some (.ok ()) := by
  have hnamed : (donePod o x).isNamed ("cmk-reconfigure-pod-" ++ nodeName) = true := by
    rw [awaited_reconfigure]
    exact h
  have hphase : (donePod o x).phase = "Succeeded" := rfl
  rw [nodeVerdict, pollPods, scanPods, if_pos hnamed, if_pos hphase]
  rfl

/-- The pod of a node that was created and has not begun. -/
def pendingPod (o : ReconfigureOptions) (nodeName : String) : PodStatus :=
  ⟨o.namespaceName, some (podName ["reconfigure"] nodeName), none, "Pending"⟩

theorem not_ended_pendingPod (o : ReconfigureOptions) (nodeName : String) :
    ¬ (pendingPod o nodeName).Ended := by
  simp [pendingPod, PodStatus.Ended]

/-- The pods of the nodes before one, and its own, which is created and runs. -/
theorem SetupSystem.exists_create (o : ReconfigureOptions) (nodes : List String)
    {done later : List String} {x : String} (hx : x ∉ done) :
    SetupSystem.Step o nodes ⟨done.map (donePod o), .next (x :: later)⟩
      ⟨done.map (donePod o) ++ [pendingPod o x], .waiting x later⟩ := by
  obtain ⟨pod, hpod, hname, -⟩ := setupPod_name o x
  have hstep : SetupSystem.Step o nodes ⟨done.map (donePod o), .next (x :: later)⟩ _ :=
    .create x later pod (done.map (donePod o)) [] rfl hpod (List.append_nil _).symm
      fun p hp _ heq => by
        obtain ⟨y, hy, rfl⟩ := List.mem_map.mp hp
        rw [hname] at heq
        exact hx (podName_injective _ (Option.some.inj heq) ▸ hy)
  rw [hname] at hstep
  exact hstep

/-- **The nodes in their order**, each of which succeeds. -/
theorem SetupSystem.run_through (o : ReconfigureOptions) (nodes : List String)
    {done before later : List String} (hnd : (done ++ before).Nodup) :
    Relation.ReflTransGen (SetupSystem.Step o nodes)
      ⟨done.map (donePod o), .next (before ++ later)⟩
      ⟨(done ++ before).map (donePod o), .next later⟩ := by
  induction before generalizing done with
  | nil =>
    rw [List.append_nil, List.nil_append]
  | cons x before ih =>
    have hx : x ∉ done := fun h =>
      (List.nodup_append.mp hnd).2.2 x h x List.mem_cons_self rfl
    rw [List.append_cons] at hnd ⊢
    have hlast := ih hnd
    rw [@List.map_append _ _ (donePod o) done, List.map_singleton] at hlast
    have hproceed : SetupSystem.Step o nodes
        ⟨done.map (donePod o) ++ [pendingPod o x], .waiting x _⟩
        ⟨done.map (donePod o) ++ [donePod o x], .waiting x (before ++ later)⟩ :=
      .proceed (done.map (donePod o)) [] (pendingPod o x) "Succeeded" rfl (not_ended_pendingPod o x)
    have hpoll : SetupSystem.Step o nodes
        ⟨done.map (donePod o) ++ [donePod o x], .waiting x (before ++ later)⟩
        ⟨done.map (donePod o) ++ [donePod o x], .next (before ++ later)⟩ :=
      .poll x (before ++ later) (.ok (donePod o x :: done.map (donePod o))) (.ok ()) rfl
        (fun pods hpods => Except.ok.inj hpods ▸ (List.perm_append_singleton _ _).symm)
        (nodeVerdict_donePod o (decide_eq_true (List.infix_refl _)) _)
    exact .head (SetupSystem.exists_create o nodes hx) (.head hproceed (.head hpoll hlast))

/-- **A later name in an earlier one**: the command goes on while the node is being reconfigured. -/
theorem SetupSystem.exists_disorder (o : ReconfigureOptions) {before after : List String}
    {nodeName x : String} (hnodes : nodes = before ++ nodeName :: after) (hnd : nodes.Nodup)
    (hx : x ∈ before) (hlooks : looksLike nodeName x) :
    ∃ s, SetupSystem.Run o nodes [] s ∧ ¬ s.Orderly o nodes := by
  have hnd' := hnodes ▸ hnd
  obtain ⟨hbefore, -, hapart⟩ := List.nodup_append.mp hnd'
  have hnew : nodeName ∉ before := fun h => hapart nodeName h nodeName List.mem_cons_self rfl
  have hrun := @SetupSystem.run_through o nodes [] before (nodeName :: after) hbefore
  rw [List.nil_append, ← hnodes] at hrun
  obtain ⟨early, late, hsplit⟩ := List.append_of_mem (List.mem_map_of_mem (f := donePod o) hx)
  have hpoll : SetupSystem.Step o nodes
      ⟨before.map (donePod o) ++ [pendingPod o nodeName], .waiting nodeName after⟩
      ⟨before.map (donePod o) ++ [pendingPod o nodeName], .next after⟩ := by
    refine .poll nodeName after
      (.ok (donePod o x :: (early ++ late ++ [pendingPod o nodeName]))) (.ok ()) rfl
      (fun pods hpods => ?_) (nodeVerdict_donePod o hlooks _)
    obtain rfl := Except.ok.inj hpods
    rw [hsplit]
    exact (List.perm_middle.symm.append_right [pendingPod o nodeName] :)
  refine ⟨_, (hrun.tail (SetupSystem.exists_create o nodes hnew)).tail hpoll, fun h => ?_⟩
  exact h.none after rfl nodeName (hnodes ▸ by simp)
    ⟨_, List.mem_concat_self, ⟨rfl, rfl⟩, not_ended_pendingPod o nodeName⟩

/-- **One node at a time.**  On every cluster, in every run of `reconfigure_setup`, however the pods
and the others interleave with it: at most one node is being reconfigured, none when the command
goes on or returns, and it only goes on when the node has succeeded, exactly when no name that it
waits for is in that of a pod it created before. -/
theorem reconfigure_orderly_iff (o : ReconfigureOptions) (items : List NodeItem)
    (hitems : (items.map NodeItem.name).Nodup) (nodes : List String)
    (hnodes : getCmkNodes (.ok items) = .ok nodes) :
    (∀ pods s, (∀ pod ∈ pods, pod.Foreign nodes) → SetupSystem.Run o nodes pods s →
      s.Orderly o nodes) ↔
      nodes.Pairwise fun earlier later =>
        isIn (podName ["reconfigure"] later) (podName ["reconfigure"] earlier) = false := by
  have hnd := nodup_of_getCmkNodes hitems hnodes
  have hclear : Rolling.Clear looksLike nodes ↔ nodes.Pairwise fun earlier later =>
      isIn (podName ["reconfigure"] later) (podName ["reconfigure"] earlier) = false := by
    simp only [Rolling.Clear, looksLike, Bool.not_eq_true]
  rw [← hclear]
  constructor
  · intro h
    refine Rolling.clear_of_split fun before nodeName after hsplit x hx hlooks => ?_
    obtain ⟨s, hrun, hnot⟩ := SetupSystem.exists_disorder o hsplit hnd hx hlooks
    exact hnot (h [] s (List.forall_mem_nil _) hrun)
  · intro h pods s hforeign hrun
    exact hrun.orderly hnd h hforeign

/-- Options that a reconfiguration may have. -/
def someReconfigure : ReconfigureOptions :=
  ⟨"4", "1", "-1", "packed", "packed", "cmk:v1.5.2", "IfNotPresent", "/opt/bin", "cmk", "cmk"⟩

/-- Two nodes that are labelled, and one that is not scheduled. -/
def threeNodes : List NodeItem :=
  [⟨"node10", none, some [("cmk.intel.com/cmk-node", "true")]⟩,
    ⟨"node1", some false, some [("cmk.intel.com/cmk-node", "true")]⟩,
    ⟨"node2", some true, some [("cmk.intel.com/cmk-node", "true")]⟩]

/-- After `node10` the pod of `node1` is not waited for. -/
theorem reconfigure_orderly_iff_node10 : ¬ ∀ pods s,
    (∀ pod ∈ pods, pod.Foreign ["node10", "node1"]) →
      SetupSystem.Run someReconfigure ["node10", "node1"] pods s →
        s.Orderly someReconfigure ["node10", "node1"] := by
  rw [reconfigure_orderly_iff someReconfigure threeNodes (by decide) ["node10", "node1"] rfl]
  decide

end Cmk
