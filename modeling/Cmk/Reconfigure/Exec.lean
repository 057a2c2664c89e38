import Cmk.K8s

/-!
# Reconfigure/Exec — the containers `reconfigure` moves the processes of

`get_pods` takes the pods of the whole cluster, whatever their node, and drops those whose name is
that of the reconfigure pod; `execute_reconfigure` gives up a pod at the first container that cannot
be reached.  What is attempted is worked out in `attempts_eq`, and when that is the containers of
the node, each once, in `reaches_own_node_iff`.
-/

open Machinery

namespace Cmk

/-! ## `get_pods` -/

structure Pod where
  name : String
  namespaceName : String
  containers : List String

/-- `item["status"]["conditions"][0]["reason"]`. -/
def PodItem.reason (item : PodItem) : Except PyErr (Option String) :=
  match item.conditions with
  | none => .error .typeError
  | some [] => .error .indexError
  | some (reason :: _) => .ok reason

/-- The pod as it is handed on. -/
def PodItem.pod (item : PodItem) : Pod := ⟨item.name, item.namespaceName, item.containers⟩

def getPods (hostname : String) : List PodItem → Except PyErr (List Pod)
  | [] => .ok []
  | item :: items => do
    let reason ← item.reason
    let rest ← getPods hostname items
    return if reason ≠ some "PodCompleted" ∧ item.name ≠ hostname then item.pod :: rest else rest

/-! ## `execute_reconfigure` -/

/-- A call of `connect_get_namespaced_pod_exec`. -/
structure Exec where
  name : String
  namespaceName : String
  container : String
  command : List String
deriving DecidableEq

def execCommand (nodeName namespaceName : String) : List String :=
  ["/opt/bin/cmk", "reaffinitize", "--node-name=" ++ nodeName, "--namespace=" ++ namespaceName]

/-- The calls for the containers of a pod, and whether all of them returned. -/
def execContainers (fails : Exec → Bool) : List Exec → List Exec × Bool
  | [] => ([], true)
  | e :: es =>
    if fails e then ([e], false)
    else (e :: (execContainers fails es).1, (execContainers fails es).2)

/-- The rounds of the loop over the pods; `resp` says whether that variable has a value yet. -/
def execPods (fails : Exec → Bool) (command : List String) (resp : Bool) :
    List Pod → List Exec × Except PyErr Unit
  | [] => ([], .ok ())
  | pod :: pods =>
    let calls := pod.containers.map fun c => ⟨pod.name, pod.namespaceName, c, command⟩
    let (done, returned) := execContainers fails calls
    if returned then
      if resp ∨ done ≠ [] then
        (done ++ (execPods fails command true pods).1, (execPods fails command true pods).2)
      else (done, .error .unboundLocalError)
    else
      let resp := resp || (done.any fun e => !fails e)
      (done ++ (execPods fails command resp pods).1, (execPods fails command resp pods).2)

def executeReconfigure (fails : Exec → Bool) (nodeName namespaceName : String) (pods : List Pod) :
    List Exec × Except PyErr Unit :=
  execPods fails (execCommand nodeName namespaceName) false pods

/-- The calls of the two, one after the other. -/
def attempts (fails : Exec → Bool) (nodeName namespaceName hostname : String)
    (items : List PodItem) : List Exec :=
  match getPods hostname items with
  | .error _ => []
  | .ok pods => (executeReconfigure fails nodeName namespaceName pods).1

/-! ## What should be reached -/

namespace PodItem

/-- The API marks a pod whose containers have all ended by the reason of its first condition. -/
def Completed (item : PodItem) : Prop := item.reason = .ok (some "PodCompleted")

instance (item : PodItem) : Decidable item.Completed :=
  decidable_of_iff (item.reason.toOption = some (some "PodCompleted")) <| by
    rw [Completed]
    cases item.reason <;> simp [Except.toOption]

/-- The calls for the containers of a pod. -/
def calls (item : PodItem) (nodeName namespaceName : String) : List Exec :=
  item.containers.map fun c =>
    ⟨item.name, item.namespaceName, c, execCommand nodeName namespaceName⟩

end PodItem

/-- Every container of the node's other pods that are not completed gets one call, no container of
another node's pod gets any. -/
structure ReachesOwnNode (cluster : Cluster) (own : PodItem) (nodeName namespaceName : String)
    (execs : List Exec) : Prop where
  each : ∀ item ∈ cluster.pods, item.nodeName = some nodeName → ¬ item.Completed → item ≠ own →
    ∀ call ∈ item.calls nodeName namespaceName, execs.count call = 1
  only : ∀ e ∈ execs, ∀ item ∈ cluster.pods, item.key = (e.namespaceName, e.name) →
    ∀ other, item.nodeName = some other → other = nodeName

/-- The pods of the cluster leave `reconfigure` no other containers: every pod has a condition,
those picked are not on another node, and no other pod of the node has the name of the reconfigure
pod or a container that cannot be reached before its last. -/
structure Confined (cluster : Cluster) (own : PodItem) (fails : Exec → Bool)
    (nodeName namespaceName : String) : Prop where
  conditions : ∀ item ∈ cluster.pods, IsOk item.reason
  picked : ∀ item ∈ cluster.pods, ¬ item.Completed → item.name ≠ own.name →
    ∀ other, item.nodeName = some other → other = nodeName
  reachable : ∀ item ∈ cluster.pods, item.nodeName = some nodeName → ¬ item.Completed → item ≠ own →
    item.name ≠ own.name ∧ ∀ call ∈ (item.calls nodeName namespaceName).dropLast, ¬ fails call

/-- No pod is left to reach. -/
def NothingToReach (cluster : Cluster) (own : PodItem) (nodeName : String) : Prop :=
  ∀ item ∈ cluster.pods, item.nodeName = some nodeName → ¬ item.Completed → item = own

/-! ## The calls for one pod -/

section Calls

variable {fails : Exec → Bool} {calls : List Exec}

theorem execContainers_sublist (fails : Exec → Bool) (calls : List Exec) :
    (execContainers fails calls).1.Sublist calls := by
  induction calls with
  | nil => exact .slnil
  | cons e es ih =>
    rw [execContainers]
    split
    · exact (List.nil_sublist es).cons_cons e
    · exact ih.cons_cons e

theorem head_mem_execContainers (fails : Exec → Bool) (e : Exec) (es : List Exec) :
    e ∈ (execContainers fails (e :: es)).1 := by
  rw [execContainers]
  split <;> exact List.mem_cons_self

/-- **All containers are tried exactly when none before the last fails.** -/
theorem subset_execContainers_iff (hnd : calls.Nodup) :
    (∀ call ∈ calls, call ∈ (execContainers fails calls).1) ↔
      ∀ call ∈ calls.dropLast, ¬ fails call := by
  induction calls with
  | nil => simp
  | cons e es ih =>
    obtain ⟨he, hnd⟩ := List.nodup_cons.mp hnd
    rw [execContainers]
    cases es with
    | nil => split <;> simp
    | cons e' es =>
      have hlast : (∀ call ∈ (e :: e' :: es).dropLast, ¬ fails call) ↔
          ¬ fails e ∧ ∀ call ∈ (e' :: es).dropLast, ¬ fails call := by
        rw [List.dropLast_cons_of_ne_nil (List.cons_ne_nil e' es), List.forall_mem_cons]
      rw [hlast]
      by_cases hfail : fails e
      · rw [if_pos hfail]
        refine iff_of_false (fun h => ?_) fun h => h.1 hfail
        have heq : e' = e := List.mem_singleton.mp (h e' (by simp))
        exact he (heq ▸ List.mem_cons_self)
      · rw [if_neg hfail, ← ih hnd, and_iff_right hfail]
        constructor
        · intro h call hcall
          refine (List.mem_cons.mp (h call (List.mem_cons_of_mem e hcall))).resolve_left ?_
          rintro rfl
          exact he hcall
        · intro h call hcall
          rcases List.mem_cons.mp hcall with rfl | hcall
          · exact List.mem_cons_self
          · exact List.mem_cons_of_mem e (h call hcall)

/-- With a container in every pod, the loop goes through them all. -/
theorem execPods_eq {command : List String} {pods : List Pod}
    (h : ∀ pod ∈ pods, pod.containers ≠ []) (resp : Bool) :
    (execPods fails command resp pods).1 = pods.flatMap fun pod => (execContainers fails
      (pod.containers.map fun c => ⟨pod.name, pod.namespaceName, c, command⟩)).1 := by
  induction pods generalizing resp with
  | nil => rfl
  | cons pod pods ih =>
    obtain ⟨hpod, hpods⟩ := List.forall_mem_cons.mp h
    obtain ⟨c, cs, hcs⟩ := List.exists_cons_of_ne_nil hpod
    rw [List.flatMap_cons, execPods]
    have hdone : (execContainers fails
        (pod.containers.map fun c => ⟨pod.name, pod.namespaceName, c, command⟩)).1 ≠ [] := by
      rw [hcs, List.map_cons]
      exact List.ne_nil_of_mem (head_mem_execContainers _ _ _)
    dsimp only
    split
    · rw [if_pos (.inr hdone), ih hpods]
    · rw [ih hpods]

end Calls

/-! ## The calls for all of them -/

section Pods

variable {cluster : Cluster} {own item : PodItem} {fails : Exec → Bool}
  {nodeName namespaceName hostname : String}

/-- The pod is handed on. -/
def Picked (hostname : String) (item : PodItem) : Prop := ¬ item.Completed ∧ item.name ≠ hostname

instance (hostname : String) (item : PodItem) : Decidable (Picked hostname item) :=
  inferInstanceAs (Decidable (_ ∧ _))

theorem getPods_eq {items : List PodItem} (h : ∀ item ∈ items, IsOk item.reason) :
    getPods hostname items = .ok ((items.filter (Picked hostname)).map PodItem.pod) := by
  induction items with
  | nil => rfl
  | cons item items ih =>
    obtain ⟨⟨reason, hreason⟩, hrest⟩ := List.forall_mem_cons.mp h
    have hdone : item.Completed ↔ reason = some "PodCompleted" := by
      rw [PodItem.Completed, hreason, Except.ok.injEq]
    have hpick : (reason ≠ some "PodCompleted" ∧ item.name ≠ hostname) ↔ Picked hostname item :=
      and_congr_left' (not_congr hdone.symm)
    refine bind_eq_ok.mpr ⟨reason, hreason, bind_eq_ok.mpr ⟨_, ih hrest, pure_eq_ok.mpr ?_⟩⟩
    by_cases hp : Picked hostname item
    · rw [if_pos (hpick.mpr hp), List.filter_cons_of_pos (by simpa using hp), List.map_cons]
    · rw [if_neg (mt hpick.mp hp), List.filter_cons_of_neg (by simpa using hp)]

theorem not_isOk_getPods {items : List PodItem} (h : ∃ item ∈ items, ¬ IsOk item.reason) :
    ¬ IsOk (getPods hostname items) := by
  induction items with
  | nil => simp at h
  | cons item items ih =>
    intro hok
    obtain ⟨reason, hreason, hok⟩ := isOk_bind.mp hok
    obtain ⟨rest, hrest, -⟩ := isOk_bind.mp hok
    obtain ⟨x, hx, hno⟩ := h
    rcases List.mem_cons.mp hx with rfl | hx
    · exact hno ⟨reason, hreason⟩
    · exact ih ⟨x, hx, hno⟩ ⟨rest, hrest⟩

/-- **What is attempted**: the containers of every pod picked, up to the first that fails. -/
theorem attempts_eq {items : List PodItem} (h : ∀ item ∈ items, IsOk item.reason) :
    attempts fails nodeName namespaceName hostname items =
      (items.filter (Picked hostname)).flatMap fun item =>
        (execContainers fails (item.calls nodeName namespaceName)).1 := by
  rw [attempts, getPods_eq h]
  refine (execPods_eq (fun pod hpod => ?_) false).trans (by rw [List.flatMap_map]; rfl)
  obtain ⟨item, -, rfl⟩ := List.mem_map.mp hpod
  exact item.containers_ne_nil

theorem attempts_of_error {items : List PodItem} (h : ∃ item ∈ items, ¬ IsOk item.reason) :
    attempts fails nodeName namespaceName hostname items = [] := by
  rw [attempts]
  split
  · rfl
  · rename_i pods hpods
    exact absurd ⟨pods, hpods⟩ (not_isOk_getPods h)

theorem key_of_mem_calls {call : Exec} (h : call ∈ item.calls nodeName namespaceName) :
    item.key = (call.namespaceName, call.name) := by
  obtain ⟨c, -, rfl⟩ := List.mem_map.mp h
  rfl

theorem nodup_calls (item : PodItem) : (item.calls nodeName namespaceName).Nodup :=
  item.containers_nodup.map fun _ _ h => (Exec.mk.inj h).2.2.1

theorem Cluster.eq_of_key (cluster : Cluster) {item item' : PodItem} (h : item ∈ cluster.pods)
    (h' : item' ∈ cluster.pods) (hkey : item.key = item'.key) : item = item' :=
  List.inj_on_of_nodup_map cluster.unique h h' hkey

/-- No call is made twice. -/
theorem nodup_attempts (h : ∀ item ∈ cluster.pods, IsOk item.reason) :
    (attempts fails nodeName namespaceName hostname cluster.pods).Nodup := by
  rw [attempts_eq h, List.nodup_flatMap]
  refine ⟨fun item _ => (nodup_calls item).sublist (execContainers_sublist _ _), ?_⟩
  have hkeys := List.pairwise_map.mp cluster.unique
  refine (hkeys.filter _).imp fun {item item'} hne call hc hc' => hne ?_
  rw [key_of_mem_calls ((execContainers_sublist _ _).subset hc),
    key_of_mem_calls ((execContainers_sublist _ _).subset hc')]

/-- A pod whose container is reached was picked. -/
theorem picked_of_mem_attempts (h : ∀ item ∈ cluster.pods, IsOk item.reason)
    (hitem : item ∈ cluster.pods) {call : Exec}
    (hcall : call ∈ attempts fails nodeName namespaceName hostname cluster.pods)
    (hkey : item.key = (call.namespaceName, call.name)) :
    Picked hostname item ∧
      call ∈ (execContainers fails (item.calls nodeName namespaceName)).1 := by
  rw [attempts_eq h, List.mem_flatMap] at hcall
  obtain ⟨item', hitem', hc⟩ := hcall
  obtain ⟨hmem, hpick⟩ := List.mem_filter.mp hitem'
  have hkey' := key_of_mem_calls ((execContainers_sublist _ _).subset hc)
  obtain rfl := cluster.eq_of_key hitem hmem (hkey.trans hkey'.symm)
  exact ⟨by simpa using hpick, hc⟩

/-- The call for a container is made exactly when its pod is picked and the loop gets to it. -/
theorem mem_attempts (h : ∀ item ∈ cluster.pods, IsOk item.reason) (hitem : item ∈ cluster.pods)
    {call : Exec} (hcall : call ∈ item.calls nodeName namespaceName) :
    call ∈ attempts fails nodeName namespaceName hostname cluster.pods ↔
      Picked hostname item ∧
        call ∈ (execContainers fails (item.calls nodeName namespaceName)).1 := by
  constructor
  · intro hmem
    exact picked_of_mem_attempts h hitem hmem (key_of_mem_calls hcall)
  · rintro ⟨hpick, hc⟩
    rw [attempts_eq h, List.mem_flatMap]
    exact ⟨item, List.mem_filter.mpr ⟨hitem, by simpa using hpick⟩, hc⟩

/-- A pod has a first container. -/
theorem exists_calls_eq_cons (item : PodItem) (nodeName namespaceName : String) :
    ∃ first rest, item.calls nodeName namespaceName = first :: rest := by
  obtain ⟨c, cs, hcs⟩ := List.exists_cons_of_ne_nil item.containers_ne_nil
  exact ⟨_, _, by rw [PodItem.calls, hcs, List.map_cons]⟩

/-- A pod gets all its calls once exactly when it is picked and none before the last fails. -/
theorem each_iff (h : ∀ item ∈ cluster.pods, IsOk item.reason) (hitem : item ∈ cluster.pods) :
    (∀ call ∈ item.calls nodeName namespaceName,
      (attempts fails nodeName namespaceName hostname cluster.pods).count call = 1) ↔
      Picked hostname item ∧
        ∀ call ∈ (item.calls nodeName namespaceName).dropLast, ¬ fails call := by
  have hcount : ∀ call ∈ item.calls nodeName namespaceName,
      ((attempts fails nodeName namespaceName hostname cluster.pods).count call = 1 ↔
        Picked hostname item ∧
          call ∈ (execContainers fails (item.calls nodeName namespaceName)).1) := by
    intro call hcall
    rw [← mem_attempts h hitem hcall]
    exact ⟨fun hone => List.count_pos_iff.mp (by omega),
      fun hmem => List.count_eq_one_of_mem (nodup_attempts h) hmem⟩
  rw [← subset_execContainers_iff (nodup_calls item)]
  constructor
  · intro hall
    obtain ⟨first, rest, hcalls⟩ := exists_calls_eq_cons item nodeName namespaceName
    have hfirst : first ∈ item.calls nodeName namespaceName := hcalls ▸ List.mem_cons_self
    exact ⟨((hcount _ hfirst).mp (hall _ hfirst)).1,
      fun call hcall => ((hcount call hcall).mp (hall call hcall)).2⟩
  · rintro ⟨hpick, hall⟩ call hcall
    exact (hcount call hcall).mpr ⟨hpick, hall call hcall⟩

/-- Every pod picked gets a call. -/
theorem exists_attempt (h : ∀ item ∈ cluster.pods, IsOk item.reason) (hitem : item ∈ cluster.pods)
    (hpick : Picked hostname item) :
    ∃ call ∈ attempts fails nodeName namespaceName hostname cluster.pods,
      call ∈ item.calls nodeName namespaceName := by
  obtain ⟨first, rest, hcalls⟩ := exists_calls_eq_cons item nodeName namespaceName
  have hcall : first ∈ item.calls nodeName namespaceName := hcalls ▸ List.mem_cons_self
  exact ⟨first, (mem_attempts h hitem hcall).mpr
    ⟨hpick, hcalls ▸ head_mem_execContainers _ _ _⟩, hcall⟩

/-- Where the list of pods is read to its end. -/
theorem reachesOwnNode_iff_confined {own : PodItem}
    (h : ∀ item ∈ cluster.pods, IsOk item.reason) :
    ReachesOwnNode cluster own nodeName namespaceName
        (attempts fails nodeName namespaceName own.name cluster.pods) ↔
      Confined cluster own fails nodeName namespaceName := by
  constructor
  · intro hreach
    refine ⟨h, fun item hitem hrun hname other hother => ?_, fun item hitem hnode hrun hne => ?_⟩
    · obtain ⟨call, hmem, hcall⟩ := exists_attempt h hitem ⟨hrun, hname⟩
      exact hreach.only call hmem item hitem (key_of_mem_calls hcall) other hother
    · obtain ⟨hpick, hlast⟩ := (each_iff h hitem).mp (hreach.each item hitem hnode hrun hne)
      exact ⟨hpick.2, hlast⟩
  · intro hconf
    refine ⟨fun item hitem hnode hrun hne => ?_, fun e he item hitem hkey other hother => ?_⟩
    · obtain ⟨hname, hlast⟩ := hconf.reachable item hitem hnode hrun hne
      exact (each_iff h hitem).mpr ⟨⟨hrun, hname⟩, hlast⟩
    · obtain ⟨⟨hrun, hname⟩, -⟩ := picked_of_mem_attempts h hitem he hkey
      exact hconf.picked item hitem hrun hname other hother

/-- Where nothing is attempted. -/
theorem reachesOwnNode_nil_iff {own : PodItem} :
    ReachesOwnNode cluster own nodeName namespaceName [] ↔
      NothingToReach cluster own nodeName := by
  constructor
  · intro hreach item hitem hnode hrun
    by_contra hne
    obtain ⟨first, rest, hcalls⟩ := exists_calls_eq_cons item nodeName namespaceName
    have hone := hreach.each item hitem hnode hrun hne first (hcalls ▸ List.mem_cons_self)
    simp at hone
  · intro hnothing
    exact ⟨fun item hitem hnode hrun hne => absurd (hnothing item hitem hnode hrun) hne,
      fun e he => absurd he List.not_mem_nil⟩

/-- **`reconfigure` reaches its own node**, every container once and no other node's, exactly when
the pods of the cluster leave it nothing else, or there is nothing to reach and the list of pods is
not read to its end. -/
theorem reaches_own_node_iff (cluster : Cluster) (own : PodItem) (fails : Exec → Bool)
    (nodeName namespaceName : String) :
    ReachesOwnNode cluster own nodeName namespaceName
        (attempts fails nodeName namespaceName own.name cluster.pods) ↔
      Confined cluster own fails nodeName namespaceName ∨
        (∃ item ∈ cluster.pods, ¬ IsOk item.reason) ∧ NothingToReach cluster own nodeName := by
  by_cases h : ∀ item ∈ cluster.pods, IsOk item.reason
  · have hall : ¬ ∃ item ∈ cluster.pods, ¬ IsOk item.reason := by
      simpa using h
    rw [or_iff_left fun hno => hall hno.1]
    exact reachesOwnNode_iff_confined h
  · have hsome : ∃ item ∈ cluster.pods, ¬ IsOk item.reason := by
      simpa using h
    rw [attempts_of_error hsome, or_iff_right fun hconf : Confined _ _ _ _ _ => h hconf.conditions,
      and_iff_right hsome]
    exact reachesOwnNode_nil_iff

end Pods

/-- The reconfigure pod with one pod on its node and one on another. -/
def twoNodes : Cluster :=
  ⟨[runningPod "cmk" "reconfigure" "node1", runningPod "default" "web" "node1",
    runningPod "default" "db" "node2"], by decide⟩

/-- The command also runs in the pod of the other node. -/
theorem reconfigure_reaches_other_node :
    ¬ ReachesOwnNode twoNodes (runningPod "cmk" "reconfigure" "node1") "node1" "cmk"
      (attempts (fun _ => false) "node1" "cmk" "reconfigure" twoNodes.pods) := by
  intro h
  have honly := h.only ⟨"db", "default", "main", execCommand "node1" "cmk"⟩ (by decide)
    (runningPod "default" "db" "node2") (by decide) rfl "node2" rfl
  exact absurd honly (by decide)

end Cmk
