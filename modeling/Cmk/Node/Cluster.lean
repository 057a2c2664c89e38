import Cmk.K8s
import Cmk.Node.Exclusion

/-!
# Node/Cluster — the nodes of a cluster, each with a configmap of its own

A process changes the processes of its own node, and the configmap of the node that the API names
for its pod, which is that of the first pod listed under the pod's name.  Where the pods of a name
are all on one node, a cluster is its nodes side by side (`CmkCluster.Run.node`), and no two
processes of a node ever hold an exclusive CPU in common; with two pods of a name on two nodes they
can (`cluster_exclusive_iff`).
-/

open Machinery

namespace Cmk

/-- The nodes by their names. -/
abbrev CmkCluster (ι : String → Type) := (nodeName : String) → Node (ι nodeName)

variable {ι : String → Type}

/-- The nodes after a process of one has changed a configmap, be it its own node's or another's. -/
def CmkCluster.put (s : CmkCluster ι) (nodeName owner : String) (t : Node (ι nodeName)) :
    CmkCluster ι :=
  Function.update (Function.update s owner { s owner with config := t.config }) nodeName
    ⟨if nodeName = owner then t.config else (s nodeName).config, t.wrappers⟩

/-- The node whose configmap a process in the pod acts on. -/
def nodeActedOn (listing : List PodItem) (pod : PodItem) : String :=
  (getNodeFromPod listing pod.name).getD "None"

/-- One step of one process, with the pods in whatever order the API lists them to it. -/
inductive CmkCluster.Step [∀ nodeName, DecidableEq (ι nodeName)] (ctor : Except PyErr Unit)
    (pods : List PodItem) : CmkCluster ι → CmkCluster ι → Prop
  | act {s : CmkCluster ι} (listing : List PodItem) (pod : PodItem) (nodeName : String)
      (t : Node (ι nodeName)) (hlisting : listing.Perm pods) (hpod : pod ∈ pods)
      (hnode : pod.nodeName = some nodeName)
      (hs : Node.Step ctor ⟨(s (nodeActedOn listing pod)).config, (s nodeName).wrappers⟩ t) :
      Step ctor pods s (s.put nodeName (nodeActedOn listing pod) t)

/-- What the cluster can reach from the configmaps of its nodes. -/
def CmkCluster.Run [∀ nodeName, DecidableEq (ι nodeName)] (ctor : Except PyErr Unit)
    (pods : List PodItem) (d : String → ConfDict String String) : CmkCluster ι → Prop :=
  Relation.ReflTransGen (CmkCluster.Step ctor pods) fun nodeName => Node.fresh (d nodeName)

/-- The pods that share a name are on one node. -/
def NamedByNode (pods : List PodItem) : Prop :=
  ∀ pod ∈ pods, ∀ nodeName, pod.nodeName = some nodeName →
    ∀ p ∈ pods, p.name = pod.name → p.nodeName.getD "None" = nodeName

/-- Two processes of a node that have not released never have a CPU of an exclusive pool in common.
-/
def CmkCluster.Exclusive (s : CmkCluster ι) : Prop :=
  ∀ nodeName i j pid pid' pool pool' clists clists', i ≠ j →
    ((s nodeName).wrappers i).Unreleased pid pool clists →
    ((s nodeName).wrappers j).Unreleased pid' pool' clists' → exclusivity pool = some true →
    ∀ cl ∈ clists, ∀ cl' ∈ clists', CpuDisjoint cl cl'

/-! ## The nodes side by side -/

section Put

variable {s : CmkCluster ι} {nodeName owner : String} {t : Node (ι nodeName)}

theorem CmkCluster.put_own : s.put nodeName nodeName t = Function.update s nodeName t := by
  rw [CmkCluster.put, if_pos rfl, Function.update_idem]

theorem CmkCluster.wrappers_put : ((s.put nodeName owner t) nodeName).wrappers = t.wrappers := by
  rw [CmkCluster.put, Function.update_self]

theorem CmkCluster.config_put (k : String) :
    ((s.put nodeName owner t) k).config = if k = owner then t.config else (s k).config := by
  rw [CmkCluster.put]
  by_cases hk : k = nodeName
  · subst hk
    rw [Function.update_self]
  · rw [Function.update_of_ne hk]
    by_cases ho : k = owner
    · subst ho
      rw [Function.update_self, if_pos rfl]
    · rw [Function.update_of_ne ho, if_neg ho]

end Put

/-- **A process acts on its own node**, where the pods of a name are on one. -/
theorem NamedByNode.nodeActedOn {pods listing : List PodItem} (h : NamedByNode pods)
    (hlisting : listing.Perm pods) {pod : PodItem} (hpod : pod ∈ pods) {nodeName : String}
    (hnode : pod.nodeName = some nodeName) : nodeActedOn listing pod = nodeName := by
  cases hfound : listing.find? fun p => p.name = pod.name with
  | none =>
    have hno := List.find?_eq_none.mp hfound pod (hlisting.mem_iff.mpr hpod)
    simp at hno
  | some p =>
    have hname : p.name = pod.name := by simpa using List.find?_some hfound
    rw [Cmk.nodeActedOn, getNodeFromPod, hfound]
    exact h pod hpod nodeName hnode p (hlisting.mem_iff.mp (List.mem_of_find?_eq_some hfound)) hname

section Runs

variable [∀ nodeName, DecidableEq (ι nodeName)] {ctor : Except PyErr Unit} {pods : List PodItem}
  {d : String → ConfDict String String} {s : CmkCluster ι}

/-- **Every run of the cluster is a run of each node.** -/
theorem CmkCluster.Run.node (hpods : NamedByNode pods) (h : CmkCluster.Run ctor pods d s)
    (nodeName : String) : Node.Run ctor (d nodeName) (s nodeName) := by
  induction h with
  | refl => exact .refl
  | @tail s s' _ hstep ih =>
    cases hstep with
    | act listing pod k t hlisting hpod hnode hs =>
      rw [hpods.nodeActedOn hlisting hpod hnode] at hs ⊢
      rw [CmkCluster.put_own]
      by_cases hk : nodeName = k
      · subst hk
        rw [Function.update_self]
        exact ih.tail hs
      · rw [Function.update_of_ne hk]
        exact ih

end Runs

/-! ## Two pods of a name -/

/-- What a process takes of two free lists, under a pid. -/
def firstTaken (pid : ℤ) : Conf String String :=
  (isolateSection (τ := String) ⟨"exclusive", some "-1"⟩ ⟨none, 0, fun _ => .ok pid⟩
    ⟨twoLists.map buildPool name_buildPool⟩).2

theorem take_first (ctor : Except PyErr Unit) {s : Node ℕ} {i : ℕ} {pid : ℤ}
    (hconfig : s.config = twoLists) (hi : s.wrappers i = .started pid) :
    Node.Step ctor s ⟨buildConfigmap (firstTaken pid),
      Function.update s.wrappers i (.holding pid "exclusive" ["1"])⟩ := by
  refine .allocate i pid ⟨"exclusive", some "-1"⟩ ⟨none, 0, fun _ => .ok pid⟩
    ⟨twoLists.map buildPool name_buildPool⟩ (firstTaken pid) ["1"] hi ⟨twoLists, ?_, rfl⟩
    (by simp) rfl
  exact hconfig ▸ .refl _

/-- A process that starts on a node takes the first list of the configmap it acts on. -/
theorem CmkCluster.exists_take (ctor : Except PyErr Unit) {pods listing : List PodItem}
    (hlisting : listing.Perm pods) {pod : PodItem} (hpod : pod ∈ pods) {nodeName owner : String}
    (hnode : pod.nodeName = some nodeName) (howner : nodeActedOn listing pod = owner)
    {s : CmkCluster fun _ => ℕ} (i : ℕ) (pid : ℤ) (hconfig : (s owner).config = twoLists)
    (hi : (s nodeName).wrappers i = .absent) (hpid : ¬ (s nodeName).Live pid) :
    ∃ s', Relation.ReflTransGen (CmkCluster.Step ctor pods) s s' ∧
      (s' nodeName).wrappers =
        Function.update (s nodeName).wrappers i (.holding pid "exclusive" ["1"]) ∧
      ∀ k, k ≠ owner → (s' k).config = (s k).config := by
  subst howner
  have hstart : CmkCluster.Step ctor pods s (s.put nodeName (nodeActedOn listing pod)
      ⟨(s (nodeActedOn listing pod)).config,
        Function.update (s nodeName).wrappers i (.started pid)⟩) :=
    .act listing pod nodeName _ hlisting hpod hnode (.start i pid hi hpid)
  generalize hs' : s.put nodeName (nodeActedOn listing pod)
    ⟨(s (nodeActedOn listing pod)).config,
      Function.update (s nodeName).wrappers i (.started pid)⟩ = s' at hstart
  have hconfig' : (s' (nodeActedOn listing pod)).config = twoLists := by
    rw [← hs', CmkCluster.config_put, if_pos rfl]
    exact hconfig
  have hwrappers' : (s' nodeName).wrappers =
      Function.update (s nodeName).wrappers i (.started pid) := by
    rw [← hs', CmkCluster.wrappers_put]
  have hothers' : ∀ k, k ≠ nodeActedOn listing pod → (s' k).config = (s k).config :=
    fun k hk => by rw [← hs', CmkCluster.config_put, if_neg hk]
  have hstarted : (s' nodeName).wrappers i = .started pid := by
    rw [hwrappers', Function.update_self]
  refine ⟨_, .tail (.single hstart) (.act listing pod nodeName _ hlisting hpod hnode
    (take_first ctor hconfig' hstarted)), ?_, fun k hk => ?_⟩
  · rw [CmkCluster.wrappers_put, hwrappers', Function.update_idem]
  · rw [CmkCluster.config_put, if_neg hk, hothers' k hk]

/-- A pod that may be listed first. -/
theorem exists_listing {pods : List PodItem} {p pod : PodItem} (hp : p ∈ pods)
    (hname : p.name = pod.name) :
    ∃ listing : List PodItem, listing.Perm pods ∧
      nodeActedOn listing pod = p.nodeName.getD "None" := by
  obtain ⟨before, after, rfl⟩ := List.append_of_mem hp
  refine ⟨p :: (before ++ after), List.perm_middle.symm, ?_⟩
  rw [nodeActedOn, getNodeFromPod, List.find?_cons_of_pos (by simpa using hname)]
  rfl

/-- **Two pods of a name on two nodes**: two processes of one node take the same CPU, each from
another configmap. -/
theorem CmkCluster.exists_shared (ctor : Except PyErr Unit) {pods : List PodItem}
    (h : ¬ NamedByNode pods) : ∃ s : CmkCluster fun _ => ℕ,
      CmkCluster.Run ctor pods (fun _ => twoLists) s ∧ ¬ s.Exclusive := by
  simp only [NamedByNode, not_forall] at h
  obtain ⟨pod, hpod, nodeName, hnode, p, hp, hname, hother⟩ := h
  obtain ⟨listing, hlisting, howner⟩ := exists_listing hp hname
  obtain ⟨listing', hlisting', howner'⟩ := exists_listing hpod rfl
  rw [hnode, Option.getD_some] at howner'
  obtain ⟨s, hrun, hwrappers, hconfig⟩ := CmkCluster.exists_take ctor hlisting hpod hnode howner
    (s := fun _ => Node.fresh twoLists) 0 7 rfl rfl
    (by simp [Node.Live, Node.fresh, Wrapper.pid?])
  have habsent : (s nodeName).wrappers 1 = .absent := by
    rw [hwrappers]
    rfl
  have hnew : ¬ (s nodeName).Live 8 := by
    rintro ⟨i, hi⟩
    rw [hwrappers] at hi
    by_cases hzero : i = 0
    · subst hzero
      simp [Wrapper.pid?] at hi
    · rw [Function.update_of_ne hzero] at hi
      cases hi
  obtain ⟨s', hrun', hwrappers', -⟩ := CmkCluster.exists_take ctor hlisting' hpod hnode howner'
    (s := s) 1 8 (hconfig nodeName fun h => hother h.symm) habsent hnew
  refine ⟨s', hrun.trans hrun', fun hexclusive => ?_⟩
  rw [hwrappers] at hwrappers'
  have hfirst : ((s' nodeName).wrappers 0).Unreleased 7 "exclusive" ["1"] := by
    rw [hwrappers']
    exact .holding ..
  have hsecond : ((s' nodeName).wrappers 1).Unreleased 8 "exclusive" ["1"] := by
    rw [hwrappers']
    exact .holding ..
  have hshared := hexclusive nodeName 0 1 7 8 "exclusive" "exclusive" ["1"] ["1"] zero_ne_one
    hfirst hsecond rfl "1" List.mem_cons_self "1" List.mem_cons_self
  exact absurd hshared (by decide)

/-- **Exclusive mutual exclusion on a cluster.**  With whatever fresh configmaps, wherever the
processes start and die and in whatever order the API lists the pods, no two processes of a node
ever have an exclusive CPU in common, exactly when pods that share a name are on one node. -/
theorem cluster_exclusive_iff (ctor : Except PyErr Unit) (pods : List PodItem) :
    (∀ d : String → ConfDict String String, (∀ nodeName, (d nodeName).Fresh) →
      ∀ s : CmkCluster fun _ => ℕ, CmkCluster.Run ctor pods d s → s.Exclusive) ↔
      NamedByNode pods := by
  constructor
  · intro h
    by_contra hnot
    obtain ⟨s, hrun, hshared⟩ := CmkCluster.exists_shared ctor hnot
    exact hshared (h (fun _ => twoLists) (fun _ => twoLists_fresh) s hrun)
  · intro hpods d hd s hrun nodeName
    exact ((hrun.node hpods nodeName).sound (hd nodeName)).exclusive.disjoint

end Cmk
