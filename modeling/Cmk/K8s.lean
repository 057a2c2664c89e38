import Cmk.Commands

/-!
# K8s — the pods of the cluster, and the node a command takes for its own

`get_node_from_pod` scans the pods of all namespaces for the first of a name; the name alone does
not say which pod it is.  So a command acts on the configmap of its own node, in whatever order the
pods are listed, exactly when every pod of its name is on that node (`acts_on_own_node_iff`).
-/

open Machinery

namespace Cmk

/-- A pod as the API lists it: the reasons of its conditions, where it has conditions, and the names
of its containers, of which there is at least one. -/
structure PodItem where
  name : String
  namespaceName : String
  nodeName : Option String
  conditions : Option (List (Option String))
  containers : List String
  containers_ne_nil : containers ≠ []
  containers_nodup : containers.Nodup
deriving DecidableEq

/-- A name is unique within its namespace. -/
abbrev PodItem.key (item : PodItem) : String × String := (item.namespaceName, item.name)

/-- The pods of a cluster, in the order they are listed. -/
structure Cluster where
  pods : List PodItem
  unique : (pods.map PodItem.key).Nodup

def getNodeFromPod (pods : List PodItem) (podName : String) : Option String :=
  (pods.find? fun p => p.name = podName).bind PodItem.nodeName

/-- `"cmk-config-{}".format(node_name)`. -/
def configmapName (nodeName : Option String) : String := "cmk-config-" ++ nodeName.getD "None"

variable {V : Type}

/-- The objects a command locks and unlocks its configmap with, from what the API lists when they
are built: `isolate` builds one more in its last `finally` block, out of two arguments. -/
def Command.configs (cmd : Command) (pods pods' : List PodItem) (podName cmNamespace : String) :
    List (Config V String (Conf Scalar Yaml)) :=
  let first := .init (configmapName (getNodeFromPod pods podName)) podName cmNamespace
  match cmd with
  | .isolate _ _ =>
    first :: (Config.call [configmapName (getNodeFromPod pods' podName), podName]).toOption.toList
  | _ => [first]

/-- Every configmap the command locks, reads and writes is that of the node. -/
def Command.ActsOn (cmd : Command) (nodeName : String) (pods pods' : List PodItem)
    (podName cmNamespace : String) : Prop :=
  ∀ self ∈ (cmd.configs pods pods' podName cmNamespace : List (Config ℕ String (Conf Scalar Yaml))),
    self.cmName = configmapName (some nodeName)

/-! ## The first pod of a name -/

theorem configmapName_injective {nodeName nodeName' : Option String}
    (h : configmapName nodeName = configmapName nodeName') :
    nodeName.getD "None" = nodeName'.getD "None" := by
  have hlist := congrArg String.toList h
  rw [configmapName, configmapName, String.toList_append, String.toList_append] at hlist
  exact String.toList_injective (List.append_cancel_left hlist)

/-- The objects are all for the configmap of the pod found first. -/
theorem Command.actsOn_iff (cmd : Command) (nodeName : String) (pods pods' : List PodItem)
    (podName cmNamespace : String) : cmd.ActsOn nodeName pods pods' podName cmNamespace ↔
      (getNodeFromPod pods podName).getD "None" = nodeName := by
  have hfirst : ∀ self : Config ℕ String (Conf Scalar Yaml),
      self ∈ cmd.configs pods pods' podName cmNamespace ↔
        self = .init (configmapName (getNodeFromPod pods podName)) podName cmNamespace := by
    intro self
    cases cmd <;> simp [Command.configs, Config.call, Except.toOption]
  rw [Command.ActsOn]
  constructor
  · intro h
    exact configmapName_injective (h _ ((hfirst _).mpr rfl))
  · rintro rfl self hself
    rw [(hfirst self).mp hself]
    rfl

/-- **A command acts on its own node**, however the pods are listed, exactly when every pod of its
name, in whatever namespace, is on that node. -/
theorem acts_on_own_node_iff (cluster : Cluster) (own : PodItem) (hown : own ∈ cluster.pods)
    (nodeName : String) (cmd : Command) (cmNamespace : String) :
    (∀ pods pods' : List PodItem, pods.Perm cluster.pods → pods'.Perm cluster.pods →
      cmd.ActsOn nodeName pods pods' own.name cmNamespace) ↔
      ∀ item ∈ cluster.pods, item.name = own.name → item.nodeName.getD "None" = nodeName := by
  simp only [Command.actsOn_iff]
  constructor
  · intro h item hitem hname
    obtain ⟨before, after, hpods⟩ := List.append_of_mem hitem
    have hperm : (item :: (before ++ after)).Perm cluster.pods := hpods ▸ List.perm_middle.symm
    have hfirst := h _ _ hperm (.refl _)
    rwa [getNodeFromPod, List.find?_cons_of_pos (by simpa using hname)] at hfirst
  · intro h pods _ hperm _
    cases hfound : pods.find? fun p => p.name = own.name with
    | none =>
      have hno := List.find?_eq_none.mp hfound own (hperm.mem_iff.mpr hown)
      simp at hno
    | some item =>
      have hname : item.name = own.name := by simpa using List.find?_some hfound
      rw [getNodeFromPod, hfound]
      exact h item (hperm.mem_iff.mp (List.mem_of_find?_eq_some hfound)) hname

/-- A running pod with one container. -/
def runningPod (namespaceName name nodeName : String) : PodItem :=
  ⟨name, namespaceName, some nodeName, some [none], ["main"], by decide, by decide⟩

/-- Two namespaces with a pod of one name, on two nodes. -/
def twoNamespaces : Cluster :=
  ⟨[runningPod "a" "web-0" "node1", runningPod "b" "web-0" "node2"], by decide⟩

/-- Two pods of different names, on two nodes. -/
def twoNames : Cluster :=
  ⟨[runningPod "a" "db-0" "node1", runningPod "b" "web-0" "node2"], by decide⟩

theorem acts_on_own_node_alone :
    (Command.reconcile none).ActsOn "node2" twoNames.pods twoNames.pods.reverse "web-0" "default" :=
  (acts_on_own_node_iff twoNames (runningPod "b" "web-0" "node2") (by decide) "node2"
    (.reconcile none) "default").mpr (by decide) _ _ (.refl _) (List.reverse_perm _)

/-- The pod on the second node books its cores on the first. -/
theorem isolate_acts_on_other_node : runningPod "b" "web-0" "node2" ∈ twoNamespaces.pods ∧
    ¬ (Command.isolate ⟨"exclusive", none⟩ ⟨none, 0, fun _ => .ok 7⟩).ActsOn "node2"
      twoNamespaces.pods twoNamespaces.pods "web-0" "default" := by
  rw [Command.actsOn_iff]
  decide

end Cmk
