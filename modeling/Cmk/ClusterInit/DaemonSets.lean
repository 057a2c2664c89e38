import Cmk.ClusterInit.Wait

/-!
# ClusterInit/DaemonSets — the names of the DaemonSets, as created and as waited for

`ds_from` rewrites `pod` throughout the name of a pod, `run_pods` formats the prefix it waits for.
The two agree, and the nodes get names of their own, as long as no node has `pod` in its name
(`daemonSet_names_agree_iff`).
-/

open Machinery

namespace Cmk

/-! ## Names of nodes -/

/-- A part of a node's name between two dots. -/
def IsNodeLabel (label : String) : Prop :=
  label ≠ "" ∧ (label.toList.all fun c => c.isLower || c.isDigit || c = '-') = true ∧
    label.toList.head? ≠ some '-' ∧ label.toList.getLast? ≠ some '-'

/-- A DNS subdomain, as a node's name has to be. -/
def IsNodeName (name : String) : Prop :=
  name.length ≤ 253 ∧ ∀ label ∈ splitText '.' name, IsNodeLabel label

instance (label : String) : Decidable (IsNodeLabel label) := inferInstanceAs (Decidable (_ ∧ _))

instance (name : String) : Decidable (IsNodeName name) := inferInstanceAs (Decidable (_ ∧ _))

/-- The valid name of a node. -/
@[ext]
structure NodeName where
  name : String
  valid : IsNodeName name

variable {cmds : List String} {a b : String}

/-! ## The two names -/

theorem dsName_eq_iff (hvalid : ∀ cmd ∈ cmds, cmd ∈ validCmdList) :
    dsName cmds a = "cmk-" ++ joinText '-' cmds ++ "-ds-" ++ a ↔ isIn "pod" a = false := by
  rw [dsName_eq hvalid, String.append_right_inj, isIn_pod_iff, ← String.toList_inj,
    String.toList_ofList]

/-- **Two nodes share a name** when their own names do not differ but for `pod` and `ds`. -/
theorem dsName_eq_dsName_iff (hvalid : ∀ cmd ∈ cmds, cmd ∈ validCmdList) :
    dsName cmds a = dsName cmds b ↔ replacePod a.toList = replacePod b.toList := by
  rw [dsName_eq hvalid, dsName_eq hvalid, String.append_right_inj, ← String.toList_inj,
    String.toList_ofList, String.toList_ofList]

/-- Where every call succeeds, every node gets its object. -/
theorem runCmdPods_of_ok (version : List ℕ) (cmdList cmdInitList nodes : List String) :
    ∃ objects, runCmdPods (fun _ _ => .ok ()) version cmdList cmdInitList nodes = .ok objects := by
  rw [runCmdPods]
  generalize ([] : List Workload) = objects
  induction nodes generalizing objects with
  | nil => exact ⟨objects, rfl⟩
  | cons node nodes ih =>
    cases hw : workload version cmdList cmdInitList node with
    | none =>
      obtain ⟨objects', h⟩ := ih objects
      exact ⟨objects', by rw [List.foldlM_cons, createForNode, hw]; exact h⟩
    | some w =>
      obtain ⟨objects', h⟩ := ih (objects ++ [w])
      exact ⟨objects', by rw [List.foldlM_cons, createForNode, hw]; exact h⟩

/-- The names of what a run creates for daemon commands. -/
theorem names_of_runCmdPods {create : List Workload → Workload → Except PyErr Unit}
    {version : List ℕ} {nodes : List String} {objects : List Workload} (hne : cmds ≠ [])
    (h : runCmdPods create version cmds [] nodes = .ok objects) :
    objects.map Workload.name = nodes.map (dsName cmds) := by
  have hw : workload version cmds [] = fun node => some ⟨dsApi version, dsName cmds node⟩ :=
    funext fun node => if_pos hne
  rw [runCmdPods_eq_ok h, hw, List.filterMap_eq_map', List.map_map]
  rfl

/-- **The DaemonSets have the names that are waited for, and different nodes different ones**,
exactly when no node has `pod` in its name. -/
theorem daemonSet_names_agree_iff (version : List ℕ) (cmds : List String)
    (hcmds : ∀ cmd ∈ cmds, cmd ∈ validCmdList ∧ cmd ∉ cmdInitList) (hne : cmds ≠ [])
    (nodes : List NodeName) :
    ((∀ create objects, runCmdPods create version cmds [] (nodes.map NodeName.name) = .ok objects →
        objects.map Workload.name = nodes.map fun node => (awaited cmds []).1 ++ node.name) ∧
      ∀ node ∈ nodes, ∀ node' ∈ nodes, node ≠ node' →
        dsName cmds node.name ≠ dsName cmds node'.name) ↔
      ∀ node ∈ nodes, isIn "pod" node.name = false := by
  have hvalid : ∀ cmd ∈ cmds, cmd ∈ validCmdList := fun cmd hcmd => (hcmds cmd hcmd).1
  have hawaited : (awaited cmds []).1 = "cmk-" ++ joinText '-' cmds ++ "-ds-" := by
    simp [awaited, hne]
  have hagree : (∀ create objects,
      runCmdPods create version cmds [] (nodes.map NodeName.name) = .ok objects →
        objects.map Workload.name = nodes.map fun node => (awaited cmds []).1 ++ node.name) ↔
      ∀ node ∈ nodes, isIn "pod" node.name = false := by
    rw [hawaited]
    constructor
    · intro h node hnode
      obtain ⟨objects, hrun⟩ := runCmdPods_of_ok version cmds [] (nodes.map NodeName.name)
      have hnames := (names_of_runCmdPods hne hrun).symm.trans (h _ objects hrun)
      rw [List.map_map] at hnames
      exact (dsName_eq_iff hvalid).mp (List.map_inj_left.mp hnames node hnode)
    · intro h create objects hrun
      rw [names_of_runCmdPods hne hrun, List.map_map]
      exact List.map_congr_left fun node hnode => (dsName_eq_iff hvalid).mpr (h node hnode)
  rw [hagree, and_iff_left_iff_imp]
  intro h node hnode node' hnode' hdiff heq
  rw [dsName_eq_dsName_iff hvalid, isIn_pod_iff.mp (h node hnode),
    isIn_pod_iff.mp (h node' hnode'), String.toList_inj] at heq
  exact hdiff (NodeName.ext heq)

theorem daemonSet_names_agree_twoNodes :
    (∀ create objects, runCmdPods create [1, 14] ["reconcile", "nodereport"] []
        ([⟨"worker-1", by decide⟩, ⟨"worker-2.lab", by decide⟩].map NodeName.name) = .ok objects →
        objects.map Workload.name = [⟨"worker-1", by decide⟩, ⟨"worker-2.lab", by decide⟩].map
          fun node : NodeName => (awaited ["reconcile", "nodereport"] []).1 ++ node.name) ∧
      ∀ node ∈ [(⟨"worker-1", by decide⟩ : NodeName), ⟨"worker-2.lab", by decide⟩],
        ∀ node' ∈ [(⟨"worker-1", by decide⟩ : NodeName), ⟨"worker-2.lab", by decide⟩],
          node ≠ node' → dsName ["reconcile", "nodereport"] node.name ≠
            dsName ["reconcile", "nodereport"] node'.name :=
  (daemonSet_names_agree_iff [1, 14] ["reconcile", "nodereport"] (by decide) (by decide) _).mpr
    (by decide)

/-- **A node with `pod` in its name**: its DaemonSet has another name than the one waited for, and
another node can have the same. -/
theorem daemonSet_name_shared : IsNodeName "podium" ∧ IsNodeName "dsium" ∧
    (∃ objects, runCmdPods (fun _ _ => .ok ()) [1, 14] ["reconcile"] [] ["podium"] = .ok objects ∧
      objects.map Workload.name = ["cmk-reconcile-ds-dsium"]) ∧
    (awaited ["reconcile"] []).1 ++ "podium" = "cmk-reconcile-ds-podium" ∧
    dsName ["reconcile"] "podium" = dsName ["reconcile"] "dsium" := by
  refine ⟨by decide, by decide, ?_, by decide, by decide⟩
  exact ⟨[⟨.apps, "cmk-reconcile-ds-dsium"⟩], by decide, rfl⟩

end Cmk
