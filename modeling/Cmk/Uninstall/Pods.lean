import Cmk.ClusterInit.Names

/-!
# Uninstall/Pods — the pods that `cluster-init` creates and `uninstall` deletes

`uninstall` deletes pods of fixed names and takes one with `-ds-` in its name for a DaemonSet.  So
it deletes what was created for its node exactly when the commands came in the one order that the
names have, and the name of the node is neither rewritten nor mistaken (`pods_deleted_iff`).
-/

open Machinery

namespace Cmk

/-- What `delete_cmk_pod` deletes, and by which API. -/
def workloadFor (version : List ℕ) (podBaseName : String) (postfixName : Option String) :
    Workload :=
  let name := match postfixName with
    | some postfixName =>
      if postfixName ≠ "" then podBaseName ++ "-" ++ postfixName else podBaseName
    | none => podBaseName
  ⟨if isIn "-ds-" name then dsApi version else .core, name⟩

/-- What is not found is left out. -/
def deleteCmkPod (version : List ℕ) (podBaseName : String) (postfixName : Option String)
    (objects : List Workload) : List Workload :=
  objects.filter (· ≠ workloadFor version podBaseName postfixName)

/-- The calls of `uninstall`, on the node of the environment. -/
def deletions (nodeName : Option String) : List (String × Option String) :=
  [("cmk-init-install-discover-pod", nodeName), ("cmk-reconcile-nodereport-ds", nodeName),
    ("cmk-node-report-ds-all", none), ("cmk-reconcile-ds-all", none),
    ("cmk-cluster-init-pod", none), ("cmk-discover-pod", none), ("cmk-init-pod", none),
    ("cmk-install-pod", none)]

/-- The objects of the cluster that `uninstall` leaves. -/
def uninstallPods (version : List ℕ) (nodeName : Option String) (objects : List Workload) :
    List Workload :=
  (deletions nodeName).foldl (fun objects call => deleteCmkPod version call.1 call.2 objects)
    objects

/-- The commands of each kind come in the order of the fixed names, or there are none of it; and the
node has no name that is rewritten or that makes a pod a DaemonSet. -/
structure Deletable (cmds : List String) (nodeName : String) : Prop where
  pod : initCommands cmds = [] ∨ initCommands cmds = ["init", "install", "discover"] ∧
    nodeName ≠ "" ∧ isIn "-ds-" ("-" ++ nodeName) = false
  daemonSet : daemonCommands cmds = [] ∨
    (daemonCommands cmds = ["reconcile", "nodereport"] ∧ nodeName ≠ "" ∧
      isIn "pod" nodeName = false) ∨
    daemonCommands cmds = ["reconcile"] ∧ nodeName = "all"

variable {version : List ℕ} {cmds : List String} {nodeName : String} {w : Workload}

/-- **What is left** is what no call deletes. -/
theorem mem_uninstallPods {node : Option String} {objects : List Workload} :
    w ∈ uninstallPods version node objects ↔
      w ∈ objects ∧ ∀ call ∈ deletions node, w ≠ workloadFor version call.1 call.2 := by
  rw [uninstallPods]
  generalize deletions node = calls
  induction calls generalizing objects with
  | nil => simp
  | cons call calls ih =>
    rw [List.foldl_cons, ih, deleteCmkPod, List.mem_filter, List.forall_mem_cons, and_assoc,
      decide_eq_true_iff]

/-! ## The pieces of the names -/

/-- The pieces that a postfix adds. -/
def postfixPieces (postfixName : Option String) : List String :=
  postfixName.elim [] fun postfixName => if postfixName = "" then [] else splitText '-' postfixName

theorem splitText_workloadFor (base : String) (postfixName : Option String) :
    splitText '-' (workloadFor version base postfixName).name =
      splitText '-' base ++ postfixPieces postfixName := by
  cases postfixName with
  | none => exact (List.append_nil _).symm
  | some node =>
    by_cases hnode : node = ""
    · simp [workloadFor, postfixPieces, hnode]
    · simp only [workloadFor, postfixPieces, hnode, ne_eq, not_false_eq_true, ↓reduceIte,
        Option.elim_some]
      exact splitText_append '-' base node

theorem workloadFor_node (version : List ℕ) (base : String) (hnode : nodeName ≠ "") :
    workloadFor version base (some nodeName) =
      ⟨if isIn "-ds-" (base ++ "-" ++ nodeName) then dsApi version else .core,
        base ++ "-" ++ nodeName⟩ := by
  simp [workloadFor, hnode]

/-- The name that is deleted decides the API. -/
theorem api_of_deleted {call : String × Option String}
    (heq : w = workloadFor version call.1 call.2) :
    w.api = if isIn "-ds-" w.name then dsApi version else .core := by
  rw [heq]
  rfl

theorem mem_initCommands {cmd : String} (h : cmd ∈ initCommands cmds) : cmd ∈ cmdInitList :=
  of_decide_eq_true (List.mem_filter.mp h).2

theorem mem_daemonCommands {cmd : String} (h : cmd ∈ daemonCommands cmds) : cmd ∉ cmdInitList :=
  of_decide_eq_true (List.mem_filter.mp h).2

/-- The calls of `uninstall`, each with its base name in pieces. -/
def deletionPieces (nodeName : Option String) : List (List String × Option String) :=
  [(["cmk", "init", "install", "discover", "pod"], nodeName),
    (["cmk", "reconcile", "nodereport", "ds"], nodeName),
    (["cmk", "node", "report", "ds", "all"], none), (["cmk", "reconcile", "ds", "all"], none),
    (["cmk", "cluster", "init", "pod"], none), (["cmk", "discover", "pod"], none),
    (["cmk", "init", "pod"], none), (["cmk", "install", "pod"], none)]

theorem deletions_eq (node : Option String) :
    deletions node = (deletionPieces node).map fun call => (joinText '-' call.1, call.2) := by
  rfl

theorem plain_of_mem_deletionPieces {node : Option String} {call : List String × Option String}
    (h : call ∈ deletionPieces node) : (∀ piece ∈ call.1, '-' ∉ piece.toList) ∧ call.1 ≠ [] := by
  have hall : ∀ base ∈ (deletionPieces node).map Prod.fst,
      (∀ piece ∈ base, '-' ∉ piece.toList) ∧ base ≠ [] := by
    simp only [deletionPieces, List.map_cons, List.map_nil]
    decide
  exact hall call.1 (List.mem_map_of_mem h)

/-- **A call that deletes a name** has its pieces. -/
theorem pieces_of_deleted {node : Option String} {call : String × Option String}
    (hcall : call ∈ deletions node) (heq : w = workloadFor version call.1 call.2) :
    ∃ pieces ∈ deletionPieces node,
      splitText '-' w.name = pieces.1 ++ postfixPieces pieces.2 := by
  rw [deletions_eq] at hcall
  obtain ⟨pieces, hpieces, rfl⟩ := List.mem_map.mp hcall
  obtain ⟨isIn_pod_iff, hne⟩ := plain_of_mem_deletionPieces hpieces
  exact ⟨pieces, hpieces, by rw [heq, splitText_workloadFor, splitText_joinText isIn_pod_iff hne]⟩

/-- Two lists with their first `a` at the same place agree before and after it. -/
theorem append_cons_inj {α : Type} {a : α} {xs xs' ys ys' : List α} (h : a ∉ xs) (h' : a ∉ xs') :
    xs ++ a :: ys = xs' ++ a :: ys' ↔ xs = xs' ∧ ys = ys' := by
  induction xs generalizing xs' with
  | nil =>
    cases xs' with
    | nil => simp
    | cons x xs' => simpa using fun hx => absurd hx (List.ne_of_not_mem_cons h')
  | cons x xs ih =>
    cases xs' with
    | nil => simpa using fun hx => absurd hx.symm (List.ne_of_not_mem_cons h)
    | cons x' xs' =>
      have hrest := ih (List.not_mem_of_not_mem_cons h) (List.not_mem_of_not_mem_cons h')
      rw [List.cons_append, List.cons_append, List.cons.injEq, hrest, List.cons.injEq, and_assoc]

/-- The first command of a name that is deleted is the second piece. -/
theorem second_mem {cs pieces rest tail : List String} {kind second : String} (hne : cs ≠ [])
    (h : "cmk" :: cs ++ kind :: tail = "cmk" :: second :: pieces ++ rest) : second ∈ cs := by
  cases cs with
  | nil => exact absurd rfl hne
  | cons c cs => exact (List.cons.inj (List.cons.inj h).2).1 ▸ List.mem_cons_self

/-! ## Pods -/

theorem podName_fixed (nodeName : String) : podName ["init", "install", "discover"] nodeName =
    "cmk-init-install-discover-pod" ++ "-" ++ nodeName := by
  rw [← String.toList_inj]
  simp [podName, joinText]

/-- What makes a pod a DaemonSet stands at its node. -/
theorem isIn_fixed (nodeName : String) :
    isIn "-ds-" ("cmk-init-install-discover-pod" ++ "-" ++ nodeName) =
      isIn "-ds-" ("-" ++ nodeName) := by
  unfold isIn
  simp [List.infix_cons_iff, List.cons_prefix_cons]

/-- The pieces of a pod's name are those of the fixed name, or end at `pod`. -/
theorem pod_pieces {cs tail : List String} {pieces : List String × Option String}
    (hcs : ∀ cmd ∈ cs, cmd ∈ cmdInitList) (hne : cs ≠ [])
    (hmem : pieces ∈ deletionPieces (some nodeName))
    (h : "cmk" :: cs ++ "pod" :: tail = pieces.1 ++ postfixPieces pieces.2) :
    tail = [] ∨ cs = ["init", "install", "discover"] ∧ tail = postfixPieces (some nodeName) := by
  have hpod : "pod" ∉ cs := fun h => absurd (hcs _ h) (by decide)
  have hends : ∀ ps, "pod" ∉ ps → "cmk" :: cs ++ "pod" :: tail = "cmk" :: ps ++ ["pod"] →
      tail = [] := fun ps hps h => ((append_cons_inj hpod hps).mp (List.cons.inj h).2).2
  simp only [deletionPieces, List.mem_cons, List.not_mem_nil, or_false] at hmem
  rcases hmem with rfl | rfl | rfl | rfl | rfl | rfl | rfl | rfl
  · exact .inr ((append_cons_inj hpod (by decide)).mp (List.cons.inj h).2)
  · exact absurd (hcs _ (second_mem hne h)) (by decide)
  · exact absurd (hcs _ (second_mem hne h)) (by decide)
  · exact absurd (hcs _ (second_mem hne h)) (by decide)
  · exact absurd (hcs _ (second_mem hne h)) (by decide)
  · exact .inl (hends ["discover"] (by decide) h)
  · exact .inl (hends ["init"] (by decide) h)
  · exact .inl (hends ["install"] (by decide) h)

theorem pod_deleted_iff {cs : List String} (hcs : ∀ cmd ∈ cs, cmd ∈ cmdInitList) (hne : cs ≠ []) :
    (∃ call ∈ deletions (some nodeName),
      (⟨.core, podName cs nodeName⟩ : Workload) = workloadFor version call.1 call.2) ↔
      cs = ["init", "install", "discover"] ∧ nodeName ≠ "" ∧
        isIn "-ds-" ("-" ++ nodeName) = false := by
  have hvalid : ∀ cmd ∈ cs, cmd ∈ validCmdList := fun cmd hcmd => by
    have hall : ∀ cmd ∈ cmdInitList, cmd ∈ validCmdList := by decide
    exact hall cmd (hcs cmd hcmd)
  constructor
  · rintro ⟨call, hcall, heq⟩
    obtain ⟨pieces, hmem, hpieces⟩ := pieces_of_deleted hcall heq
    rw [splitText_podName hvalid hne] at hpieces
    obtain ⟨hinit, htail⟩ :=
      (pod_pieces hcs hne hmem hpieces).resolve_left (splitText_ne_nil '-' nodeName)
    have hnode : nodeName ≠ "" := fun h =>
      splitText_ne_nil '-' nodeName (htail.trans (by simp [postfixPieces, h]))
    have hapi := api_of_deleted heq
    rw [hinit, podName_fixed, isIn_fixed] at hapi
    refine ⟨hinit, hnode, Bool.eq_false_of_not_eq_true fun hds => ?_⟩
    rw [hds, if_pos rfl] at hapi
    exact dsApi_ne_core version hapi.symm
  · rintro ⟨rfl, hnode, isIn_pod_iff⟩
    refine ⟨("cmk-init-install-discover-pod", some nodeName), List.mem_cons_self, ?_⟩
    rw [workloadFor_node version _ hnode, isIn_fixed, isIn_pod_iff, podName_fixed]
    rfl

/-! ## DaemonSets -/

theorem dsName_fixed (hnode : replacePod nodeName.toList = nodeName.toList) :
    dsName ["reconcile", "nodereport"] nodeName =
      "cmk-reconcile-nodereport-ds" ++ "-" ++ nodeName := by
  rw [dsName_eq (by decide), hnode, ← String.toList_inj]
  simp [joinText]

theorem isIn_fixed_daemonSet (nodeName : String) :
    isIn "-ds-" ("cmk-reconcile-nodereport-ds" ++ "-" ++ nodeName) = true := by
  refine decide_eq_true ⟨"cmk-reconcile-nodereport".toList, nodeName.toList, ?_⟩
  simp

/-- The pieces of a DaemonSet's name are those of a fixed name. -/
theorem daemonSet_pieces {cs tail : List String} {pieces : List String × Option String}
    (hcs : ∀ cmd ∈ cs, cmd ∈ validCmdList) (hdaemon : ∀ cmd ∈ cs, cmd ∉ cmdInitList)
    (hne : cs ≠ []) (hmem : pieces ∈ deletionPieces (some nodeName))
    (h : "cmk" :: cs ++ "ds" :: tail = pieces.1 ++ postfixPieces pieces.2) :
    (cs = ["reconcile", "nodereport"] ∧ tail = postfixPieces (some nodeName)) ∨
      cs = ["reconcile"] ∧ tail = ["all"] := by
  have hds : "ds" ∉ cs := fun h => absurd (hcs _ h) (by decide)
  simp only [deletionPieces, List.mem_cons, List.not_mem_nil, or_false] at hmem
  rcases hmem with rfl | rfl | rfl | rfl | rfl | rfl | rfl | rfl
  · exact absurd (by decide) (hdaemon _ (second_mem hne h))
  · exact .inl ((append_cons_inj hds (by decide)).mp (List.cons.inj h).2)
  · exact absurd (hcs _ (second_mem hne h)) (by decide)
  · exact .inr ((append_cons_inj hds (by decide)).mp (List.cons.inj h).2)
  · exact absurd (hcs _ (second_mem hne h)) (by decide)
  · exact absurd (by decide) (hdaemon _ (second_mem hne h))
  · exact absurd (by decide) (hdaemon _ (second_mem hne h))
  · exact absurd (by decide) (hdaemon _ (second_mem hne h))

theorem eq_all_of_replacePod (h : replacePod nodeName.toList = "all".toList) :
    nodeName = "all" := by
  rcases replacePod_cases nodeName.toList with ⟨hsame, -⟩ | ⟨hmem, -, -⟩
  · exact String.toList_inj.mp (hsame.symm.trans h)
  · rw [h] at hmem
    exact absurd hmem (by decide)

theorem daemonSet_deleted_iff {cs : List String} (hcs : ∀ cmd ∈ cs, cmd ∈ validCmdList)
    (hdaemon : ∀ cmd ∈ cs, cmd ∉ cmdInitList) (hne : cs ≠ []) :
    (∃ call ∈ deletions (some nodeName),
      (⟨dsApi version, dsName cs nodeName⟩ : Workload) = workloadFor version call.1 call.2) ↔
      (cs = ["reconcile", "nodereport"] ∧ nodeName ≠ "" ∧ isIn "pod" nodeName = false) ∨
        cs = ["reconcile"] ∧ nodeName = "all" := by
  constructor
  · rintro ⟨call, hcall, heq⟩
    obtain ⟨pieces, hmem, hpieces⟩ := pieces_of_deleted hcall heq
    rw [splitText_dsName hcs hne] at hpieces
    rcases daemonSet_pieces hcs hdaemon hne hmem hpieces with ⟨hcs', htail⟩ | ⟨hcs', htail⟩
    · have hnode : nodeName ≠ "" := fun h =>
        splitText_ne_nil '-' _ (htail.trans (by simp [postfixPieces, h]))
      rw [postfixPieces, Option.elim_some, if_neg hnode, splitText_inj, ← String.toList_inj,
        String.toList_ofList] at htail
      exact .inl ⟨hcs', hnode, isIn_pod_iff.mpr htail⟩
    · have hjoin := congrArg (joinText '-') htail
      rw [joinText_splitText, joinText_singleton, ← String.toList_inj,
        String.toList_ofList] at hjoin
      exact .inr ⟨hcs', eq_all_of_replacePod hjoin⟩
  · rintro (⟨rfl, hnode, hpod⟩ | ⟨rfl, rfl⟩)
    · refine ⟨("cmk-reconcile-nodereport-ds", some nodeName),
        List.mem_cons_of_mem _ List.mem_cons_self, ?_⟩
      rw [workloadFor_node version _ hnode, dsName_fixed (isIn_pod_iff.mp hpod),
        isIn_fixed_daemonSet, if_pos rfl]
    · refine ⟨("cmk-reconcile-ds-all", none), by simp [deletions], ?_⟩
      rfl

/-! ## The uninstallation -/

/-- Of what was created and is still there, an object is gone when a call deletes it. -/
theorem gone_iff {node : Option String} {objects : List Workload} (hw : w ∈ objects) :
    w ∉ uninstallPods version node objects ↔
      ∃ call ∈ deletions node, w = workloadFor version call.1 call.2 := by
  rw [mem_uninstallPods]
  push Not
  exact ⟨fun h => h hw, fun h _ => h⟩

/-- **`uninstall` deletes what `cluster-init` created** for its node, by the API of its own kind,
exactly when the commands are in the order of the fixed names and the node's name is left alone. -/
theorem pods_deleted_iff {cmdList : String} (h : cmkCmdList cmdList = .ok cmds)
    {objects : List Workload} (hthere : ∀ w ∈ created version cmds nodeName, w ∈ objects) :
    (∀ w ∈ created version cmds nodeName,
      w ∉ uninstallPods version (some nodeName) objects) ↔ Deletable cmds nodeName := by
  have hvalid := valid_of_cmkCmdList h
  have hgone : (∀ w ∈ created version cmds nodeName,
      w ∉ uninstallPods version (some nodeName) objects) ↔
        ∀ w ∈ created version cmds nodeName,
          ∃ call ∈ deletions (some nodeName), w = workloadFor version call.1 call.2 :=
    forall₂_congr fun w hw => gone_iff (hthere w hw)
  have hinit : ∀ cmd ∈ initCommands cmds, cmd ∈ cmdInitList := fun _ => mem_initCommands
  have hdaemon : ∀ cmd ∈ daemonCommands cmds, cmd ∉ cmdInitList := fun _ => mem_daemonCommands
  have hdaemonValid : ∀ cmd ∈ daemonCommands cmds, cmd ∈ validCmdList :=
    fun cmd hcmd => hvalid cmd (List.mem_filter.mp hcmd).1
  rw [hgone, forall_created]
  constructor
  · rintro ⟨hpod, hds⟩
    exact ⟨or_iff_not_imp_left.mpr fun hne => (pod_deleted_iff hinit hne).mp (hpod hne),
      or_iff_not_imp_left.mpr fun hne =>
        (daemonSet_deleted_iff hdaemonValid hdaemon hne).mp (hds hne)⟩
  · rintro ⟨hpod, hds⟩
    exact ⟨fun hne => (pod_deleted_iff hinit hne).mpr (hpod.resolve_left hne),
      fun hne => (daemonSet_deleted_iff hdaemonValid hdaemon hne).mpr (hds.resolve_left hne)⟩

/-- The commands that are run by default. -/
theorem pods_deleted_default :
    Deletable ["init", "reconcile", "install", "discover", "nodereport"] "node1" ∧
      ∀ w ∈ created [1, 9] ["init", "reconcile", "install", "discover", "nodereport"] "node1",
        w ∉ uninstallPods [1, 9] (some "node1")
          (created [1, 9] ["init", "reconcile", "install", "discover", "nodereport"] "node1") := by
  have hdeletable : Deletable ["init", "reconcile", "install", "discover", "nodereport"] "node1" :=
    ⟨.inr ⟨by decide, by decide, by decide⟩, .inr (.inl ⟨by decide, by decide, by decide⟩)⟩
  exact ⟨hdeletable, (@pods_deleted_iff _ _ _ "init,reconcile,install,discover,nodereport"
    (by decide) _ fun _ => id).mpr hdeletable⟩

/-- Without `install` the pod has another name, and stays. -/
theorem uninstall_leaves_pod : ¬ ∀ (version : List ℕ) (cmdList nodeName : String)
    (cmds : List String) (objects : List Workload), cmkCmdList cmdList = .ok cmds →
      (∀ w ∈ created version cmds nodeName, w ∈ objects) →
        ∀ w ∈ created version cmds nodeName,
          w ∉ uninstallPods version (some nodeName) objects := by
  intro h
  have hgone := h [1, 9] "init,discover" "node1" ["init", "discover"]
    [⟨.core, podName ["init", "discover"] "node1"⟩] (by decide) (fun _ => id)
    ⟨.core, podName ["init", "discover"] "node1"⟩ List.mem_cons_self
  have hcall := (gone_iff List.mem_cons_self).mp hgone
  have hcmds : ["init", "discover"] = ["init", "install", "discover"] :=
    ((pod_deleted_iff (by decide) (by decide)).mp hcall).1
  exact absurd hcmds (by decide)

end Cmk
