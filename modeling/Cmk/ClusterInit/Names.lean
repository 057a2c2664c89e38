import Cmk.Python

/-!
# ClusterInit/Names — the commands of `cluster-init` and the names of their pods

The commands are split into those of one pod that ends and those of a DaemonSet, whose name is the
one of a pod with each `pod` in it rewritten, the node's own too.  The pieces of a name between
hyphens tell the commands and the node apart (`splitText_podName`, `splitText_dsName`).
-/

open Machinery

namespace Cmk

def validCmdList : List String := ["init", "discover", "install", "reconcile", "nodereport"]

def cmdInitList : List String := ["init", "discover", "install"]

/-- The commands that `cluster_init` accepts. -/
def cmkCmdList (cmdList : String) : Except PyErr (List String) :=
  let cmds := (splitText ',' cmdList).map stripText
  if ∃ cmd ∈ cmds, cmd ∉ validCmdList then
    .error (.runtimeError ("CMK command should be one of " ++
      "['init', 'discover', 'install', 'reconcile', 'nodereport']"))
  else if "init" ∈ cmds ∧ cmds.head? ≠ some "init" then
    .error (.runtimeError "init command should be run and listed first.")
  else .ok cmds

/-- The commands that are accepted are commands. -/
theorem valid_of_cmkCmdList {cmdList : String} {cmds : List String}
    (h : cmkCmdList cmdList = .ok cmds) : ∀ cmd ∈ cmds, cmd ∈ validCmdList := by
  simp only [cmkCmdList] at h
  split_ifs at h with hinvalid
  rw [← Except.ok.inj h]
  simpa using hinvalid

/-- The commands of a pod that ends. -/
def initCommands (cmds : List String) : List String := cmds.filter (· ∈ cmdInitList)

/-- The commands of a DaemonSet. -/
def daemonCommands (cmds : List String) : List String := cmds.filter (· ∉ cmdInitList)

/-- `name.replace("pod", "ds")`. -/
def replacePod : List Char → List Char
  | 'p' :: 'o' :: 'd' :: cs => 'd' :: 's' :: replacePod cs
  | c :: cs => c :: replacePod cs
  | [] => []

/-- The name that `update_pod_with_node_details` gives a pod. -/
def podName (cmds : List String) (nodeName : String) : String :=
  "cmk-" ++ joinText '-' cmds ++ "-pod-" ++ nodeName

/-- The name that `ds_from` gives the DaemonSet of a pod. -/
def dsName (cmds : List String) (nodeName : String) : String :=
  String.ofList (replacePod (podName cmds nodeName).toList)

/-- The API that an object goes through: DaemonSets have another one in old clusters. -/
inductive WorkloadApi
  | core
  | apps
  | extensions
deriving DecidableEq

/-- The choice of `create_ds` and of `delete_ds`. -/
def dsApi (version : List ℕ) : WorkloadApi := if [1, 9] ≤ version then .apps else .extensions

/-- What is created, by which API. -/
structure Workload where
  api : WorkloadApi
  name : String
deriving DecidableEq

/-- What `run_cmd_pods` creates for a node: the DaemonSet of a `cmd_list`, or else the pod of a
`cmd_init_list`. -/
def workload (version : List ℕ) (cmdList cmdInitList : List String) (nodeName : String) :
    Option Workload :=
  if cmdList ≠ [] then some ⟨dsApi version, dsName cmdList nodeName⟩
  else if cmdInitList ≠ [] then some ⟨.core, podName cmdInitList nodeName⟩
  else none

/-- What the two runs of `cluster_init` create for a node. -/
def created (version : List ℕ) (cmds : List String) (nodeName : String) : List Workload :=
  (workload version [] (initCommands cmds) nodeName).toList ++
    (workload version (daemonCommands cmds) [] nodeName).toList

theorem forall_created {version : List ℕ} {cmds : List String} {nodeName : String}
    {P : Workload → Prop} : (∀ w ∈ created version cmds nodeName, P w) ↔
      (initCommands cmds ≠ [] → P ⟨.core, podName (initCommands cmds) nodeName⟩) ∧
        (daemonCommands cmds ≠ [] → P ⟨dsApi version, dsName (daemonCommands cmds) nodeName⟩) := by
  rw [created, List.forall_mem_append]
  refine and_congr ?_ ?_
  · by_cases h : initCommands cmds = [] <;> simp [workload, h]
  · by_cases h : daemonCommands cmds = [] <;> simp [workload, h]

theorem dsApi_ne_core (version : List ℕ) : dsApi version ≠ .core := by
  rw [dsApi]
  split <;> exact WorkloadApi.noConfusion

/-! ## Rewriting `pod` -/

theorem replacePod_cons {c : Char} {cs : List Char} (h : ¬ ['p', 'o', 'd'] <+: c :: cs) :
    replacePod (c :: cs) = c :: replacePod cs := by
  rw [replacePod]
  rintro rest rfl rfl
  exact h ⟨rest, rfl⟩

/-- A hyphen parts what is rewritten. -/
theorem replacePod_append (xs ys : List Char) :
    replacePod (xs ++ '-' :: ys) = replacePod xs ++ '-' :: replacePod ys := by
  induction xs using replacePod.induct with
  | case1 cs ih => simp only [List.cons_append, replacePod, ih]
  | case2 c cs h ih =>
    have hno : ¬ ['p', 'o', 'd'] <+: c :: cs := by
      rintro ⟨rest, hrest⟩
      obtain ⟨rfl, rfl⟩ := List.cons.inj hrest
      exact h rest rfl rfl
    have hno' : ¬ ['p', 'o', 'd'] <+: c :: (cs ++ '-' :: ys) := by
      rintro ⟨rest, hrest⟩
      obtain ⟨rfl, htail⟩ := List.cons.inj hrest
      match cs, htail with
      | [], htail => simp at htail
      | [x], htail => simp at htail
      | x :: y :: zs, htail =>
        have htwo : ['o', 'd'] = [x, y] := congrArg (List.take 2) htail
        exact hno ⟨zs, congrArg (fun two => 'p' :: (two ++ zs)) htwo⟩
    rw [List.cons_append, replacePod_cons hno', ih, replacePod_cons hno, List.cons_append]
  | case3 => exact replacePod_cons (by simp)

/-- **A text without `pod` stays**; one with it has an `s` afterwards, and is shorter. -/
theorem replacePod_cases (xs : List Char) :
    (replacePod xs = xs ∧ ¬ ['p', 'o', 'd'] <:+: xs) ∨
      ('s' ∈ replacePod xs ∧ (replacePod xs).length < xs.length ∧ ['p', 'o', 'd'] <:+: xs) := by
  induction xs using replacePod.induct with
  | case1 cs ih =>
    have hle : (replacePod cs).length ≤ cs.length := by
      rcases ih with ⟨heq, -⟩ | ⟨-, hlt, -⟩
      · rw [heq]
      · exact hlt.le
    refine .inr ⟨by simp [replacePod], ?_, ⟨[], cs, rfl⟩⟩
    simp only [replacePod, List.length_cons]
    omega
  | case2 c cs h ih =>
    have hno : ¬ ['p', 'o', 'd'] <+: c :: cs := by
      rintro ⟨rest, hrest⟩
      obtain ⟨rfl, rfl⟩ := List.cons.inj hrest
      exact h rest rfl rfl
    rw [replacePod_cons hno, List.infix_cons_iff]
    rcases ih with ⟨heq, hnot⟩ | ⟨hmem, hlt, hin⟩
    · exact .inl ⟨by rw [heq], fun hor => hor.elim hno hnot⟩
    · exact .inr ⟨List.mem_cons_of_mem _ hmem, by simpa using hlt, .inr hin⟩
  | case3 => exact .inl ⟨rfl, by simp⟩

theorem replacePod_eq_self_iff {xs : List Char} :
    replacePod xs = xs ↔ ¬ ['p', 'o', 'd'] <:+: xs := by
  rcases replacePod_cases xs with ⟨heq, hnot⟩ | ⟨-, hlt, hin⟩
  · exact iff_of_true heq hnot
  · exact iff_of_false (fun heq => by rw [heq] at hlt; omega) (not_not.mpr hin)

theorem isIn_pod_iff {text : String} :
    isIn "pod" text = false ↔ replacePod text.toList = text.toList := by
  rw [replacePod_eq_self_iff, isIn, decide_eq_false_iff_not]
  rfl

/-! ## The pieces of a name -/

variable {cmds : List String} {nodeName : String}

/-- The commands have no hyphens, and nothing to rewrite. -/
theorem plain_of_valid {cmd : String} (h : cmd ∈ validCmdList) :
    '-' ∉ cmd.toList ∧ replacePod cmd.toList = cmd.toList ∧ cmd ≠ "pod" ∧ cmd ≠ "ds" := by
  have hall : ∀ cmd ∈ validCmdList,
      '-' ∉ cmd.toList ∧ replacePod cmd.toList = cmd.toList ∧ cmd ≠ "pod" ∧ cmd ≠ "ds" := by decide
  exact hall cmd h

/-- The pieces of a name of the commands, a kind and the rest. -/
theorem splitText_name (hvalid : ∀ cmd ∈ cmds, cmd ∈ validCmdList) (hne : cmds ≠ [])
    {name kind rest : String} (hkind : '-' ∉ kind.toList)
    (h : name = "cmk" ++ String.ofList ['-'] ++ joinText '-' cmds ++ String.ofList ['-'] ++
      (kind ++ String.ofList ['-'] ++ rest)) :
    splitText '-' name = "cmk" :: cmds ++ kind :: splitText '-' rest := by
  have hcmk : splitText '-' "cmk" = ["cmk"] := splitText_eq_singleton (by decide)
  rw [h, splitText_append, splitText_append, splitText_append, hcmk, splitText_eq_singleton hkind,
    splitText_joinText (fun cmd hcmd => (plain_of_valid (hvalid cmd hcmd)).1) hne]
  rfl

/-- **The pieces of the name of a pod.** -/
theorem splitText_podName (hvalid : ∀ cmd ∈ cmds, cmd ∈ validCmdList) (hne : cmds ≠ [])
    (nodeName : String) :
    splitText '-' (podName cmds nodeName) = "cmk" :: cmds ++ "pod" :: splitText '-' nodeName := by
  refine splitText_name hvalid hne (by decide) ?_
  rw [← String.toList_inj]
  simp [podName]

theorem replacePod_joinText (hvalid : ∀ cmd ∈ cmds, cmd ∈ validCmdList) :
    replacePod (joinText '-' cmds).toList = (joinText '-' cmds).toList := by
  induction cmds with
  | nil => rfl
  | cons cmd cmds ih =>
    obtain ⟨hcmd, hrest⟩ := List.forall_mem_cons.mp hvalid
    by_cases hnil : cmds = []
    · subst hnil
      rw [joinText_singleton]
      exact (plain_of_valid hcmd).2.1
    · rw [joinText_cons '-' cmd hnil, String.toList_append, String.toList_append,
        String.toList_ofList, List.append_assoc, List.singleton_append, replacePod_append,
        (plain_of_valid hcmd).2.1, ih hrest]

/-- **The name of a DaemonSet** has `ds` for `pod`, in the name of the node too. -/
theorem dsName_eq (hvalid : ∀ cmd ∈ cmds, cmd ∈ validCmdList) (nodeName : String) :
    dsName cmds nodeName = "cmk-" ++ joinText '-' cmds ++ "-ds-" ++
      String.ofList (replacePod nodeName.toList) := by
  have hlist : (podName cmds nodeName).toList =
      "cmk".toList ++ '-' :: ((joinText '-' cmds).toList ++ '-' :: ("pod".toList ++
        '-' :: nodeName.toList)) := by
    simp [podName]
  rw [dsName, hlist, replacePod_append, replacePod_append, replacePod_append,
    replacePod_joinText hvalid, ← String.toList_inj]
  simp [replacePod]

/-- **The pieces of the name of a DaemonSet.** -/
theorem splitText_dsName (hvalid : ∀ cmd ∈ cmds, cmd ∈ validCmdList) (hne : cmds ≠ [])
    (nodeName : String) : splitText '-' (dsName cmds nodeName) =
      "cmk" :: cmds ++ "ds" :: splitText '-' (String.ofList (replacePod nodeName.toList)) := by
  refine splitText_name hvalid hne (by decide) ((dsName_eq hvalid nodeName).trans ?_)
  rw [← String.toList_inj]
  simp

end Cmk
