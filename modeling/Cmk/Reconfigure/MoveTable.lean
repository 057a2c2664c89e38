import Cmk.Machinery.Tagged
import Cmk.Reaffinitize
import Cmk.Reconfigure.Session

/-!
# Reconfigure/MoveTable — the table of pids between two pods

`set_config_map` dumps the table with the tags of the program's own classes; `reaffinitize`, in
another pod, loads it as plain YAML.  The dump itself loses nothing (`ofTree?_toTree`), but the
loader refuses every one (`safeLoad_dump`), and the reader does not even get to it: it subscripts
the object of the configmap (`move_table_never_survives`).  No process is ever moved
(`reaffinitize_moves_nothing`).
-/

open Machinery

namespace Cmk

/-! ## The configmaps of a cluster -/

structure V1ConfigMap where
  name : String
  annotations : Dict String String
  data : Dict String String

/-- The configmaps stored, each with its namespace. -/
abbrev Server := Table fun cm : String × V1ConfigMap => (cm.1, cm.2.name)

/-- `update_configmap` on a new object. -/
def updateConfigmap (name : String) (data : Dict String String) : V1ConfigMap :=
  ⟨name, .ofList _ [("Owner", "")], data⟩

/-- `create_config_map`: the server refuses a second object of one name. -/
def Server.createConfigMap (server : Server) (namespaceName : String) (cm : V1ConfigMap) :
    Except PyErr Unit × Server :=
  if (namespaceName, cm.name) ∈ server.keys then (.error .apiException, server)
  else (.ok (), server.insert (namespaceName, cm))

/-- `get_config_map`: the first object of the name among those listed, or `None`. -/
def Server.getConfigMap (server : Server) (namespaceName name : String) : Option V1ConfigMap :=
  ((server.rows.filter fun cm => cm.1 = namespaceName).map Prod.snd).find? fun cm => cm.name = name

/-! ## The table as a document -/

def strTag : String := "tag:yaml.org,2002:str"

def seqTag : String := "tag:yaml.org,2002:seq"

def mapTag : String := "tag:yaml.org,2002:map"

/-- The tags `safe_load` constructs. -/
def standardTags : List String :=
  [strTag, seqTag, mapTag, "tag:yaml.org,2002:null", "tag:yaml.org,2002:bool",
    "tag:yaml.org,2002:int", "tag:yaml.org,2002:float", "tag:yaml.org,2002:binary",
    "tag:yaml.org,2002:timestamp", "tag:yaml.org,2002:omap", "tag:yaml.org,2002:pairs",
    "tag:yaml.org,2002:set"]

/-- The tag of an instance of a class. -/
def objectTag (className : String) : String := "tag:yaml.org,2002:python/object:" ++ className

def strNode (s : String) : TagTree := .scalar strTag s

/-- How `yaml.dump` represents a `Pid`: its attributes, sorted. -/
def Pid.toTree (p : Pid) : TagTree :=
  .map (objectTag "intel.reconfigure.Pid")
    [(strNode "new_clist", strNode p.newClist),
      (strNode "old_clists", .seq seqTag (p.oldClists.map strNode))]

/-- The rows of `process_map` as `yaml.dump` sorts them. -/
def Procs.sorted (procs : Procs String) : List (String × Pid) :=
  procs.rows.insertionSort fun row row' => row.1 ≤ row'.1

def Procs.toTree (procs : Procs String) : TagTree :=
  .map (objectTag "intel.reconfigure.Procs")
    [(strNode "process_map",
      .map mapTag (procs.sorted.map fun row => (strNode row.1, row.2.toTree)))]

/-- The YAML library between documents and text. -/
structure YamlLib where
  emit : TagTree → String
  compose : String → Except PyErr TagTree

/-- `yaml.dump` on a table. -/
def YamlLib.dump (yaml : YamlLib) (procs : Procs String) : String := yaml.emit procs.toTree

/-- `yaml.safe_load`. -/
def YamlLib.safeLoad (yaml : YamlLib) (text : String) : Except PyErr Plain := do
  let t ← yaml.compose text
  (t.construct (· ∈ standardTags)).elim (.error .yamlError) .ok

/-! ## The writer and the reader -/

def setConfigMap (yaml : YamlLib) (server : Server) (name namespaceName : String)
    (config : Procs String) : Except PyErr Unit × Server :=
  let configmap := updateConfigmap name (.ofList _ [("config", yaml.dump config)])
  let (result, server) := server.createConfigMap namespaceName configmap
  (exitOnApiException result, server)

/-- `x[key]` on what `get_config_map` returned: neither the object nor `None` has items. -/
def subscript (x : Option V1ConfigMap) (_key : String) : Except PyErr String :=
  match x with
  | some _ => .error .typeError
  | none => .error .typeError

/-- What `yaml` may hand over, as the reader goes on to use it. -/
inductive Loaded
  | plain (x : Plain)
  | table (procs : Procs String)

/-- The attribute `process_map`. -/
def Loaded.processMap : Loaded → Except PyErr (Procs String)
  | plain _ => .error .attributeError
  | table procs => .ok procs

/-- The `try` block of `get_config_from_configmap`, on what the listing of the configmaps comes to.
-/
def readConfig (yaml : YamlLib) (listing : Except PyErr Server) (name namespaceName : String) :
    Except PyErr Loaded := do
  let server ← listing
  let text ← subscript (server.getConfigMap namespaceName name) "config"
  let x ← yaml.safeLoad text
  return .plain x

def getConfigFromConfigmap (yaml : YamlLib) (listing : Except PyErr Server)
    (name namespaceName : String) : Except PyErr Loaded :=
  match readConfig yaml listing name namespaceName with
  | .error .apiException => .error (.systemExit 1)
  | r => r

/-- `reaffinitize`, in the container of the tree `t`. -/
def reaffinitize (yaml : YamlLib) (listing : Except PyErr Server) (nodeName namespaceName : String)
    (t : RoseTree ℕ) (os : Os) : Except PyErr Unit × Os :=
  match getConfigFromConfigmap yaml listing ("cmk-reconfigure-" ++ nodeName) namespaceName >>=
      Loaded.processMap with
  | .error e => (.error e, os)
  | .ok procs => reaffinitizeCores procs t os

/-- What is read back has the pids written, with their lists. -/
def ReadBack (yaml : YamlLib) (server : Server) (name namespaceName : String)
    (procs : Procs String) : Prop :=
  ∃ config procs', getConfigFromConfigmap yaml (.ok server) name namespaceName = .ok config ∧
    config.processMap = .ok procs' ∧ procs'.rows.Perm procs.rows

/-! ## The document loses nothing -/

def TagTree.text? : TagTree → Option String
  | .scalar tag text => if tag = strTag then some text else none
  | _ => none

/-- The `Pid` a document is the representation of. -/
def Pid.ofTree? : TagTree → Option Pid
  | .map tag [(_, newClist), (_, .seq _ oldClists)] => do
    if tag = objectTag "intel.reconfigure.Pid" then
      let old ← oldClists.mapM TagTree.text?
      let new ← TagTree.text? newClist
      return ⟨old, new⟩
    else none
  | _ => none

def Procs.rowOfTree? (row : TagTree × TagTree) : Option (String × Pid) := do
  let pid ← TagTree.text? row.1
  let p ← Pid.ofTree? row.2
  return (pid, p)

/-- The table a document is the representation of. -/
def Procs.ofTree? : TagTree → Option (Procs String)
  | .map tag [(_, .map _ rows)] =>
    if tag = objectTag "intel.reconfigure.Procs" then
      (rows.mapM Procs.rowOfTree?).map (.ofList _)
    else none
  | _ => none

theorem mapM_map_some {α β : Type} {f : α → β} {g : β → Option α} (h : ∀ a, g (f a) = some a)
    (xs : List α) : (xs.map f).mapM g = some xs := by
  induction xs with
  | nil => rfl
  | cons x xs ih => rw [List.map_cons, List.mapM_cons, h, ih]; rfl

theorem Pid.ofTree?_toTree (p : Pid) : Pid.ofTree? p.toTree = some p := by
  have hold : (p.oldClists.map strNode).mapM TagTree.text? = some p.oldClists :=
    mapM_map_some (f := strNode) (fun _ => rfl) _
  rw [Pid.toTree, Pid.ofTree?, if_pos rfl, hold]
  rfl

/-- **A loader that knew the classes would read the table back.** -/
theorem ofTree?_toTree (procs : Procs String) :
    ∃ procs', Procs.ofTree? procs.toTree = some procs' ∧ procs'.rows.Perm procs.rows := by
  have hperm : procs.sorted.Perm procs.rows := List.perm_insertionSort _ _
  have hrow : ∀ row : String × Pid,
      Procs.rowOfTree? (strNode row.1, row.2.toTree) = some row := fun row => by
    rw [Procs.rowOfTree?, Pid.ofTree?_toTree]
    rfl
  have hrows := mapM_map_some hrow procs.sorted
  refine ⟨.ofList _ procs.sorted, ?_, ?_⟩
  · rw [Procs.toTree, Procs.ofTree?, if_pos rfl, hrows, Option.map_some]
  · rwa [Table.rows_ofList ((hperm.map _).nodup_iff.mpr procs.nodup)]

/-! ## Nobody reads it -/

/-- **No table dumped is loaded.** -/
theorem safeLoad_dump (yaml : YamlLib) (h : ∀ t, yaml.compose (yaml.emit t) = .ok t)
    (procs : Procs String) : yaml.safeLoad (yaml.dump procs) = .error .yamlError := by
  have htag : ¬ ∀ tag ∈ procs.toTree.tags, decide (tag ∈ standardTags) = true := by
    rw [Procs.toTree, TagTree.tags, List.forall_mem_cons]
    exact fun hall => absurd hall.1 (by decide)
  have hnone : procs.toTree.construct (· ∈ standardTags) = none := by
    rw [← Option.not_isSome_iff_eq_none, TagTree.isSome_construct]
    exact htag
  refine Eq.trans
    (b := (procs.toTree.construct (· ∈ standardTags)).elim (.error .yamlError) .ok) ?_ ?_
  · rw [YamlLib.safeLoad, YamlLib.dump, h]
    rfl
  · rw [hnone, Option.elim_none]

theorem getConfigFromConfigmap_eq (yaml : YamlLib) (server : Server) (name namespaceName : String) :
    getConfigFromConfigmap yaml (.ok server) name namespaceName = .error .typeError := by
  have hsub : subscript (server.getConfigMap namespaceName name) "config" = .error .typeError := by
    cases server.getConfigMap namespaceName name <;> rfl
  have hread : readConfig yaml (.ok server) name namespaceName = .error .typeError := by
    rw [readConfig]
    change subscript (server.getConfigMap namespaceName name) "config" >>= _ = _
    rw [hsub]
    rfl
  rw [getConfigFromConfigmap, hread]

/-- What is published is there to be read. -/
theorem getConfigMap_published {yaml : YamlLib} {server server' : Server}
    {name namespaceName : String} {procs : Procs String}
    (hpub : setConfigMap yaml server name namespaceName procs = (.ok (), server')) :
    server'.getConfigMap namespaceName name =
      some (updateConfigmap name (.ofList _ [("config", yaml.dump procs)])) := by
  simp only [setConfigMap, Server.createConfigMap] at hpub
  split at hpub
  · exact absurd (Prod.mk.inj hpub).1 (by simp [exitOnApiException])
  · rename_i hnew
    obtain rfl := (Prod.mk.inj hpub).2
    have hnone : ((server.rows.filter fun cm => cm.1 = namespaceName).map Prod.snd).find?
        (fun cm => cm.name = name) = none := by
      refine List.find?_eq_none.mpr fun cm hcm hname => hnew ?_
      obtain ⟨row, hrow, rfl⟩ := List.mem_map.mp hcm
      obtain ⟨hrow, hns⟩ := List.mem_filter.mp hrow
      exact Table.mem_keys.mpr
        ⟨row, hrow, Prod.ext (of_decide_eq_true hns) (of_decide_eq_true hname)⟩
    rw [Server.getConfigMap, Table.rows_insert_of_notMem hnew, List.filter_append, List.map_append,
      List.find?_append, hnone]
    simp [updateConfigmap]

/-- **No move table survives its publication.**  The dump is stored, and reading it raises. -/
theorem move_table_never_survives (yaml : YamlLib) (server server' : Server)
    (name namespaceName : String) (procs : Procs String)
    (hpub : setConfigMap yaml server name namespaceName procs = (.ok (), server')) :
    (∃ cm, server'.getConfigMap namespaceName name = some cm ∧
      cm.data.get? "config" = some ("config", yaml.dump procs)) ∧
      ¬ ReadBack yaml server' name namespaceName procs := by
  refine ⟨⟨_, getConfigMap_published hpub, rfl⟩, ?_⟩
  rintro ⟨config, procs', hread, -⟩
  rw [getConfigFromConfigmap_eq] at hread
  nomatch hread

/-- **No process is moved**, whatever is stored. -/
theorem reaffinitize_moves_nothing (yaml : YamlLib) (server : Server)
    (nodeName namespaceName : String) (t : RoseTree ℕ) (os : Os) :
    reaffinitize yaml (.ok server) nodeName namespaceName t os = (.error .typeError, os) := by
  rw [reaffinitize, getConfigFromConfigmap_eq]
  rfl

/-- The text of `movedPid`. -/
def movedPidText : String :=
  "!!python/object:intel.reconfigure.Procs\nprocess_map:\n" ++
    "  '7': !!python/object:intel.reconfigure.Pid\n    new_clist: '2'\n    old_clists:\n    - '1'\n"

/-- The library on that text. -/
def movedPidYaml : YamlLib where
  emit _ := movedPidText
  compose text := if text = movedPidText then .ok movedPid.toTree else .error .yamlError

/-- The cluster once `movedPid` is published. -/
def publishedServer : Server :=
  (setConfigMap movedPidYaml .empty "cmk-reconfigure-node" "default" movedPid).2

theorem setConfigMap_movedPid :
    setConfigMap movedPidYaml .empty "cmk-reconfigure-node" "default" movedPid =
      (.ok (), publishedServer) := rfl

theorem move_table_never_survives_movedPid :
    (∃ cm, publishedServer.getConfigMap "default" "cmk-reconfigure-node" = some cm ∧
      cm.data.get? "config" = some ("config", movedPidYaml.dump movedPid)) ∧
      ¬ ReadBack movedPidYaml publishedServer "cmk-reconfigure-node" "default" movedPid :=
  move_table_never_survives _ _ _ _ _ _ setConfigMap_movedPid

/-- A table with one pid is published and not read back. -/
theorem movedPid_is_lost :
    ¬ ∀ server', setConfigMap movedPidYaml .empty "cmk-reconfigure-node" "default" movedPid =
        (.ok (), server') →
      ReadBack movedPidYaml server' "cmk-reconfigure-node" "default" movedPid := by
  intro h
  obtain ⟨config, procs', hread, -⟩ := h _ setConfigMap_movedPid
  nomatch hread

end Cmk
