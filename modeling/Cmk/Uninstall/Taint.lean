import Cmk.Discover
import Cmk.Machinery.JsonText

/-!
# Uninstall/Taint — the taint that `discover` adds and `uninstall` removes

Both commands rewrite all taints of a node, those of the other owners as they are read.  A taint
with a time cannot be sent back; the annotation of an old cluster is read with different decoders;
and `uninstall` replaces a field that need not be there.  So `uninstall` undoes `discover` exactly
when the field is there or the node has taints, no other taint has a time, and in an annotation none
contains a constant (`taint_restored_iff`).
-/

open Machinery

namespace Cmk

/-! ## Removing -/

/-- `ast.literal_eval`. -/
def literalEval (text : String) : Except PyErr JsonValue :=
  match JsonValue.literalEval? text with
  | some value => .ok value
  | none => .error (if (JsonValue.loads? text).isSome then .valueError none else .syntaxError)

/-- A patch of one operation `replace`, with the handler of its caller. -/
def replaceOnNode (api : NodeApi) (patch : NodePatch) (node : JsonValue) : NodeStep :=
  if api.refuses patch then (exitOnApiException (.error .apiException), node)
  else
    match (JsonValue.pointer patch.path).bind fun path =>
      JsonValue.replace path patch.value node with
    | some node' => (.ok (), node')
    | none => (exitOnApiException (.error .apiException), node)

/-- The taints of a node, as `remove_node_taint` reads them. -/
def storedTaints (version : List ℕ) (node : JsonValue) : Except PyErr (List JsonValue) :=
  if [1, 7] ≤ version then specTaints node
  else
    match (node.get? ["metadata", "annotations"]).getD .null with
    | .obj members =>
      match (JsonValue.obj members).member? "scheduler.alpha.kubernetes.io/taints" with
      | some (.str text) => literalEval text >>= itemsOf
      | some _ => .error (.valueError none)
      | none => .ok []
    | _ => .error .typeError

def removeNodeTaint (api : NodeApi) (version : List ℕ) (node : JsonValue) : NodeStep :=
  match exitOnApiException api.listNode with
  | .error e => (.error e, node)
  | .ok () =>
    match storedTaints version node >>= otherTaints with
    | .error e => (.error e, node)
    | .ok taints =>
      if [1, 7] ≤ version then
        if taints.any hasTime then (.error .typeError, node)
        else replaceOnNode api ⟨"/spec/taints", .arr taints⟩ node
      else replaceOnNode api ⟨"/metadata/annotations/scheduler.alpha.kubernetes.io~1taints",
        .str (api.dumps taints)⟩ node

/-- A cluster that refuses nothing, and the JSON library. -/
def jsonApi (kubeVersion : Except PyErr String) : NodeApi where
  kubeVersion := kubeVersion
  refuses _ := false
  listNode := .ok ()
  loads text := (JsonValue.loads? text).elim (.error (.valueError none)) .ok
  dumps taints := (JsonValue.arr taints).dumps

/-! ## Taints -/

/-- The object that has the taints of a node, and their name in it. -/
def taintHolder (version : List ℕ) : List String :=
  if [1, 7] ≤ version then ["spec"] else ["metadata", "annotations"]

def taintName (version : List ℕ) : String :=
  if [1, 7] ≤ version then "taints" else "scheduler.alpha.kubernetes.io/taints"

/-- The field that has the taints of a node. -/
def taintField (version : List ℕ) (node : JsonValue) : Option JsonValue :=
  node.get? (taintHolder version ++ [taintName version])

/-- What the field is for these taints. -/
def fieldOf (version : List ℕ) (taints : List JsonValue) : JsonValue :=
  if [1, 7] ≤ version then .arr taints else .str (JsonValue.arr taints).dumps

/-- A taint as it is read: from 1.7 on by the attributes that the API has. -/
def asRead (version : List ℕ) (taint : JsonValue) : JsonValue :=
  if [1, 7] ≤ version then taintDict taint else taint

/-- The taints of a node, whatever the commands make of them. -/
def taintsOf (version : List ℕ) (node : JsonValue) : Option (List JsonValue) :=
  match taintField version node with
  | none => some []
  | some .null => if [1, 7] ≤ version then some [] else none
  | some (.arr taints) => if [1, 7] ≤ version then some (taints.map taintDict) else none
  | some (.str text) =>
    if [1, 7] ≤ version then none
    else
      match JsonValue.loads? text with
      | some (.arr taints) => some taints
      | _ => none
  | some _ => none

def isCmk (taint : JsonValue) : Bool := (taint.member? "key").any (isText "cmk")

/-- The taints of the other owners. -/
def others (taints : List JsonValue) : List JsonValue := taints.filter fun t => !isCmk t

/-- A taint has a key, and no two members of a name. -/
structure IsTaint (taint : JsonValue) : Prop where
  keyed : ∃ members key, taint = .obj members ∧ taint.member? "key" = some key
  unique : taint.UniqueKeys

/-- **The taint comes and goes**: after it is added, once or more, it is behind the other taints;
they are left when it is removed; and it is removed where there is no taint. -/
structure TaintRestored (kubeVersion : Except PyErr String) (version : List ℕ) (node : JsonValue)
    (taints : List JsonValue) : Prop where
  added : ∃ node', addNodeTaint (jsonApi kubeVersion) version node = (.ok (), node') ∧
    taintsOf version node' = some (others taints ++ [asRead version cmkTaint]) ∧
    addNodeTaint (jsonApi kubeVersion) version node' = (.ok (), node') ∧
    ∃ node'', removeNodeTaint (jsonApi kubeVersion) version node' = (.ok (), node'') ∧
      taintsOf version node'' = some (others taints)
  absent : taints = [] → ∃ node', removeNodeTaint (jsonApi kubeVersion) version node =
    (.ok (), node') ∧ taintsOf version node' = some []

/-- The taints are in an object of the node, in a field that is there unless there are taints; in a
spec, those of the other owners have no time; in an annotation, there is no constant in them and the
empty list is not indented. -/
structure Removable (version : List ℕ) (node : JsonValue) (taints : List JsonValue) : Prop where
  held : ∃ members, node.get? (taintHolder version) = some (.obj members)
  present : taints = [] → (taintField version node).isSome
  timeless : [1, 7] ≤ version → ∀ t ∈ others taints, hasTime t = false
  plain : ¬ [1, 7] ≤ version → ∀ t ∈ others taints, t.hasConstant = false
  flush : taints = [] → ∀ text, taintField version node = some (.str text) →
    JsonValue.indented text = false

/-! ## What the commands read -/

variable (kubeVersion : Except PyErr String) {version : List ℕ} {node node' : JsonValue}
  {taints : List JsonValue}

theorem IsTaint.itemAt {t : JsonValue} (h : IsTaint t) :
    ∃ key, itemAt t "key" = .ok key ∧ isText "cmk" key = isCmk t := by
  obtain ⟨members, key, rfl, hkey⟩ := h.keyed
  exact ⟨key, by rw [Cmk.itemAt, hkey]; rfl, by rw [isCmk, hkey]; rfl⟩

/-- **The taints but for those of the key `cmk`.** -/
theorem otherTaints_eq (h : ∀ t ∈ taints, IsTaint t) :
    otherTaints taints = .ok (others taints) := by
  induction taints with
  | nil => rfl
  | cons t taints ih =>
    obtain ⟨ht, hrest⟩ := List.forall_mem_cons.mp h
    obtain ⟨key, hkey, hcmk⟩ := ht.itemAt
    have hothers : others (t :: taints) =
        if isText "cmk" key then others taints else t :: others taints := by
      rw [others, List.filter_cons, hcmk]
      cases isCmk t <;> rfl
    rw [otherTaints, hkey, ih hrest, hothers]
    rfl

theorem isTaint_cmkTaint : IsTaint cmkTaint := ⟨⟨_, .str "cmk", rfl, rfl⟩, by decide⟩

theorem isTaint_asRead_cmkTaint (version : List ℕ) : IsTaint (asRead version cmkTaint) := by
  rw [asRead]
  split_ifs
  · exact ⟨⟨_, .str "cmk", rfl, rfl⟩, by decide⟩
  · exact isTaint_cmkTaint

theorem isCmk_asRead_cmkTaint (version : List ℕ) : isCmk (asRead version cmkTaint) = true := by
  rw [asRead]
  split_ifs <;> rfl

/-- A taint without a time is read as it was written. -/
theorem taintDict_taintDict {t : JsonValue} (h : hasTime (taintDict t) = false) :
    taintDict (taintDict t) = taintDict t := by
  have htime : isNone ((t.member? "timeAdded").getD .null) = true := by
    rwa [hasTime, Bool.not_eq_false'] at h
  have hnull : (t.member? "timeAdded").getD .null = .null := by
    generalize (t.member? "timeAdded").getD .null = time at htime
    cases time with
    | null => rfl
    | _ => cases htime
  rw [taintDict, taintDict, hnull]
  rfl

theorem others_others (taints : List JsonValue) : others (others taints) = others taints := by
  rw [others, others, List.filter_filter]
  simp

/-- Adding and removing starts from the same other taints. -/
theorem others_append_cmkTaint (version : List ℕ) (taints : List JsonValue) :
    others (others taints ++ [asRead version cmkTaint]) = others taints := by
  rw [others, List.filter_append, ← others, others_others,
    List.filter_cons_of_neg (by simp [isCmk_asRead_cmkTaint])]
  exact List.append_nil _

/-- The taints that are read from a spec have the attributes of the API. -/
theorem exists_taintDict (hv : [1, 7] ≤ version) (h : taintsOf version node = some taints) :
    ∀ t ∈ taints, ∃ t₀, t = taintDict t₀ := by
  rw [taintsOf] at h
  split at h
  · obtain rfl := Option.some.inj h
    exact List.forall_mem_nil _
  · rw [if_pos hv] at h
    obtain rfl := Option.some.inj h
    exact List.forall_mem_nil _
  · rw [if_pos hv] at h
    obtain rfl := Option.some.inj h
    exact List.forall_mem_map.mpr fun t _ => ⟨t, rfl⟩
  · rw [if_pos hv] at h
    cases h
  · cases h

/-- Without a time, the other taints are read as they are written. -/
theorem map_asRead_others (h : taintsOf version node = some taints)
    (htime : [1, 7] ≤ version → ∀ t ∈ others taints, hasTime t = false) :
    (others taints).map (asRead version) = others taints := by
  refine (List.map_congr_left fun t ht => ?_).trans (List.map_id _)
  rw [asRead]
  split_ifs with hv
  · obtain ⟨t₀, rfl⟩ := exists_taintDict hv h t (List.mem_of_mem_filter ht)
    exact taintDict_taintDict (htime hv _ ht)
  · rfl

theorem pointer_taint (version : List ℕ) :
    JsonValue.pointer (if [1, 7] ≤ version then "/spec/taints"
      else "/metadata/annotations/scheduler.alpha.kubernetes.io~1taints") =
      some (taintHolder version ++ [taintName version]) := by
  unfold taintHolder taintName
  split <;> rfl

/-- From version 1.7 on the taints are a field. -/
theorem specTaints_eq (hv : [1, 7] ≤ version)
    (hheld : ∃ members, node.get? (taintHolder version) = some (.obj members))
    (h : taintsOf version node = some taints) : specTaints node = .ok taints := by
  obtain ⟨members, hheld⟩ := hheld
  rw [taintsOf, taintField] at h
  simp only [taintHolder, taintName, if_pos hv] at hheld h
  rw [JsonValue.get?_concat, hheld, Option.bind_some] at h
  rw [specTaints, hheld]
  dsimp only [Option.getD_some]
  cases hfield : (JsonValue.obj members).member? "taints" with
  | none =>
    rw [hfield] at h
    obtain rfl := Option.some.inj h
    rfl
  | some field =>
    rw [hfield] at h
    cases field with
    | null =>
      obtain rfl := Option.some.inj h
      rfl
    | arr ts =>
      obtain rfl := Option.some.inj h
      cases ts <;> rfl
    | _ => cases h

/-- Before it they are the text of an annotation. -/
theorem nodeTaints_of_annotation (hv : ¬ [1, 7] ≤ version)
    (hheld : ∃ members, node.get? (taintHolder version) = some (.obj members))
    (h : taintsOf version node = some taints) :
    nodeTaints (jsonApi kubeVersion) version node = .ok taints := by
  obtain ⟨members, hheld⟩ := hheld
  rw [taintsOf, taintField] at h
  rw [nodeTaints]
  simp only [taintHolder, taintName, if_neg hv] at hheld h ⊢
  rw [JsonValue.get?_concat, hheld, Option.bind_some] at h
  rw [hheld]
  dsimp only [Option.getD_some]
  cases hfield : (JsonValue.obj members).member? "scheduler.alpha.kubernetes.io/taints" with
  | none =>
    rw [hfield] at h
    obtain rfl := Option.some.inj h
    rfl
  | some field =>
    rw [hfield] at h
    cases field with
    | str text =>
      dsimp only at h ⊢
      split at h
      · rename_i ts hloads
        obtain rfl := Option.some.inj h
        have hne : text ≠ "" := by
          rintro rfl
          cases hloads
        rw [if_pos hne, jsonApi]
        dsimp only
        rw [hloads]
        rfl
      · cases h
    | _ => cases h

/-- **What `discover` reads** are the taints of the node. -/
theorem nodeTaints_eq (hheld : ∃ members, node.get? (taintHolder version) = some (.obj members))
    (h : taintsOf version node = some taints) :
    nodeTaints (jsonApi kubeVersion) version node = .ok taints := by
  by_cases hv : [1, 7] ≤ version
  · rw [nodeTaints, if_pos hv, specTaints_eq hv hheld h]
  · exact nodeTaints_of_annotation kubeVersion hv hheld h

theorem storedTaints_of_text {text : String} (hv : ¬ [1, 7] ≤ version)
    (hfield : taintField version node = some (.str text)) :
    storedTaints version node = literalEval text >>= itemsOf := by
  rw [taintField, JsonValue.get?_concat] at hfield
  obtain ⟨holder, hheld, hmember⟩ := Option.bind_eq_some_iff.mp hfield
  simp only [taintHolder, taintName, if_neg hv] at hheld hmember
  rw [storedTaints, if_neg hv, hheld]
  dsimp only [Option.getD_some]
  cases holder with
  | obj members =>
    dsimp only
    rw [hmember]
  | _ => cases hmember

/-- **What `uninstall` reads** are the taints of the node, if the text of an annotation is a literal
of them. -/
theorem storedTaints_eq (hheld : ∃ members, node.get? (taintHolder version) = some (.obj members))
    (h : taintsOf version node = some taints)
    (hliteral : ∀ text, taintField version node = some (.str text) →
      JsonValue.literalEval? text = some (.arr taints)) :
    storedTaints version node = .ok taints := by
  by_cases hv : [1, 7] ≤ version
  · rw [storedTaints, if_pos hv, specTaints_eq hv hheld h]
  · cases hfield : taintField version node with
    | none =>
      obtain ⟨members, hheld⟩ := hheld
      rw [taintsOf, hfield] at h
      obtain rfl := Option.some.inj h
      rw [taintField, JsonValue.get?_concat, hheld, Option.bind_some] at hfield
      simp only [taintHolder, taintName, if_neg hv] at hheld hfield
      rw [storedTaints, if_neg hv, hheld]
      dsimp only [Option.getD_some]
      rw [hfield]
    | some field =>
      cases field with
      | str text =>
        rw [storedTaints_of_text hv hfield, literalEval, hliteral text hfield]
        rfl
      | _ => simp [taintsOf, hfield, hv] at h

/-! ## What the commands write -/

/-- **What is written is found.** -/
theorem taintsOf_of_field (hfield : taintField version node = some (fieldOf version taints))
    (h : ∀ t ∈ taints, IsTaint t) :
    taintsOf version node = some (taints.map (asRead version)) := by
  rw [taintsOf, hfield, fieldOf]
  unfold asRead
  split_ifs with hv
  · rfl
  · have hunique : (JsonValue.arr taints).UniqueKeys := by
      rw [JsonValue.UniqueKeys, JsonValue.anyNode]
      exact JsonValue.anyItem_eq_false.mpr fun t ht => (h t ht).unique
    dsimp only
    rw [JsonValue.loads_dumps hunique, List.map_id']

/-- The outcome of a patch that is not refused. -/
def patched (result : Option JsonValue) (node : JsonValue) : NodeStep :=
  match result with
  | some node' => (.ok (), node')
  | none => (.error (.systemExit 1), node)

theorem patched_ok {result : Option JsonValue} (h : (patched result node).1 = .ok ()) :
    result = some (patched result node).2 := by
  cases result with
  | some node' => rfl
  | none => cases h

/-- The taints can be sent. -/
def Sendable (version : List ℕ) (taints : List JsonValue) : Prop :=
  [1, 7] ≤ version → ∀ t ∈ taints, hasTime t = false

theorem Sendable.any (h : Sendable version taints) (hv : [1, 7] ≤ version) :
    taints.any hasTime = false := by
  simpa using h hv

/-- The patch of the taints, where they can be sent. -/
theorem addNodeTaint_eq (hsend : Sendable version taints)
    (h : nodeTaints (jsonApi kubeVersion) version node >>= otherTaints = .ok taints) :
    addNodeTaint (jsonApi kubeVersion) version node =
      patched (JsonValue.add (taintHolder version ++ [taintName version])
        (fieldOf version (taints ++ [cmkTaint])) node) node := by
  have hlist : exitOnApiException (jsonApi kubeVersion).listNode = .ok () := rfl
  have hpointer := pointer_taint version
  rw [addNodeTaint, hlist, h, fieldOf]
  dsimp only
  split_ifs at hpointer ⊢ with hv htime
  · rw [hsend.any hv] at htime
    cases htime
  · rw [patchNode, NodePatch.apply, hpointer, Option.bind_some]
    rfl
  · rw [patchNode, NodePatch.apply, hpointer, Option.bind_some]
    rfl

theorem removeNodeTaint_eq (hsend : Sendable version taints)
    (h : storedTaints version node >>= otherTaints = .ok taints) :
    removeNodeTaint (jsonApi kubeVersion) version node =
      patched (JsonValue.replace (taintHolder version ++ [taintName version])
        (fieldOf version taints) node) node := by
  have hlist : exitOnApiException (jsonApi kubeVersion).listNode = .ok () := rfl
  have hpointer := pointer_taint version
  rw [removeNodeTaint, hlist, h, fieldOf]
  dsimp only
  split_ifs at hpointer ⊢ with hv htime
  · rw [hsend.any hv] at htime
    cases htime
  · rw [replaceOnNode, hpointer, Option.bind_some]
    rfl
  · rw [replaceOnNode, hpointer, Option.bind_some]
    rfl

/-- A taint that is added has been sent with those read. -/
theorem sendable_of_added (h : (addNodeTaint (jsonApi kubeVersion) version node).1 = .ok ()) :
    ∃ taints, nodeTaints (jsonApi kubeVersion) version node >>= otherTaints = .ok taints ∧
      Sendable version taints := by
  have hlist : exitOnApiException (jsonApi kubeVersion).listNode = .ok () := rfl
  rw [addNodeTaint, hlist] at h
  dsimp only at h
  split at h
  · cases h
  next taints hread =>
    refine ⟨taints, hread, fun hv => ?_⟩
    rw [if_pos hv] at h
    split_ifs at h with htime
    simpa using htime

/-- A taint that is removed has been sent with those read. -/
theorem sendable_of_removed
    (h : (removeNodeTaint (jsonApi kubeVersion) version node).1 = .ok ()) :
    ∃ taints, storedTaints version node >>= otherTaints = .ok taints ∧ Sendable version taints := by
  have hlist : exitOnApiException (jsonApi kubeVersion).listNode = .ok () := rfl
  rw [removeNodeTaint, hlist] at h
  dsimp only at h
  split at h
  · cases h
  next taints hread =>
    refine ⟨taints, hread, fun hv => ?_⟩
    rw [if_pos hv] at h
    split_ifs at h with htime
    simpa using htime

/-- A taint that is added has an object to be in. -/
theorem held_of_added (h : (addNodeTaint (jsonApi kubeVersion) version node).1 = .ok ()) :
    ∃ members, node.get? (taintHolder version) = some (.obj members) := by
  obtain ⟨ts, hread, hsend⟩ := sendable_of_added kubeVersion h
  rw [addNodeTaint_eq kubeVersion hsend hread] at h
  exact JsonValue.parent_of_add (patched_ok h)

/-- A taint that is removed was in a field that is there, and the text of an annotation is a
literal. -/
theorem present_of_removed (h : (removeNodeTaint (jsonApi kubeVersion) version node).1 = .ok ()) :
    (taintField version node).isSome ∧
      (¬ [1, 7] ≤ version → ∀ text, taintField version node = some (.str text) →
        (JsonValue.literalEval? text).isSome) := by
  obtain ⟨ts, hread, hsend⟩ := sendable_of_removed kubeVersion h
  rw [removeNodeTaint_eq kubeVersion hsend hread] at h
  refine ⟨JsonValue.isSome_replace_concat.mp (by rw [patched_ok h]; rfl), ?_⟩
  intro hv text htext
  obtain ⟨read, hstored, -⟩ := bind_eq_ok.mp hread
  rw [storedTaints_of_text hv htext] at hstored
  obtain ⟨value, hliteral, -⟩ := bind_eq_ok.mp hstored
  rw [literalEval] at hliteral
  split at hliteral
  · rename_i hsome
    rw [hsome]
    rfl
  · cases hliteral

theorem forall_isTaint_added (h : ∀ t ∈ taints, IsTaint t) :
    ∀ t ∈ others taints ++ [cmkTaint], IsTaint t := by
  intro t ht
  rcases List.mem_append.mp ht with hother | hcmk
  · exact h t (List.mem_of_mem_filter hother)
  · exact List.mem_singleton.mp hcmk ▸ isTaint_cmkTaint

/-- The literal that `discover` writes is one for `uninstall` unless there is a constant in it. -/
theorem literalEval?_added (h : ∀ t ∈ taints, IsTaint t) :
    JsonValue.literalEval? (JsonValue.arr (others taints ++ [cmkTaint])).dumps =
      if ∀ t ∈ others taints, t.hasConstant = false then some (.arr (others taints ++ [cmkTaint]))
      else none := by
  have hunique : (JsonValue.arr (others taints ++ [cmkTaint])).UniqueKeys := by
    rw [JsonValue.UniqueKeys, JsonValue.anyNode]
    exact JsonValue.anyItem_eq_false.mpr fun t ht => (forall_isTaint_added h t ht).unique
  have hconst : (JsonValue.arr (others taints ++ [cmkTaint])).hasConstant = false ↔
      ∀ t ∈ others taints, t.hasConstant = false := by
    rw [JsonValue.hasConstant, JsonValue.anyNode, JsonValue.isConstant, Bool.false_or,
      JsonValue.anyItem_eq_false, List.forall_mem_append]
    · exact and_iff_left fun t ht => List.mem_singleton.mp ht ▸ rfl
    · exact fun hnull => by cases hnull
    · exact fun b hbool => by cases hbool
  rw [JsonValue.literalEval?_dumps hunique]
  simp only [hconst]

/-- What is added is read back. -/
theorem taintsOf_added (h : taintsOf version node = some taints) (ht : ∀ t ∈ taints, IsTaint t)
    (hsend : Sendable version (others taints))
    (hfield : taintField version node' = some (fieldOf version (others taints ++ [cmkTaint]))) :
    taintsOf version node' = some (others taints ++ [asRead version cmkTaint]) := by
  rw [taintsOf_of_field hfield (forall_isTaint_added ht), List.map_append,
    map_asRead_others h hsend]
  rfl

theorem forall_isTaint_read (version : List ℕ) (h : ∀ t ∈ taints, IsTaint t) :
    ∀ t ∈ others taints ++ [asRead version cmkTaint], IsTaint t := by
  refine List.forall_mem_append.mpr ⟨fun t ht => h t (List.mem_of_mem_filter ht), ?_⟩
  exact List.forall_mem_singleton.mpr (isTaint_asRead_cmkTaint version)

/-- **Adding the taint**, once or more. -/
theorem addNodeTaint_added (h : taintsOf version node = some taints)
    (ht : ∀ t ∈ taints, IsTaint t) (hsend : Sendable version (others taints))
    (hheld : ∃ members, node.get? (taintHolder version) = some (.obj members)) :
    ∃ node', addNodeTaint (jsonApi kubeVersion) version node = (.ok (), node') ∧
      taintField version node' = some (fieldOf version (others taints ++ [cmkTaint])) ∧
      (∃ members, node'.get? (taintHolder version) = some (.obj members)) ∧
      addNodeTaint (jsonApi kubeVersion) version node' = (.ok (), node') := by
  obtain ⟨members, hmembers⟩ := hheld
  obtain ⟨node', hadd, hheld'⟩ := JsonValue.add_concat hmembers
  have hfield := JsonValue.get?_add hadd
  have hread : nodeTaints (jsonApi kubeVersion) version node >>= otherTaints =
      .ok (others taints) := by
    rw [nodeTaints_eq kubeVersion ⟨members, hmembers⟩ h]
    exact otherTaints_eq ht
  have hread' : nodeTaints (jsonApi kubeVersion) version node' >>= otherTaints =
      .ok (others taints) := by
    rw [nodeTaints_eq kubeVersion ⟨_, hheld'⟩ (taintsOf_added h ht hsend hfield)]
    exact (otherTaints_eq (forall_isTaint_read version ht)).trans
      (congrArg _ (others_append_cmkTaint version taints))
  refine ⟨node', ?_, hfield, ⟨_, hheld'⟩, ?_⟩
  · rw [addNodeTaint_eq kubeVersion hsend hread, hadd]
    rfl
  · rw [addNodeTaint_eq kubeVersion hsend hread', JsonValue.add_add hadd]
    rfl

/-- **Removing the taint** where the field is there and the taints are read and can be sent. -/
theorem removeNodeTaint_removed (h : storedTaints version node = .ok taints)
    (ht : ∀ t ∈ taints, IsTaint t) (hsend : Sendable version (others taints))
    (hfield : (taintField version node).isSome) :
    ∃ node', removeNodeTaint (jsonApi kubeVersion) version node = (.ok (), node') ∧
      taintsOf version node' = some ((others taints).map (asRead version)) := by
  obtain ⟨node', hreplace⟩ := Option.isSome_iff_exists.mp
    (JsonValue.isSome_replace_concat.mpr hfield)
  have hread : storedTaints version node >>= otherTaints = .ok (others taints) := by
    rw [h]
    exact otherTaints_eq ht
  refine ⟨node', ?_, taintsOf_of_field (JsonValue.get?_replace hreplace) fun t hmem =>
    ht t (List.mem_of_mem_filter hmem)⟩
  rw [removeNodeTaint_eq kubeVersion hsend hread, hreplace]
  rfl

theorem loads?_of_taintsOf {text : String} (h : taintsOf version node = some taints)
    (hfield : taintField version node = some (.str text)) :
    ¬ [1, 7] ≤ version ∧ JsonValue.loads? text = some (.arr taints) := by
  rw [taintsOf, hfield] at h
  dsimp only at h
  split_ifs at h with hv
  split at h
  · rename_i ts hloads
    obtain rfl := Option.some.inj h
    exact ⟨hv, hloads⟩
  · cases h

/-- A taint that comes and goes can be removed as it is added. -/
theorem removable_of_restored {kubeVersion : Except PyErr String} {version : List ℕ}
    {node : JsonValue} {taints : List JsonValue} (h : taintsOf version node = some taints)
    (ht : ∀ t ∈ taints, IsTaint t) (hrestored : TaintRestored kubeVersion version node taints) :
    Removable version node taints := by
  obtain ⟨⟨node', hadd, -, -, node'', hremove, -⟩, habsent⟩ := hrestored
  have hadded := congrArg Prod.fst hadd
  have hheld := held_of_added kubeVersion hadded
  have hsend : Sendable version (others taints) := by
    obtain ⟨ts, hread, hsend⟩ := sendable_of_added kubeVersion hadded
    rw [nodeTaints_eq kubeVersion hheld h] at hread
    obtain rfl := Except.ok.inj ((otherTaints_eq ht).symm.trans hread)
    exact hsend
  refine ⟨hheld, ?_, hsend, ?_, ?_⟩
  · intro hnil
    obtain ⟨node₁, hremove₁, -⟩ := habsent hnil
    exact (present_of_removed kubeVersion (congrArg Prod.fst hremove₁)).1
  · intro hv
    obtain ⟨node₁, hadd₁, hfield, -, -⟩ := addNodeTaint_added kubeVersion h ht hsend hheld
    obtain rfl := (Prod.mk.inj (hadd.symm.trans hadd₁)).2
    rw [fieldOf, if_neg hv] at hfield
    have hread := (present_of_removed kubeVersion (congrArg Prod.fst hremove)).2 hv _ hfield
    rw [literalEval?_added ht] at hread
    by_contra hnot
    rw [if_neg hnot] at hread
    cases hread
  · rintro rfl text htext
    obtain ⟨node₁, hremove₁, -⟩ := habsent rfl
    obtain ⟨hv, hloads⟩ := loads?_of_taintsOf h htext
    have hread := (present_of_removed kubeVersion (congrArg Prod.fst hremove₁)).2 hv _ htext
    rw [JsonValue.literalEval?_of_nil hloads] at hread
    by_contra hnot
    rw [if_pos (by simpa using hnot)] at hread
    cases hread

/-- One that can be removed as it is added comes and goes. -/
theorem restored_of_removable {version : List ℕ} {node : JsonValue} {taints : List JsonValue}
    (kubeVersion : Except PyErr String) (h : taintsOf version node = some taints)
    (ht : ∀ t ∈ taints, IsTaint t) (hremovable : Removable version node taints) :
    TaintRestored kubeVersion version node taints := by
  obtain ⟨hheld, hpresent, hsend, hplain, hflush⟩ := hremovable
  refine ⟨?_, ?_⟩
  · obtain ⟨node', hadd, hfield, hheld', hagain⟩ :=
      addNodeTaint_added kubeVersion h ht hsend hheld
    have hof' := taintsOf_added h ht hsend hfield
    have hothers := others_append_cmkTaint version taints
    refine ⟨node', hadd, hof', hagain, ?_⟩
    have hread : storedTaints version node' =
        .ok (others taints ++ [asRead version cmkTaint]) := by
      refine storedTaints_eq hheld' hof' fun text htext => ?_
      rw [hfield, fieldOf] at htext
      split_ifs at htext with hv
      · cases htext
      · obtain rfl := JsonValue.str.inj (Option.some.inj htext)
        rw [literalEval?_added ht, if_pos (hplain hv), asRead, if_neg hv]
    obtain ⟨node'', hremove, hof''⟩ := removeNodeTaint_removed kubeVersion hread
      (forall_isTaint_read version ht) (by rw [hothers]; exact hsend) (by rw [hfield]; rfl)
    rw [hothers, map_asRead_others h hsend] at hof''
    exact ⟨node'', hremove, hof''⟩
  · rintro rfl
    have hread : storedTaints version node = .ok [] := by
      refine storedTaints_eq hheld h fun text htext => ?_
      rw [JsonValue.literalEval?_of_nil (loads?_of_taintsOf h htext).2, hflush rfl text htext]
      rfl
    exact removeNodeTaint_removed kubeVersion hread ht hsend (hpresent rfl)

/-- A taint of another owner. -/
def dedicatedTaint : JsonValue :=
  .obj [("effect", .str "NoSchedule"), ("key", .str "dedicated"), ("value", .str "gpu")]

def nodeWithTaints (taints : List JsonValue) : JsonValue :=
  .obj [("metadata", .obj [("name", .str "node1")]), ("spec", .obj [("taints", .arr taints)])]

theorem isTaint_dedicatedTaint : IsTaint (taintDict dedicatedTaint) :=
  ⟨⟨_, .str "dedicated", rfl, rfl⟩, by decide⟩

/-- A node without a taint. -/
def untaintedNode : JsonValue :=
  .obj [("metadata", .obj [("name", .str "node1")]), ("spec", .obj [])]

/-- The taint of a node that has been cordoned. -/
def cordonTaint : JsonValue :=
  .obj [("effect", .str "NoSchedule"), ("key", .str "node.kubernetes.io/unschedulable"),
    ("timeAdded", .str "2020-06-01T12:00:00Z")]

end Cmk
