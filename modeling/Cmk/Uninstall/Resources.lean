import Cmk.Discover

/-!
# Uninstall/Resources — the resources that `discover` advertises and `uninstall` removes

`discover` patches two resources into the capacity of a node, and nothing else patches the node;
what is among the allocatable ones is what was there.  `uninstall` removes the first of them only,
and in the old form from the capacity only; a removal that finds nothing skips the one behind it.
So nothing of the two is left exactly when the second was never advertised and the first is not, or
is found, in both places (`resources_removed_iff`).
-/

open Machinery

namespace Cmk

/-! ## The commands -/

/-- A patch of one operation `remove`; the answer to a path that is missing has a message. -/
def removeStatus (missing : String → String) (path : String) (node : JsonValue) :
    Except String JsonValue :=
  match (JsonValue.pointer path).bind fun path => JsonValue.remove path node with
  | some node' => .ok node'
  | none => .error (missing path)

/-- `except K8sApiException`: a patch that is refused stops the command unless there was nothing to
remove. -/
def unlessMissing (node : JsonValue) (result : Except String JsonValue) : NodeStep :=
  match result with
  | .ok node' => (.ok (), node')
  | .error message =>
    if isIn "nonexistant" message then (.ok (), node) else (.error (.systemExit 1), node)

def removeNodeCmkOir (missing : String → String) (node : JsonValue) : NodeStep :=
  unlessMissing node (removeStatus missing
    "/status/capacity/pod.alpha.kubernetes.io~1opaque-int-resource-cmk" node)

def removeNodeCmkEr (missing : String → String) (node : JsonValue) : NodeStep :=
  match removeStatus missing "/status/capacity/cmk.intel.com~1exclusive-cores" node with
  | .error message => unlessMissing node (.error message)
  | .ok node' => unlessMissing node' (removeStatus missing
      "/status/allocatable/cmk.intel.com~1exclusive-cores" node')

def removeResourceTracking (kubeVersion : Except PyErr String) (missing : String → String)
    (node : JsonValue) : NodeStep :=
  match kubeVersion >>= parseVersion with
  | .error e => (.error e, node)
  | .ok version =>
    if version = [1, 8] then (.ok (), node)
    else if [1, 8, 1] ≤ version then removeNodeCmkEr missing node
    else removeNodeCmkOir missing node

/-! ## Runs of `discover` -/

/-- What the node has of a resource for pods. -/
def allocatable (node : JsonValue) (resource : String) : Option JsonValue :=
  node.get? ["status", "allocatable", resource]

def ResourceNames.toList (names : ResourceNames) : List String :=
  [names.exclusive, names.exclNonIsolcpus]

/-- The node after `discover` has counted one configuration after the other. -/
inductive Discovered (version : List ℕ) (node : JsonValue) :
    List (Conf Scalar Yaml) → JsonValue → Prop
  | never : Discovered version node [] node
  | again {V : Type} [DecidableEq V] {codec : Codec String (Conf Scalar Yaml)}
      {self : Config V String (Conf Scalar Yaml)} {v : Visit V String} {api : NodeApi}
      {cm : ConfigMap V String} {c : Conf Scalar Yaml} {cs : List (Conf Scalar Yaml)}
      {middle node' : JsonValue} :
      Discovered version node cs middle → v.Loads codec c →
      addNode codec self v (resourcePaths version) api middle = some (cm, .ok (), node') →
      Discovered version node (cs ++ [c]) node'

/-- **The resources are removed**: none is left of the two, and of the others nothing changes. -/
structure ResourcesRemoved (version : List ℕ) (before : JsonValue) (after : NodeStep) : Prop where
  returns : after.1 = .ok ()
  gone : ∀ resource ∈ (resourceNames version).toList,
    capacity after.2 resource = none ∧ allocatable after.2 resource = none
  kept : ∀ resource ∉ (resourceNames version).toList,
    capacity after.2 resource = capacity before resource ∧
      allocatable after.2 resource = allocatable before resource

/-- The second resource was never there, and the first one is not allocatable, or is found in the
capacity and then among the allocatable ones. -/
structure FullyRemovable (version : List ℕ) (before : JsonValue) (cs : List (Conf Scalar Yaml)) :
    Prop where
  second : capacity before (resourceNames version).exclNonIsolcpus = none ∧
    allocatable before (resourceNames version).exclNonIsolcpus = none ∧
      ∀ c ∈ cs, c.countIn "exclusive-non-isolcpus" = 0
  first : allocatable before (resourceNames version).exclusive = none ∨
    [1, 8, 1] ≤ version ∧
      (cs ≠ [] ∨ (capacity before (resourceNames version).exclusive).isSome)

variable {version : List ℕ} {before node : JsonValue} {cs : List (Conf Scalar Yaml)}

/-- **What runs of `discover` leave.** -/
structure Tracked (version : List ℕ) (before : JsonValue) (cs : List (Conf Scalar Yaml))
    (node : JsonValue) : Prop where
  first : (capacity node (resourceNames version).exclusive).isSome ↔
    cs ≠ [] ∨ (capacity before (resourceNames version).exclusive).isSome
  second : capacity node (resourceNames version).exclNonIsolcpus = none ↔
    capacity before (resourceNames version).exclNonIsolcpus = none ∧
      ∀ c ∈ cs, c.countIn "exclusive-non-isolcpus" = 0
  others : ∀ resource ∉ (resourceNames version).toList,
    capacity node resource = capacity before resource
  allocatable : ∀ resource, allocatable node resource = allocatable before resource

theorem isSome_of_advertises {resource : String} {n : ℤ} (h : Advertises node resource n) :
    (capacity node resource).isSome := by
  obtain ⟨value, hvalue, -⟩ := Option.bind_eq_some_iff.mp h
  exact hvalue ▸ rfl

theorem apart_allocatable (resource resource' : String) :
    JsonValue.Apart ["status", "capacity", resource] ["status", "allocatable", resource'] :=
  (JsonValue.apart_of_ne (by decide) _ _).cons _

theorem not_mem_resources {resource : String} (h : resource ∉ (resourceNames version).toList) :
    resource ≠ (resourceNames version).exclusive ∧
      resource ≠ (resourceNames version).exclNonIsolcpus := by
  simpa [ResourceNames.toList] using h

theorem Discovered.tracked (h : Discovered version before cs node) :
    Tracked version before cs node := by
  induction h with
  | never => exact ⟨by simp, by simp, fun _ _ => rfl, fun _ => rfl⟩
  | @again _ _ _ _ _ _ _ c _ _ _ _ hload hadd ih =>
    obtain ⟨hexclusive, hlisted, hunlisted⟩ := addNode_ok hload hadd
    refine ⟨?_, ?_, fun resource hother => ?_, fun resource => ?_⟩
    · exact iff_of_true (isSome_of_advertises hexclusive)
        (.inl (List.append_ne_nil_of_right_ne_nil _ (List.cons_ne_nil _ _)))
    · rcases Nat.eq_zero_or_pos (c.countIn "exclusive-non-isolcpus") with hzero | hpos
      · rw [hunlisted hzero, ih.second, List.forall_mem_append, List.forall_mem_singleton,
          and_iff_left hzero]
      · have hsome := isSome_of_advertises (hlisted hpos)
        refine iff_of_false (fun hnone => by rw [hnone] at hsome; cases hsome) fun hzero => ?_
        exact hpos.ne' (hzero.2 c (by simp))
    · obtain ⟨hone, htwo⟩ := not_mem_resources hother
      exact (addNode_apart hadd (apart_capacity (Ne.symm hone)) (apart_capacity
        (Ne.symm htwo))).trans (ih.others resource hother)
    · exact (addNode_apart hadd (apart_allocatable _ _) (apart_allocatable _ _)).trans
        (ih.allocatable resource)

/-! ## What is removed -/

variable {missing : String → String} {kubeVersion : Except PyErr String} {text part name : String}

/-- The node after a removal, that of a path that is missing too. -/
def afterRemoval (missing : String → String) (text : String) (node : JsonValue) : JsonValue :=
  (removeStatus missing text node).toOption.getD node

theorem removeStatus_cases (missing : String → String) (node : JsonValue)
    (hpointer : JsonValue.pointer text = some ["status", part, name]) :
    (removeStatus missing text node = .ok (afterRemoval missing text node) ∧
      (node.get? ["status", part, name]).isSome) ∨
      (removeStatus missing text node = .error (missing text) ∧
        node.get? ["status", part, name] = none) := by
  have hiff := JsonValue.isSome_remove "status" [part, name] node
  rw [afterRemoval, removeStatus, hpointer, Option.bind_some]
  cases hremove : JsonValue.remove ["status", part, name] node with
  | some node' => exact .inl ⟨rfl, hiff.mp (by rw [hremove]; rfl)⟩
  | none => exact .inr ⟨rfl, by simpa [hremove] using hiff⟩

theorem apart_status {part part' name name' : String} (h : ¬ (part' = part ∧ name' = name)) :
    JsonValue.Apart ["status", part, name] ["status", part', name'] := by
  by_cases hpart : part' = part
  · subst hpart
    exact ((JsonValue.apart_of_ne (fun heq => h ⟨rfl, heq.symm⟩) [] []).cons part').cons _
  · exact (JsonValue.apart_of_ne (Ne.symm hpart) _ _).cons _

/-- **A removal leaves nothing at its path**, and everything else. -/
theorem get?_afterRemoval (hpointer : JsonValue.pointer text = some ["status", part, name])
    (part' name' : String) :
    (afterRemoval missing text node).get? ["status", part', name'] =
      if part' = part ∧ name' = name then none else node.get? ["status", part', name'] := by
  rw [afterRemoval, removeStatus, hpointer, Option.bind_some]
  cases hremove : JsonValue.remove ["status", part, name] node with
  | some node' =>
    split_ifs with heq
    · obtain ⟨rfl, rfl⟩ := heq
      exact JsonValue.get?_remove hremove
    · exact JsonValue.get?_remove_of_apart hremove (apart_status heq)
  | none =>
    split_ifs with heq
    · obtain ⟨rfl, rfl⟩ := heq
      have hiff := JsonValue.isSome_remove "status" [part', name'] node
      simpa [hremove, Except.toOption] using hiff
    · rfl

/-- **What is removed**: the first resource from the capacity, and as an extended resource that was
found there also from the allocatable ones. -/
structure Removed (version : List ℕ) (node : JsonValue) (after : NodeStep) : Prop where
  returns : after.1 = .ok ()
  capacity : ∀ resource, capacity after.2 resource =
    if resource = (resourceNames version).exclusive then none else capacity node resource
  allocatable : ∀ resource, allocatable after.2 resource =
    if resource = (resourceNames version).exclusive ∧ [1, 8, 1] ≤ version ∧
      (Cmk.capacity node resource).isSome then none else allocatable node resource

theorem unlessMissing_removeStatus (hmissing : ∀ path, isIn "nonexistant" (missing path) = true)
    (hpointer : JsonValue.pointer text = some ["status", part, name]) (node : JsonValue) :
    unlessMissing node (removeStatus missing text node) =
      (.ok (), afterRemoval missing text node) := by
  rcases removeStatus_cases missing node hpointer with
    ⟨hok, -⟩ | ⟨herror, -⟩
  · rw [hok]
    rfl
  · rw [herror, afterRemoval, herror, unlessMissing, if_pos (hmissing text)]
    rfl

theorem removeNodeCmkOir_removed (hmissing : ∀ path, isIn "nonexistant" (missing path) = true)
    (hv : ¬ [1, 8, 1] ≤ version) (node : JsonValue) :
    Removed version node (removeNodeCmkOir missing node) := by
  have hname : (resourceNames version).exclusive =
      "pod.alpha.kubernetes.io/opaque-int-resource-cmk" := by rw [resourceNames, if_neg hv]
  have hpointer : JsonValue.pointer
      "/status/capacity/pod.alpha.kubernetes.io~1opaque-int-resource-cmk" =
        some ["status", "capacity", "pod.alpha.kubernetes.io/opaque-int-resource-cmk"] := rfl
  rw [removeNodeCmkOir, unlessMissing_removeStatus hmissing hpointer]
  refine ⟨rfl, fun resource => ?_, fun resource => ?_⟩
  · rw [hname, capacity, get?_afterRemoval hpointer]
    simp [capacity]
  · rw [allocatable, get?_afterRemoval hpointer]
    simp [allocatable, hv]

theorem removeNodeCmkEr_removed (hmissing : ∀ path, isIn "nonexistant" (missing path) = true)
    (hv : [1, 8, 1] ≤ version) (node : JsonValue) :
    Removed version node (removeNodeCmkEr missing node) := by
  have hname : (resourceNames version).exclusive = "cmk.intel.com/exclusive-cores" := by
    rw [resourceNames, if_pos hv]
  have hcapacity : JsonValue.pointer "/status/capacity/cmk.intel.com~1exclusive-cores" =
      some ["status", "capacity", "cmk.intel.com/exclusive-cores"] := rfl
  have hallocatable : JsonValue.pointer "/status/allocatable/cmk.intel.com~1exclusive-cores" =
      some ["status", "allocatable", "cmk.intel.com/exclusive-cores"] := rfl
  rw [removeNodeCmkEr]
  rcases removeStatus_cases missing node hcapacity with
    ⟨hok, hfound⟩ | ⟨herror, hnone⟩
  · rw [hok]
    dsimp only
    rw [unlessMissing_removeStatus hmissing hallocatable]
    refine ⟨rfl, fun resource => ?_, fun resource => ?_⟩
    · rw [hname, capacity, get?_afterRemoval hallocatable, get?_afterRemoval hcapacity]
      simp [capacity]
    · have hiff : resource = "cmk.intel.com/exclusive-cores" ∧ [1, 8, 1] ≤ version ∧
          (capacity node resource).isSome ↔ resource = "cmk.intel.com/exclusive-cores" :=
        and_iff_left_of_imp fun heq => ⟨hv, heq ▸ hfound⟩
      rw [hname, allocatable, get?_afterRemoval hallocatable, get?_afterRemoval hcapacity]
      simp [hiff, allocatable]
  · -- the removal behind it is skipped
    rw [herror]
    dsimp only
    rw [unlessMissing, if_pos (hmissing _)]
    refine ⟨rfl, fun resource => ?_, fun resource => (if_neg ?_).symm⟩
    · rw [hname]
      split_ifs with heq
      · exact heq ▸ hnone
      · rfl
    · rintro ⟨heq, -, hsome⟩
      rw [heq, hname, capacity, hnone] at hsome
      cases hsome

/-- **`uninstall` removes the first resource**, on every cluster it supports. -/
theorem removeResourceTracking_removed
    (hmissing : ∀ path, isIn "nonexistant" (missing path) = true)
    (hversion : kubeVersion >>= parseVersion = .ok version) (hsupported : version ≠ [1, 8])
    (node : JsonValue) :
    Removed version node (removeResourceTracking kubeVersion missing node) := by
  rw [removeResourceTracking, hversion]
  dsimp only
  rw [if_neg hsupported]
  split_ifs with hv
  · exact removeNodeCmkEr_removed hmissing hv node
  · exact removeNodeCmkOir_removed hmissing hv node

/-- **`uninstall` removes what `discover` advertises** exactly when the second resource was never
there and the first is found wherever it is. -/
theorem resources_removed_iff (missing : String → String) (kubeVersion : Except PyErr String)
    (version : List ℕ) (before node : JsonValue) (cs : List (Conf Scalar Yaml))
    (hmissing : ∀ path, isIn "nonexistant" (missing path) = true)
    (hversion : kubeVersion >>= parseVersion = .ok version) (hsupported : version ≠ [1, 8])
    (hruns : Discovered version before cs node) :
    ResourcesRemoved version before (removeResourceTracking kubeVersion missing node) ↔
      FullyRemovable version before cs := by
  have htracked := hruns.tracked
  obtain ⟨hreturns, hcapacity, hallocatable⟩ :=
    removeResourceTracking_removed hmissing hversion hsupported node
  have hne := resourceNames_ne version
  constructor
  · rintro ⟨-, hgone, -⟩
    obtain ⟨hfirst, hsecond⟩ : _ ∧ _ := by simpa [ResourceNames.toList] using hgone
    rw [hcapacity, if_neg hne.symm, htracked.second] at hsecond
    rw [hallocatable, if_neg fun h => hne h.1.symm, htracked.allocatable] at hsecond
    refine ⟨⟨hsecond.1.1, hsecond.2, hsecond.1.2⟩, ?_⟩
    have hleft := hfirst.2
    rw [hallocatable] at hleft
    split_ifs at hleft with hfound
    · exact .inr ⟨hfound.2.1, htracked.first.mp hfound.2.2⟩
    · exact .inl (htracked.allocatable _ ▸ hleft)
  · rintro ⟨⟨hcap, halloc, hcounts⟩, hfirst⟩
    refine ⟨hreturns, ?_, ?_⟩
    · simp only [ResourceNames.toList, List.forall_mem_cons, List.not_mem_nil, false_imp_iff,
        implies_true, and_true]
      refine ⟨⟨?_, ?_⟩, ?_, ?_⟩
      · rw [hcapacity, if_pos rfl]
      · rw [hallocatable]
        split_ifs with hfound
        · rfl
        · rw [htracked.allocatable]
          refine hfirst.resolve_right fun hright => hfound ⟨rfl, hright.1, ?_⟩
          exact htracked.first.mpr hright.2
      · rw [hcapacity, if_neg hne.symm]
        exact htracked.second.mpr ⟨hcap, hcounts⟩
      · rw [hallocatable, if_neg fun h => hne h.1.symm, htracked.allocatable]
        exact halloc
    · intro resource hother
      obtain ⟨hone, -⟩ := not_mem_resources hother
      rw [hcapacity, if_neg hone, hallocatable, if_neg fun h => hone h.1]
      exact ⟨htracked.others resource hother, htracked.allocatable resource⟩

/-- A node that advertises nothing yet. -/
def freshNode : JsonValue :=
  .obj [("status", .obj [("capacity", .obj [("cpu", .num 4)]), ("allocatable",
    .obj [("cpu", .num 4)])])]

/-- The node after one exclusive CPU list has been counted. -/
def countedNode : JsonValue :=
  .obj [("status", .obj [("capacity", .obj [("cpu", .num 4),
    ("cmk.intel.com/exclusive-cores", .num 1)]), ("allocatable", .obj [("cpu", .num 4)])])]

/-- A server that words what is missing. -/
def wordsMissing (path : String) : String := "Unable to remove nonexistant key: " ++ path

theorem isIn_wordsMissing (path : String) : isIn "nonexistant" (wordsMissing path) = true := by
  have hword : "nonexistant".toList <:+: "Unable to remove nonexistant key: ".toList := by decide
  refine decide_eq_true ?_
  unfold wordsMissing
  rw [String.toList_append]
  exact hword.trans (List.prefix_append _ _).isInfix

theorem addNode_exclusiveOnly :
    addNode (yamlCodec (fun _ => .ok exclusiveOnly) fun _ => "")
      (.init "cmk-config-node" "pod" "default") freeVisit (resourcePaths [1, 18, 3]) openApi
      freshNode = some (⟨some "", some "", 2⟩, .ok (), countedNode) := by
  rfl

theorem discovered_exclusiveOnly :
    Discovered [1, 18, 3] freshNode [exclusiveOnlyConf] countedNode :=
  .again .never loads_exclusiveOnly addNode_exclusiveOnly

theorem resources_removed_exclusiveOnly :
    ResourcesRemoved [1, 18, 3] freshNode
        (removeResourceTracking (.ok "v1.18.3") wordsMissing countedNode) ↔
      FullyRemovable [1, 18, 3] freshNode [exclusiveOnlyConf] :=
  resources_removed_iff wordsMissing (.ok "v1.18.3") [1, 18, 3] freshNode countedNode _
    isIn_wordsMissing rfl (by decide) discovered_exclusiveOnly

/-- A configmap with one CPU list in each exclusive pool. -/
def bothPools : Document where
  root := .map [(.str "exclusive", .map [(.int 0, .map [(.str "0", .seq [])])]),
    (.str "exclusive-non-isolcpus", .map [(.int 0, .map [(.str "1", .seq [])])])]
  unique := by decide

/-- The configuration of `bothPools`. -/
def bothPoolsConf : Conf Scalar Yaml :=
  ⟨.ofList _ [⟨true, "exclusive", .ofList _ [⟨.int 0, .ofList _ [⟨.str "0", []⟩]⟩]⟩,
    ⟨true, "exclusive-non-isolcpus", .ofList _ [⟨.int 0, .ofList _ [⟨.str "1", []⟩]⟩]⟩]⟩

/-- The node after both lists have been counted. -/
def countedTwice : JsonValue :=
  .obj [("status", .obj [("capacity", .obj [("cpu", .num 4),
    ("cmk.intel.com/exclusive-cores", .num 1),
    ("cmk.intel.com/exclusive-non-isolcpus-cores", .num 1)]), ("allocatable",
    .obj [("cpu", .num 4)])])]

theorem addNode_bothPools :
    addNode (yamlCodec (fun _ => .ok bothPools) fun _ => "")
      (.init "cmk-config-node" "pod" "default") freeVisit (resourcePaths [1, 18, 3]) openApi
      freshNode = some (⟨some "", some "", 2⟩, .ok (), countedTwice) := by
  rfl

theorem loads_bothPools :
    freeVisit.Loads (yamlCodec (fun _ => .ok bothPools) fun _ => "") bothPoolsConf :=
  ⟨"text", rfl, rfl⟩

/-- The second resource is left. -/
theorem uninstall_keeps_second_resource :
    Discovered [1, 18, 3] freshNode [bothPoolsConf] countedTwice ∧
      ¬ ResourcesRemoved [1, 18, 3] freshNode
        (removeResourceTracking (.ok "v1.18.3") wordsMissing countedTwice) := by
  refine ⟨.again .never loads_bothPools addNode_bothPools, fun h => ?_⟩
  have hleft : (capacity (removeResourceTracking (.ok "v1.18.3") wordsMissing countedTwice).2
      (resourceNames [1, 18, 3]).exclNonIsolcpus).isSome := rfl
  rw [(h.gone _ (List.mem_cons_of_mem _ List.mem_cons_self)).1] at hleft
  cases hleft

end Cmk
