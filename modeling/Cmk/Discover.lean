import Cmk.Commands
import Cmk.Python.Json

/-!
# Discover — the resources a node advertises

`discover` counts the CPU lists of the two exclusive pools and patches the counts into the capacity
of the node, as extended resources or, on an old cluster, as opaque integer resources.  It sends no
patch for a second pool that is missing or empty, so what an earlier run advertised for it stays:
the advertised capacity follows the configuration exactly when there is a list to count or there was
nothing left to take back (`capacity_follows_iff`).
-/

open Machinery

namespace Cmk

/-! ## Versions -/

/-- The numbers at the head of the pieces between points, up to the first piece that has more to it.
-/
def releaseOf : List (List Char) → List ℕ
  | [] => []
  | piece :: pieces =>
    if piece.takeWhile Char.isDigit = [] then []
    else (natOfDigits? (piece.takeWhile Char.isDigit)).getD 0 ::
      if piece.all Char.isDigit then releaseOf pieces else []

/-- `util.parse_version`; versions are compared without the zeros at their end. -/
def parseVersion (versionStr : String) : Except PyErr (List ℕ) :=
  let cs := versionStr.toList.dropWhile isSpace
  match releaseOf ((if cs.head? = some 'v' then cs.tail else cs).splitOn '.') with
  | [] => .error (.valueError (some ("Could not parse " ++ versionStr ++ " as version string")))
  | release => .ok (release.rdropWhile (· = 0))

/-! ## Patches -/

/-- A patch of one operation `add`. -/
structure NodePatch where
  path : String
  value : JsonValue

def NodePatch.apply (patch : NodePatch) (node : JsonValue) : Option JsonValue :=
  (JsonValue.pointer patch.path).bind fun path => JsonValue.add path patch.value node

/-- What `discover` asks of the cluster besides the configmap, and of the JSON library. -/
structure NodeApi where
  kubeVersion : Except PyErr String
  refuses : NodePatch → Bool
  listNode : Except PyErr Unit
  loads : String → Except PyErr JsonValue
  dumps : List JsonValue → String

/-- The outcome of a step and the node after it. -/
abbrev NodeStep := Except PyErr Unit × JsonValue

/-- Two steps in a row. -/
def NodeStep.andThen (x : NodeStep) (f : JsonValue → NodeStep) : NodeStep :=
  match x.1 with
  | .ok () => f x.2
  | .error e => (.error e, x.2)

/-- `patch_k8s_node_status` or `patch_k8s_node`, with the handler all their callers have. -/
def patchNode (api : NodeApi) (patch : NodePatch) (node : JsonValue) : NodeStep :=
  if api.refuses patch then (exitOnApiException (.error .apiException), node)
  else
    match patch.apply node with
    | some node' => (.ok (), node')
    | none => (exitOnApiException (.error .apiException), node)

/-! ## Resources -/

/-- The two paths a kind of resource is patched at. -/
structure ResourcePaths where
  exclusive : String
  exclNonIsolcpus : String

def oirPaths : ResourcePaths where
  exclusive := "/status/capacity/pod.alpha.kubernetes.io~1opaque-int-resource-cmk"
  exclNonIsolcpus :=
    "/status/capacity/pod.alpha.kubernetes.io~1opaque-int-resource-cmk-excl-non-isolcpus"

def erPaths : ResourcePaths where
  exclusive := "/status/capacity/cmk.intel.com~1exclusive-cores"
  exclNonIsolcpus := "/status/capacity/cmk.intel.com~1exclusive-non-isolcpus-cores"

/-- The patches of the numbers of slots: none for a second number that is falsy. -/
def patchSlots (paths : ResourcePaths) (api : NodeApi) (slots : ℕ × Option ℕ) (node : JsonValue) :
    NodeStep :=
  (patchNode api ⟨paths.exclusive, .num slots.1⟩ node).andThen fun node =>
    match slots.2 with
    | some numExclNonIsolcpus =>
      if numExclNonIsolcpus ≠ 0 then
        patchNode api ⟨paths.exclNonIsolcpus, .num numExclNonIsolcpus⟩ node
      else (.ok (), node)
    | none => (.ok (), node)

section Sessions

variable {V T C α : Type} [DecidableEq V]

/-- `lock; value = section; unlock`, and the value. -/
def Config.reading (codec : Codec T C) (self : Config V T C) (v : Visit V T)
    (f : C → Except PyErr α) : Option (ConfigMap V T × Except PyErr α) :=
  match self.lock codec v with
  | none => none
  | some (cm, _, .error e) => some (cm, .error e)
  | some (cm, self, .ok ()) =>
    match self.cData with
    | none => some (cm, .error .attributeError)
    | some c =>
      match f c with
      | .error e => some (cm, .error e)
      | .ok a =>
        some ((self.unlock codec cm v.unlockVersion (.ok ())).1,
          (self.unlock codec cm v.unlockVersion (.ok ())).2.map fun _ => a)

/-- The value apart, it is the session without a `finally`. -/
theorem reading_unguarded (codec : Codec T C) (self : Config V T C) (v : Visit V T)
    (f : C → Except PyErr α) :
    (self.reading codec v f).map (fun x => (x.1, x.2.map fun _ => ())) =
      self.unguarded codec v (readOnly f) := by
  rw [Config.reading, Config.unguarded]
  cases self.lock codec v with
  | none => rfl
  | some x =>
    obtain ⟨cm, config, r⟩ := x
    cases r with
    | error e => rfl
    | ok u =>
      obtain ⟨held, cData, cmName, owner, cmNamespace⟩ := config
      cases cData with
      | none => rfl
      | some c =>
        cases hf : f c with
        | error e => simp [Config.runSection, readOnly, hf, Except.map]
        | ok a =>
          simp only [Config.runSection, readOnly, hf, Except.map, Option.map_some]
          refine congrArg some (Prod.ext rfl ?_)
          cases (Config.unlock codec _ cm v.unlockVersion (.ok ())).2 <;> rfl

/-- **What a session that returns has read.** -/
theorem reading_ok {codec : Codec T C} {self : Config V T C} {v : Visit V T}
    {f : C → Except PyErr α} {cm : ConfigMap V T} {a : α}
    (h : self.reading codec v f = some (cm, .ok a)) :
    ∃ c, v.Loads codec c ∧ f c = .ok a := by
  rw [Config.reading] at h
  cases hl : self.lock codec v with
  | none => simp [hl] at h
  | some x =>
    obtain ⟨cm', config, r⟩ := x
    rcases lock_cases hl with
      ⟨-, -, -, e, rfl⟩ | ⟨-, -, -, -, e, rfl⟩ | ⟨-, -, rfl, c, hload, -, hd⟩
    · simp [hl] at h
    · simp [hl] at h
    · rw [hl] at h
      dsimp only at h
      rw [hd] at h
      cases hf : f c with
      | error e => simp [hf] at h
      | ok b =>
        simp only [hf, Option.some.injEq, Prod.mk.injEq] at h
        cases hr : (config.unlock codec cm' v.unlockVersion (.ok ())).2 with
        | error e => simp [hr, Except.map] at h
        | ok u =>
          rw [hr] at h
          exact ⟨c, hload, hf.trans h.2⟩

end Sessions

/-! ## Labels and taints -/

def cmkTaint : JsonValue :=
  .obj [("key", .str "cmk"), ("value", .str "true"), ("effect", .str "NoSchedule")]

/-- The taints but for those of the key `cmk`. -/
def otherTaints : List JsonValue → Except PyErr (List JsonValue)
  | [] => .ok []
  | t :: taints => do
    let key ← itemAt t "key"
    let rest ← otherTaints taints
    return if isText "cmk" key then rest else t :: rest

/-- `V1Taint.to_dict`: all four attributes, `None` where there is none.  The time is a `datetime`;
here it is its text. -/
def taintDict (taint : JsonValue) : JsonValue :=
  .obj [("effect", (taint.member? "effect").getD .null), ("key", (taint.member? "key").getD .null),
    ("time_added", (taint.member? "timeAdded").getD .null),
    ("value", (taint.member? "value").getD .null)]

/-- The taint has a `datetime`, for which `json.dumps` raises. -/
def hasTime (taint : JsonValue) : Bool := !isNone ((taint.member? "time_added").getD .null)

/-- The taints in the spec of a node, as the client hands them on. -/
def specTaints (node : JsonValue) : Except PyErr (List JsonValue) :=
  match (node.get? ["spec"]).getD .null with
  | .obj members =>
    let taints := ((JsonValue.obj members).member? "taints").getD .null
    if truthy taints then (itemsOf taints).map (List.map taintDict) else .ok []
  | _ => .error .typeError

/-- The taints of a node, in its spec or, before Kubernetes 1.7, in an annotation. -/
def nodeTaints (api : NodeApi) (version : List ℕ) (node : JsonValue) :
    Except PyErr (List JsonValue) :=
  if [1, 7] ≤ version then specTaints node
  else
    match (node.get? ["metadata", "annotations"]).getD .null with
    | .obj members =>
      match (JsonValue.obj members).member? "scheduler.alpha.kubernetes.io/taints" with
      | some (.str text) => if text ≠ "" then api.loads text >>= itemsOf else .ok []
      | some taints => if truthy taints then .error .typeError else .ok []
      | none => .ok []
    | _ => .error .typeError

def addNodeLabel (api : NodeApi) (node : JsonValue) : NodeStep :=
  patchNode api ⟨"/metadata/labels/cmk.intel.com~1cmk-node", .str "true"⟩ node

def addNodeTaint (api : NodeApi) (version : List ℕ) (node : JsonValue) : NodeStep :=
  match exitOnApiException api.listNode with
  | .error e => (.error e, node)
  | .ok () =>
    match nodeTaints api version node >>= otherTaints with
    | .error e => (.error e, node)
    | .ok taints =>
      if [1, 7] ≤ version then
        if taints.any hasTime then (.error .typeError, node)
        else patchNode api ⟨"/spec/taints", .arr (taints ++ [cmkTaint])⟩ node
      else patchNode api ⟨"/metadata/annotations/scheduler.alpha.kubernetes.io~1taints",
        .str (api.dumps (taints ++ [cmkTaint]))⟩ node

/-! ## The command -/

/-- What a command leaves: the configmap, its outcome and the node; `none` is waiting. -/
abbrev NodeRun (V : Type) := Option (ConfigMap V String × NodeStep)

section Discover

variable {V : Type} [DecidableEq V] (codec : Codec String (Conf Scalar Yaml))
  (self : Config V String (Conf Scalar Yaml)) (v : Visit V String)

/-- `add_node_er` and `add_node_oir`, but for the paths. -/
def addNode (paths : ResourcePaths) (api : NodeApi) (node : JsonValue) : NodeRun V :=
  (self.reading codec v discoverSection).map fun x =>
    match x.2 with
    | .ok slots => (x.1, patchSlots paths api slots node)
    | .error e => (x.1, .error e, node)

def addNodeOir (api : NodeApi) (node : JsonValue) : NodeRun V :=
  addNode codec self v oirPaths api node

def addNodeEr (api : NodeApi) (node : JsonValue) : NodeRun V :=
  addNode codec self v erPaths api node

example : parseVersion "v1.8.0" = .ok [1, 8] := rfl

example : parseVersion "v1.8.1+k3s" = .ok [1, 8, 1] := rfl

def discover (api : NodeApi) (noTaint : Bool) (node : JsonValue) : NodeRun V :=
  match api.kubeVersion >>= parseVersion with
  | .error e => some (v.stored, .error e, node)
  | .ok version =>
    if version = [1, 8] then some (v.stored, .error (.systemExit 1), node)
    else
      (if [1, 8, 1] ≤ version then addNodeEr codec self v api node
        else addNodeOir codec self v api node).map fun x =>
        (x.1, x.2.andThen fun node => (addNodeLabel api node).andThen fun node =>
          if noTaint then (.ok (), node) else addNodeTaint api version node)

end Discover

/-! ## What is advertised -/

/-- The names of the two resources a kind of resource is advertised under. -/
structure ResourceNames where
  exclusive : String
  exclNonIsolcpus : String

/-- Extended resources from Kubernetes 1.8.1 on. -/
def resourceNames (version : List ℕ) : ResourceNames :=
  if [1, 8, 1] ≤ version then
    ⟨"cmk.intel.com/exclusive-cores", "cmk.intel.com/exclusive-non-isolcpus-cores"⟩
  else
    ⟨"pod.alpha.kubernetes.io/opaque-int-resource-cmk",
      "pod.alpha.kubernetes.io/opaque-int-resource-cmk-excl-non-isolcpus"⟩

def resourcePaths (version : List ℕ) : ResourcePaths :=
  if [1, 8, 1] ≤ version then erPaths else oirPaths

/-- An amount, as a number or as text. -/
def quantity? : JsonValue → Option ℤ
  | .num n => some n
  | .str s => intOfText? s
  | _ => none

/-- What a node advertises of a resource. -/
def capacity (node : JsonValue) (resource : String) : Option JsonValue :=
  node.get? ["status", "capacity", resource]

def Advertises (node : JsonValue) (resource : String) (n : ℤ) : Prop :=
  (capacity node resource).bind quantity? = some n

/-- Nothing is advertised of the resource, or none of it. -/
def NotAdvertised (node : JsonValue) (resource : String) : Prop :=
  capacity node resource = none ∨ Advertises node resource 0

/-- The number of CPU lists of a pool over all sockets. -/
def Conf.countIn {κ τ : Type} (c : Conf κ τ) (pool : String) : ℕ :=
  (c.entries.filter fun e => e.pool = pool).length

/-- **The capacity follows the configuration.** -/
structure CapacityFollows {κ τ : Type} (names : ResourceNames) (c : Conf κ τ) (node : JsonValue) :
    Prop where
  exclusive : Advertises node names.exclusive (c.countIn "exclusive")
  listed : 0 < c.countIn "exclusive-non-isolcpus" →
    Advertises node names.exclNonIsolcpus (c.countIn "exclusive-non-isolcpus")
  unlisted : c.countIn "exclusive-non-isolcpus" = 0 → NotAdvertised node names.exclNonIsolcpus

/-! ## What the steps leave -/

variable {api : NodeApi} {node node' : JsonValue} {version : List ℕ} {path : List String}

theorem fst_andThen {x : NodeStep} {f : JsonValue → NodeStep} :
    (x.andThen f).1 = .ok () ↔ x.1 = .ok () ∧ (f x.2).1 = .ok () := by
  rw [NodeStep.andThen]
  cases h : x.1 <;> simp

theorem snd_andThen {x : NodeStep} (h : x.1 = .ok ()) (f : JsonValue → NodeStep) :
    (x.andThen f).2 = (f x.2).2 := by
  rw [NodeStep.andThen, h]

theorem exitOnApiException_error (e : PyErr) :
    exitOnApiException (.error e) ≠ .ok () := by
  cases e <;> simp [exitOnApiException]

/-- **A patch that is applied** puts its value at its path, and changes nothing off it. -/
theorem patchNode_ok {text : String} {value : JsonValue}
    (hpath : JsonValue.pointer text = some path)
    (h : (patchNode api ⟨text, value⟩ node).1 = .ok ()) :
    (patchNode api ⟨text, value⟩ node).2.get? path = some value ∧
      ∀ path', JsonValue.Apart path path' →
        (patchNode api ⟨text, value⟩ node).2.get? path' = node.get? path' := by
  rw [patchNode] at h ⊢
  split at h
  · exact absurd h (exitOnApiException_error .apiException)
  · rename_i hnot
    rw [if_neg hnot]
    split at h
    · rename_i node' happly
      rw [NodePatch.apply, hpath, Option.bind_some] at happly
      exact ⟨JsonValue.get?_add happly,
        fun path' hapart => JsonValue.get?_add_of_apart happly hapart⟩
    · exact absurd h (exitOnApiException_error .apiException)

theorem addNodeLabel_ok (h : (addNodeLabel api node).1 = .ok ()) (resource : String) :
    capacity (addNodeLabel api node).2 resource = capacity node resource :=
  have hpath : JsonValue.pointer "/metadata/labels/cmk.intel.com~1cmk-node" =
      some ["metadata", "labels", "cmk.intel.com/cmk-node"] := rfl
  (patchNode_ok hpath h).2 _ (JsonValue.apart_of_ne (by decide) _ _)

theorem addNodeTaint_ok (h : (addNodeTaint api version node).1 = .ok ()) (resource : String) :
    capacity (addNodeTaint api version node).2 resource = capacity node resource := by
  have hspec : JsonValue.pointer "/spec/taints" = some ["spec", "taints"] := rfl
  have hannotation :
      JsonValue.pointer "/metadata/annotations/scheduler.alpha.kubernetes.io~1taints" =
        some ["metadata", "annotations", "scheduler.alpha.kubernetes.io/taints"] := rfl
  rw [addNodeTaint] at h ⊢
  cases hlist : exitOnApiException api.listNode with
  | error e => simp [hlist] at h
  | ok u =>
    rw [hlist] at h
    cases htaints : nodeTaints api version node >>= otherTaints with
    | error e => simp [htaints] at h
    | ok taints =>
      rw [htaints] at h
      dsimp only at h ⊢
      split_ifs at h ⊢ with hnew htime
      · exact (patchNode_ok hspec h).2 _ (JsonValue.apart_of_ne (by decide) _ _)
      · exact (patchNode_ok hannotation h).2 _ (JsonValue.apart_of_ne (by decide) _ _)

theorem pointer_resourcePaths (version : List ℕ) :
    JsonValue.pointer (resourcePaths version).exclusive =
        some ["status", "capacity", (resourceNames version).exclusive] ∧
      JsonValue.pointer (resourcePaths version).exclNonIsolcpus =
        some ["status", "capacity", (resourceNames version).exclNonIsolcpus] := by
  unfold resourcePaths resourceNames
  split
  · exact ⟨rfl, rfl⟩
  · exact ⟨rfl, rfl⟩

theorem resourceNames_ne (version : List ℕ) :
    (resourceNames version).exclusive ≠ (resourceNames version).exclNonIsolcpus := by
  unfold resourceNames
  split <;> decide

theorem apart_capacity {resource resource' : String} (h : resource ≠ resource') :
    JsonValue.Apart ["status", "capacity", resource] ["status", "capacity", resource'] :=
  ((JsonValue.apart_of_ne h [] []).cons _).cons _

/-- **The patches of the slots**: the first number is advertised, the second if it is not `0`, and
what was there is left otherwise. -/
theorem patchSlots_ok {slots : ℕ × Option ℕ}
    (h : (patchSlots (resourcePaths version) api slots node).1 = .ok ())
    (hnode : (patchSlots (resourcePaths version) api slots node).2 = node') :
    Advertises node' (resourceNames version).exclusive slots.1 ∧
      (0 < slots.2.getD 0 →
        Advertises node' (resourceNames version).exclNonIsolcpus (slots.2.getD 0)) ∧
      (slots.2.getD 0 = 0 → capacity node' (resourceNames version).exclNonIsolcpus =
        capacity node (resourceNames version).exclNonIsolcpus) := by
  subst hnode
  obtain ⟨hfirst, hsecond⟩ := pointer_resourcePaths version
  obtain ⟨hok, hrest⟩ := fst_andThen.mp h
  rw [patchSlots, snd_andThen hok]
  have hne := resourceNames_ne version
  obtain ⟨hthere, hoff⟩ := patchNode_ok hfirst hok
  generalize (patchNode api ⟨(resourcePaths version).exclusive, .num slots.1⟩ node).2 = middle at *
  have hexclusive : Advertises middle (resourceNames version).exclusive slots.1 := by
    rw [Advertises, capacity, hthere]
    rfl
  have hkeep := hoff _ (apart_capacity hne)
  obtain ⟨numSlots, second⟩ := slots
  cases second with
  | none => exact ⟨hexclusive, fun hpos => absurd hpos (lt_irrefl 0), fun _ => hkeep⟩
  | some n =>
    dsimp only at hrest ⊢
    by_cases hn : n = 0
    · rw [if_neg (not_not.mpr hn)]
      exact ⟨hexclusive, fun hpos => absurd hpos (by simp [hn]), fun _ => hkeep⟩
    · rw [if_pos hn] at hrest ⊢
      obtain ⟨hthere', hoff'⟩ := patchNode_ok hsecond hrest
      refine ⟨?_, fun _ => ?_, fun hzero => absurd hzero hn⟩
      · rw [Advertises, capacity, hoff' _ (apart_capacity hne.symm)]
        exact hexclusive
      · rw [Advertises, capacity, hthere']
        rfl

/-- **Nothing else changes** when the slots are patched. -/
theorem patchSlots_apart {slots : ℕ × Option ℕ}
    (h : (patchSlots (resourcePaths version) api slots node).1 = .ok ()) {path' : List String}
    (hfirst : JsonValue.Apart ["status", "capacity", (resourceNames version).exclusive] path')
    (hsecond :
      JsonValue.Apart ["status", "capacity", (resourceNames version).exclNonIsolcpus] path') :
    (patchSlots (resourcePaths version) api slots node).2.get? path' = node.get? path' := by
  obtain ⟨hone, htwo⟩ := pointer_resourcePaths version
  obtain ⟨hok, hrest⟩ := fst_andThen.mp h
  have hkeep := (patchNode_ok hone hok).2 path' hfirst
  rw [patchSlots, snd_andThen hok]
  obtain ⟨numSlots, second⟩ := slots
  cases second with
  | none => exact hkeep
  | some n =>
    dsimp only at hrest ⊢
    split_ifs at hrest ⊢
    · exact ((patchNode_ok htwo hrest).2 path' hsecond).trans hkeep
    · exact hkeep

theorem length_getCoreLists {c : Conf Scalar Yaml} {pool : String} {p : Pool Scalar Yaml}
    {cls : List (CoreList Scalar Yaml)} (hp : c.getPool pool = .ok p)
    (h : p.getCoreLists none = .ok cls) : cls.length = c.countIn pool := by
  rw [Conf.getPool] at hp
  split at hp
  · rename_i q hq
    obtain rfl := Except.ok.inj hp
    obtain ⟨hmem, rfl⟩ := Table.get?_eq_some.mp hq
    rw [q.getCoreLists_none] at h
    rw [← Except.ok.inj h, List.length_map, Conf.countIn, c.filter_entries hmem]
  · cases hp

/-- **The numbers of slots** are the numbers of CPU lists of the two pools. -/
theorem discoverSection_ok {c : Conf Scalar Yaml} {slots : ℕ × Option ℕ}
    (h : discoverSection c = .ok slots) :
    slots.1 = c.countIn "exclusive" ∧ slots.2.getD 0 = c.countIn "exclusive-non-isolcpus" := by
  rw [discoverSection] at h
  split at h
  · cases h
  · obtain ⟨p, hp, h⟩ := bind_eq_ok.mp h
    obtain ⟨cls, hcls, h⟩ := bind_eq_ok.mp h
    split at h
    · obtain ⟨q, hq, h⟩ := bind_eq_ok.mp h
      obtain ⟨cls', hcls', h⟩ := bind_eq_ok.mp h
      obtain rfl := pure_eq_ok.mp h
      exact ⟨length_getCoreLists hp hcls, length_getCoreLists hq hcls'⟩
    · rename_i hno
      obtain rfl := pure_eq_ok.mp h
      refine ⟨length_getCoreLists hp hcls, (List.length_eq_zero_iff.mpr ?_).symm⟩
      refine List.filter_eq_nil_iff.mpr fun e he hpool => hno ?_
      obtain ⟨r, hr, he⟩ := Conf.mem_entries.mp he
      rw [← of_decide_eq_true hpool, Pool.pool_of_mem_entries he]
      exact Table.key_mem_keys hr

section Command

variable {V : Type} [DecidableEq V] {codec : Codec String (Conf Scalar Yaml)}
  {self : Config V String (Conf Scalar Yaml)} {v : Visit V String} {cm : ConfigMap V String}
  {c : Conf Scalar Yaml}

/-- **What a count that is patched without an error leaves.** -/
theorem addNode_ok (hload : v.Loads codec c)
    (h : addNode codec self v (resourcePaths version) api node = some (cm, .ok (), node')) :
    Advertises node' (resourceNames version).exclusive (c.countIn "exclusive") ∧
      (0 < c.countIn "exclusive-non-isolcpus" →
        Advertises node' (resourceNames version).exclNonIsolcpus
          (c.countIn "exclusive-non-isolcpus")) ∧
      (c.countIn "exclusive-non-isolcpus" = 0 →
        capacity node' (resourceNames version).exclNonIsolcpus =
          capacity node (resourceNames version).exclNonIsolcpus) := by
  obtain ⟨⟨cm', r⟩, hread, hslots⟩ := Option.map_eq_some_iff.mp h
  cases r with
  | error e => cases (Prod.mk.inj hslots).2
  | ok slots =>
    obtain ⟨c', hload', hsection⟩ := reading_ok hread
    obtain rfl := hload.unique hload'
    obtain ⟨hone, htwo⟩ := discoverSection_ok hsection
    have hpatch := (Prod.mk.inj hslots).2
    rw [← hone, ← htwo]
    exact patchSlots_ok (congrArg Prod.fst hpatch) (congrArg Prod.snd hpatch)

theorem addNode_apart
    (h : addNode codec self v (resourcePaths version) api node = some (cm, .ok (), node'))
    {path' : List String}
    (hfirst : JsonValue.Apart ["status", "capacity", (resourceNames version).exclusive] path')
    (hsecond :
      JsonValue.Apart ["status", "capacity", (resourceNames version).exclNonIsolcpus] path') :
    node'.get? path' = node.get? path' := by
  obtain ⟨⟨cm', r⟩, -, hslots⟩ := Option.map_eq_some_iff.mp h
  cases r with
  | error e => cases (Prod.mk.inj hslots).2
  | ok slots =>
    have hpatch := (Prod.mk.inj hslots).2
    have hkeep := patchSlots_apart (congrArg Prod.fst hpatch) hfirst hsecond
    rw [hpatch] at hkeep
    exact hkeep

/-- **`discover` patches the count**, and after it leaves the capacity as it is. -/
theorem discover_ok {noTaint : Bool} (hversion : api.kubeVersion >>= parseVersion = .ok version)
    (h : discover codec self v api noTaint node = some (cm, .ok (), node')) :
    ∃ middle, addNode codec self v (resourcePaths version) api node = some (cm, .ok (), middle) ∧
      ∀ resource, capacity node' resource = capacity middle resource := by
  rw [discover, hversion] at h
  dsimp only at h
  split at h
  · cases h
  · have hnode : (if [1, 8, 1] ≤ version then addNodeEr codec self v api node
        else addNodeOir codec self v api node) =
        addNode codec self v (resourcePaths version) api node := by
      rw [resourcePaths]
      split <;> rfl
    rw [hnode] at h
    obtain ⟨⟨cm', r, middle⟩, hadd, h⟩ := Option.map_eq_some_iff.mp h
    obtain ⟨rfl, hafter⟩ := Prod.mk.inj h
    have hok := congrArg Prod.fst hafter
    have hlast := congrArg Prod.snd hafter
    obtain ⟨hr, hrest⟩ := fst_andThen.mp hok
    obtain ⟨hlabel, htaint⟩ := fst_andThen.mp hrest
    rw [snd_andThen hr, snd_andThen hlabel] at hlast
    obtain rfl : r = .ok () := hr
    refine ⟨middle, hadd, fun resource => ?_⟩
    -- neither the label nor the taint is in the capacity
    rw [← addNodeLabel_ok hlabel resource, ← show _ = node' from hlast]
    split at htaint
    · rename_i hno
      rw [if_pos hno]
    · rename_i hno
      rw [if_neg hno]
      exact addNodeTaint_ok htaint resource

end Command

/-- **The advertised capacity follows the configuration** exactly when the second pool has a CPU
list or the node did not advertise any before. -/
theorem capacity_follows_iff {V : Type} [DecidableEq V] (codec : Codec String (Conf Scalar Yaml))
    (self : Config V String (Conf Scalar Yaml)) (v : Visit V String) (api : NodeApi)
    (noTaint : Bool) (node node' : JsonValue) (cm : ConfigMap V String) (version : List ℕ)
    (c : Conf Scalar Yaml)
    (hversion : api.kubeVersion >>= parseVersion = .ok version) (hload : v.Loads codec c)
    (h : discover codec self v api noTaint node = some (cm, .ok (), node')) :
    CapacityFollows (resourceNames version) c node' ↔
      0 < c.countIn "exclusive-non-isolcpus" ∨
        NotAdvertised node (resourceNames version).exclNonIsolcpus := by
  obtain ⟨middle, hadd, hkeep⟩ := discover_ok hversion h
  obtain ⟨hexclusive, hlisted, hunlisted⟩ := addNode_ok hload hadd
  simp only [Advertises, ← hkeep] at hexclusive hlisted hunlisted
  constructor
  · intro hfollows
    rcases Nat.eq_zero_or_pos (c.countIn "exclusive-non-isolcpus") with hzero | hpos
    · have hnot := hfollows.unlisted hzero
      simp only [NotAdvertised, Advertises, hunlisted hzero] at hnot
      exact .inr hnot
    · exact .inl hpos
  · intro hcond
    refine ⟨hexclusive, hlisted, fun hzero => ?_⟩
    have hnot := hcond.resolve_left (by omega)
    simp only [NotAdvertised, Advertises, hunlisted hzero]
    exact hnot

/-- A configmap whose only pool is the exclusive one, with one CPU list. -/
def exclusiveOnly : Document where
  root := .map [(.str "exclusive", .map [(.int 0, .map [(.str "0", .seq [])])])]
  unique := by decide

/-- A cluster that refuses nothing. -/
def openApi : NodeApi where
  kubeVersion := .ok "v1.18.3"
  refuses _ := false
  listNode := .ok ()
  loads _ := .error (.valueError none)
  dumps _ := ""

/-- A node that advertises some amount of the second resource. -/
def nodeWith (amount : JsonValue) : JsonValue :=
  .obj [("metadata", .obj [("labels", .obj [])]), ("status", .obj [("capacity",
    .obj [("cmk.intel.com/exclusive-non-isolcpus-cores", amount)])])]

/-- The node after one exclusive CPU list has been discovered. -/
def discoveredWith (amount : JsonValue) : JsonValue :=
  .obj [("metadata", .obj [("labels", .obj [("cmk.intel.com/cmk-node", .str "true")])]),
    ("status", .obj [("capacity", .obj [("cmk.intel.com/exclusive-non-isolcpus-cores", amount),
      ("cmk.intel.com/exclusive-cores", .num 1)])])]

/-- The configuration of `exclusiveOnly`. -/
def exclusiveOnlyConf : Conf Scalar Yaml :=
  ⟨.ofList _ [⟨true, "exclusive", .ofList _ [⟨.int 0, .ofList _ [⟨.str "0", []⟩]⟩]⟩]⟩

theorem discover_exclusiveOnly (amount : JsonValue) :
    discover (yamlCodec (fun _ => .ok exclusiveOnly) fun _ => "")
      (.init "cmk-config-node" "pod" "default") freeVisit openApi true (nodeWith amount) =
        some (⟨some "", some "", 2⟩, .ok (), discoveredWith amount) := by
  rfl

theorem loads_exclusiveOnly :
    freeVisit.Loads (yamlCodec (fun _ => .ok exclusiveOnly) fun _ => "") exclusiveOnlyConf :=
  ⟨"text", rfl, rfl⟩

theorem capacity_follows_exclusiveOnly :
    CapacityFollows (resourceNames [1, 18, 3]) exclusiveOnlyConf (discoveredWith (.str "0")) ↔
      0 < exclusiveOnlyConf.countIn "exclusive-non-isolcpus" ∨
        NotAdvertised (nodeWith (.str "0")) (resourceNames [1, 18, 3]).exclNonIsolcpus :=
  capacity_follows_iff _ _ _ _ _ _ _ _ _ _ rfl loads_exclusiveOnly (discover_exclusiveOnly _)

/-- The two cores of an earlier configuration are still advertised. -/
theorem discover_keeps_stale_capacity : ¬ ∀ cm node',
    discover (yamlCodec (fun _ => .ok exclusiveOnly) fun _ => "")
      (.init "cmk-config-node" "pod" "default") freeVisit openApi true (nodeWith (.str "2")) =
        some (cm, .ok (), node') →
      CapacityFollows (resourceNames [1, 18, 3]) exclusiveOnlyConf node' := by
  intro hall
  rcases (hall _ _ (discover_exclusiveOnly _)).unlisted rfl with hnone | hzero
  · exact absurd hnone (by decide)
  · have htwo : some (2 : ℤ) = some 0 := hzero
    exact absurd htwo (by decide)

end Cmk
