import Cmk.Webhook

/-!
# Webhook/Shape — pods and mutations of the usual shape

A container has a name, and its resources, the amounts in them and its environment are what the API
has for them, where they are there at all.  Of such a container every lookup either finds its value
or misses a key (`resourceAt_eq`).  The mutations give each container entries of an environment that
have names, and touch neither the resources nor the lists of containers.
-/

open Machinery

namespace Cmk

def IsDict (x : JsonValue) : Prop := ∃ members, x = .obj members

/-- The member is missing, or has the property. -/
def IfThere (x : JsonValue) (key : String) (P : JsonValue → Prop) : Prop :=
  ∀ v, x.member? key = some v → P v

/-- An entry of an environment has a name. -/
structure IsNamed (entry : JsonValue) : Prop where
  dict : IsDict entry
  name : (entry.member? "name").isSome

def IsEnv (env : JsonValue) : Prop :=
  ∃ entries, env = .arr entries ∧ ∀ entry ∈ entries, IsNamed entry

/-- Amounts of resources, none of which is null. -/
structure IsAmounts (amounts : JsonValue) : Prop where
  dict : IsDict amounts
  notNull : ∀ er, IfThere amounts er fun v => isNone v = false

structure IsResources (resources : JsonValue) : Prop where
  dict : IsDict resources
  requests : IfThere resources "requests" IsAmounts
  limits : IfThere resources "limits" IsAmounts

/-- **A container as the API has it**: nothing is null that the webhook looks at. -/
structure IsContainer (container : JsonValue) : Prop where
  dict : IsDict container
  name : (container.member? "name").isSome
  resources : IfThere container "resources" IsResources
  env : IfThere container "env" IsEnv

/-- **A pod as the API has it**, with its containers and, where there are any, its init containers.
-/
structure IsPod (pod : JsonValue) (containers : List JsonValue)
    (initContainers : Option (List JsonValue)) : Prop where
  metadata : ∃ metadata, pod.member? "metadata" = some (.obj metadata) ∧
    IfThere (.obj metadata) "annotations" IsDict
  spec : ∃ spec, pod.member? "spec" = some (.obj spec)
  listed : pod.get? ["spec", "containers"] = some (.arr containers)
  listedInit : pod.get? ["spec", "initContainers"] = initContainers.map .arr
  isContainer : ∀ container ∈ containers ++ initContainers.getD [], IsContainer container

/-- A review of a pod. -/
structure IsReview (review pod uid : JsonValue) : Prop where
  kind : review.get? ["request", "kind", "kind"] = some (.str "Pod")
  object : review.get? ["request", "object"] = some pod
  uid : review.get? ["request", "uid"] = some uid

def named (name : String) (entry : JsonValue) : Bool := (entry.member? "name").any (isText name)

/-- **A file of mutations**: what it has for containers gives environments of named entries, none of
them the number of cores, and what it has for pods leaves their containers alone. -/
structure IsMutations (file : Option JsonValue) (perPod perContainer : List (String × JsonValue)) :
    Prop where
  readPod : (loadMutations file >>= fun m => getOr m "perPod" (.obj [])) = .ok (.obj perPod)
  readContainer :
    (loadMutations file >>= fun m => getOr m "perContainer" (.obj [])) = .ok (.obj perContainer)
  nodup : (perPod.map Prod.fst).Nodup ∧ (perContainer.map Prod.fst).Nodup
  spec : IfThere (.obj perPod) "spec" fun v => ∃ spec, v = .obj spec ∧
    "containers" ∉ spec.map Prod.fst ∧ "initContainers" ∉ spec.map Prod.fst
  resources : "resources" ∉ perContainer.map Prod.fst
  env : IfThere (.obj perContainer) "env" fun v => ∃ entries, v = .arr entries ∧
    ∀ entry ∈ entries, IsNamed entry ∧ named envNumCores entry = false

/-! ## Lookups -/

variable {x v container : JsonValue} {key name : String}

theorem isDict_of_member? (h : x.member? key = some v) : IsDict x := by
  cases x with
  | obj members => exact ⟨members, rfl⟩
  | _ => cases h

theorem isDict_of_get? {path : List String} (h : x.get? (key :: path) = some v) : IsDict x := by
  obtain ⟨y, hy, -⟩ := Option.bind_eq_some_iff.mp h
  exact isDict_of_member? hy

/-- A dictionary is merged in place. -/
theorem mergeInPlace_of_isDict (h : IsDict x) (merge : Merge) (y : JsonValue) :
    mergeInPlace merge x y = merge x y := by
  obtain ⟨members, rfl⟩ := h
  simp [mergeInPlace, JsonValue.isScalar]

theorem itemAt_eq (h : IsDict x) (key : String) :
    itemAt x key = (x.member? key).elim (.error (.keyError none)) .ok := by
  obtain ⟨members, rfl⟩ := h
  rfl

theorem itemAt_of_member? (h : x.member? key = some v) : itemAt x key = .ok v := by
  cases x with
  | obj members => rw [itemAt_eq ⟨members, rfl⟩, h]; rfl
  | _ => cases h

theorem itemAt_of_not_isDict (h : ¬ IsDict x) (key : String) :
    itemAt x key = .error .typeError := by
  cases x with
  | obj members => exact absurd ⟨members, rfl⟩ h
  | _ => rfl

/-- What is there of a member, and of a member of it, are dictionaries. -/
def Lookable (x : JsonValue) (outer inner : String) : Prop :=
  IsDict x ∧ IfThere x outer fun y => IsDict y ∧ IfThere y inner IsDict

/-- **A value is found, or a key is missing**, where there are dictionaries. -/
theorem itemAt_of_lookable {outer inner : String} (h : Lookable x outer inner) (key : String) :
    (do let y ← itemAt x outer; let z ← itemAt y inner; itemAt z key) =
      (x.get? [outer, inner, key]).elim (.error (.keyError none)) .ok := by
  rw [itemAt_eq h.1, JsonValue.get?]
  cases hy : x.member? outer with
  | none => rfl
  | some y =>
    obtain ⟨hdict, hinner⟩ := h.2 y hy
    change (do let z ← itemAt y inner; itemAt z key) = _
    rw [itemAt_eq hdict, Option.bind_some, JsonValue.get?]
    cases hz : y.member? inner with
    | none => rfl
    | some z =>
      change itemAt z key = _
      rw [itemAt_eq (hinner z hz), Option.bind_some, JsonValue.get?_singleton]

/-- Where something else is there, no lookup gets through. -/
theorem itemAt_of_not_lookable {outer inner : String} (h : ¬ Lookable x outer inner)
    (key : String) : (do let y ← itemAt x outer; let z ← itemAt y inner; itemAt z key) =
      .error .typeError := by
  by_cases hdict : IsDict x
  · rw [itemAt_eq hdict]
    cases hy : x.member? outer with
    | none => exact absurd ⟨hdict, fun y hy' => by rw [hy] at hy'; cases hy'⟩ h
    | some y =>
      change (do let z ← itemAt y inner; itemAt z key) = _
      by_cases hydict : IsDict y
      · rw [itemAt_eq hydict]
        cases hz : y.member? inner with
        | none =>
          refine absurd ⟨hdict, fun y' hy' => ?_⟩ h
          obtain rfl := Option.some.inj (hy.symm.trans hy')
          exact ⟨hydict, fun z hz' => by rw [hz] at hz'; cases hz'⟩
        | some z =>
          refine itemAt_of_not_isDict (fun hzdict => h ⟨hdict, fun y' hy' => ?_⟩) key
          obtain rfl := Option.some.inj (hy.symm.trans hy')
          exact ⟨hydict, fun z' hz' => Option.some.inj (hz.symm.trans hz') ▸ hzdict⟩
      · rw [itemAt_of_not_isDict hydict]
        rfl
  · rw [itemAt_of_not_isDict hdict]
    rfl

theorem IsContainer.lookable (h : IsContainer container) {part : String}
    (hpart : part ∈ ["requests", "limits"]) : Lookable container "resources" part := by
  refine ⟨h.dict, fun resources hr => ⟨(h.resources resources hr).dict, fun amounts ha => ?_⟩⟩
  simp only [List.mem_cons, List.not_mem_nil, or_false] at hpart
  rcases hpart with rfl | rfl
  · exact ((h.resources resources hr).requests amounts ha).dict
  · exact ((h.resources resources hr).limits amounts ha).dict

/-- **An amount is found, or a key is missing.** -/
theorem resourceAt_eq (h : IsContainer container) {part : String}
    (hpart : part ∈ ["requests", "limits"]) (er : String) : resourceAt container part er =
      (container.get? ["resources", part, er]).elim (.error (.keyError none)) .ok :=
  itemAt_of_lookable (h.lookable hpart) er

theorem notNull_of_get? (h : IsContainer container) {part : String}
    (hpart : part ∈ ["requests", "limits"]) {er : String}
    (hv : container.get? ["resources", part, er] = some v) : isNone v = false := by
  obtain ⟨resources, hr, hrest⟩ := Option.bind_eq_some_iff.mp hv
  obtain ⟨amounts, ha, hamount⟩ := Option.bind_eq_some_iff.mp hrest
  rw [JsonValue.get?_singleton] at hamount
  simp only [List.mem_cons, List.not_mem_nil, or_false] at hpart
  rcases hpart with rfl | rfl
  · exact ((h.resources resources hr).requests amounts ha).notNull er v hamount
  · exact ((h.resources resources hr).limits amounts ha).notNull er v hamount

/-- What a container asks for of a resource: the request, or else the limit. -/
def amountOf (container : JsonValue) (er : String) : Option JsonValue :=
  (container.get? ["resources", "requests", er]).or (container.get? ["resources", "limits", er])

/-- **The container's own quantity**, of the first resource it asks for. -/
def ownCores (container : JsonValue) : Option JsonValue := cmkErName.findSome? (amountOf container)

theorem notNull_ownCores (h : IsContainer container) (hv : ownCores container = some v) :
    isNone v = false := by
  obtain ⟨er, -, hamount⟩ := List.exists_of_findSome?_eq_some hv
  rcases Option.or_eq_some_iff.mp hamount with hreq | ⟨-, hlim⟩
  · exact notNull_of_get? h (by decide) hreq
  · exact notNull_of_get? h (by decide) hlim

/-- **The number of cores** is the container's own quantity. -/
theorem numCores_eq (h : IsContainer container) (ers : List String) :
    numCores container ers = .ok ((ers.findSome? (amountOf container)).getD .null) := by
  obtain ⟨name, hname⟩ := Option.isSome_iff_exists.mp h.name
  induction ers with
  | nil => rfl
  | cons er ers ih =>
    rw [numCores, resourceAt_eq h (by decide), resourceAt_eq h (by decide), itemAt_of_member? hname,
      List.findSome?_cons, amountOf]
    cases hreq : container.get? ["resources", "requests", er] with
    | some v =>
      have hnot := notNull_of_get? h (by decide) hreq
      change (if isNone v then _ else Except.ok v) = _
      rw [if_neg (by simp [hnot])]
      rfl
    | none =>
      cases hlim : container.get? ["resources", "limits", er] with
      | some v =>
        have hnot := notNull_of_get? h (by decide) hlim
        change (if isNone v then _ else Except.ok v) = _
        rw [if_neg (by simp [hnot])]
        rfl
      | none =>
        change numCores container ers = _
        exact ih

/-! ## Environments -/

/-- The entries of the environment of a container. -/
def envOf (container : JsonValue) : List JsonValue :=
  match container.member? "env" with
  | some (.arr entries) => entries
  | _ => []

theorem isNamed_envOf (h : IsContainer container) : ∀ entry ∈ envOf container, IsNamed entry := by
  rw [envOf]
  split
  · rename_i entries henv
    obtain ⟨entries', heq, hnamed⟩ := h.env _ henv
    obtain rfl := JsonValue.arr.inj heq
    exact hnamed
  · simp

theorem envNames_eq {entries : List JsonValue} (h : ∀ entry ∈ entries, IsNamed entry) :
    ∃ names, envNames entries = .ok names ∧
      names.any (isText name) = entries.any (named name) := by
  induction entries with
  | nil => exact ⟨[], rfl, rfl⟩
  | cons entry entries ih =>
    obtain ⟨hentry, hrest⟩ := List.forall_mem_cons.mp h
    obtain ⟨names, hnames, hany⟩ := ih hrest
    obtain ⟨n, hn⟩ := Option.isSome_iff_exists.mp hentry.name
    refine ⟨n :: names, ?_, ?_⟩
    · rw [envNames, itemAt_of_member? hn, hnames]
      rfl
    · rw [List.any_cons, List.any_cons, hany, named, hn]
      rfl

/-- The container with these entries in its environment. -/
def withEnv : JsonValue → List JsonValue → JsonValue
  | .obj members, entries => .obj (JsonValue.setMember "env" (.arr entries) members)
  | container, _ => container

theorem envOf_withEnv (hc : IsDict container) (entries : List JsonValue) :
    envOf (withEnv container entries) = entries := by
  obtain ⟨members, rfl⟩ := hc
  rw [withEnv, envOf, JsonValue.member?_setMember_self]

theorem member?_withEnv (container : JsonValue) (entries : List JsonValue) (h : key ≠ "env") :
    (withEnv container entries).member? key = container.member? key := by
  cases container with
  | obj members => exact JsonValue.member?_setMember_of_ne h.symm
  | _ => rfl

/-- **A variable is added** behind the others unless it is there. -/
theorem injectEnv_eq (h : IsContainer container) (name : String) (value : JsonValue) :
    injectEnv container name value = (.ok (), if (envOf container).any (named name) then container
      else withEnv container (envOf container ++ [envEntry name value])) := by
  obtain ⟨members, rfl⟩ := h.dict
  rw [injectEnv, itemAt_eq ⟨members, rfl⟩]
  cases hmember : (JsonValue.obj members).member? "env" with
  | none =>
    have hnil : envOf (.obj members) = [] := by rw [envOf, hmember]
    rw [hnil]
    rfl
  | some env =>
    obtain ⟨entries, rfl, hnamed⟩ := h.env env hmember
    have hentries : envOf (.obj members) = entries := by rw [envOf, hmember]
    obtain ⟨names, hnames, hany⟩ := @envNames_eq name entries hnamed
    have hread : itemsOf (.arr entries) >>= envNames = .ok names := hnames
    rw [hentries]
    simp only [Option.elim_some, Except.map, exceptKeyError, hread, hany]
    split_ifs <;> rfl

end Cmk
