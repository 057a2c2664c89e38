import Cmk.Webhook.Shape

/-!
# Webhook/Cores — the number of cores that a container is told

After the mutation each container has the number of cores that it came with, or else the one it asks
for, or none, whatever the other containers are (`num_cores_injected`).
-/

open Machinery

namespace Cmk

variable {merge : Merge} {file : Option JsonValue} {perPod perContainer : List (String × JsonValue)}
  {container container' : JsonValue}

/-- The entries of the environment that give the number of cores. -/
def coresEntries (container : JsonValue) : List JsonValue :=
  (envOf container).filter (named envNumCores)

/-- The entries that a container should have: its own, or one with its own quantity. -/
def expectedEntries (container : JsonValue) : List JsonValue :=
  if coresEntries container = [] then (ownCores container).toList.map (envEntry envNumCores)
  else coresEntries container

/-! ## Containers -/

/-- The entries of the merged environment are those of both. -/
theorem merged_env {members merged : List (String × JsonValue)} (hmerge : JsonValue.DataMerge merge)
    (hnodup : (perContainer.map Prod.fst).Nodup) (hper : IfThere (.obj perContainer) "env" IsEnv)
    (hc : IsContainer (.obj members))
    (h : JsonValue.mergeMembers merge members perContainer = some merged) :
    IfThere (.obj merged) "env" IsEnv ∧
      envOf (.obj merged) = envOf (.obj members) ++ envOf (.obj perContainer) := by
  cases hextra : (JsonValue.obj perContainer).member? "env" with
  | none =>
    have hsame :=
      JsonValue.member?_mergeMembers_of_notMem h (JsonValue.notMem_of_member?_none hextra)
    refine ⟨fun env henv => hc.env env (hsame ▸ henv), ?_⟩
    have hnil : envOf (.obj perContainer) = [] := by rw [envOf, hextra]
    rw [hnil, List.append_nil, envOf, hsame, envOf]
  | some v =>
    obtain ⟨extra, rfl, hnamed⟩ := hper v hextra
    have hentries : envOf (.obj perContainer) = extra := by rw [envOf, hextra]
    have hmember : (JsonValue.obj merged).member? "env" =
        some (.arr (envOf (.obj members) ++ extra)) := by
      rw [JsonValue.member?_mergeMembers h hnodup hextra]
      cases hown : (JsonValue.obj members).member? "env" with
      | none => rw [envOf, hown]; rfl
      | some old =>
        obtain ⟨entries, rfl, -⟩ := hc.env old hown
        rw [envOf, hown]
        exact hmerge.arr entries extra
    refine ⟨fun env henv => ?_, by rw [hentries, envOf, hmember]⟩
    obtain rfl := Option.some.inj (hmember.symm.trans henv)
    exact ⟨_, rfl, List.forall_mem_append.mpr ⟨isNamed_envOf hc, hnamed⟩⟩

theorem ownCores_congr (h : container'.member? "resources" = container.member? "resources") :
    ownCores container' = ownCores container := by
  have hget : ∀ path, container'.get? ("resources" :: path) =
      container.get? ("resources" :: path) := fun path => by
    rw [JsonValue.get?, h, JsonValue.get?]
  have hamount : amountOf container' = amountOf container := by
    funext er
    rw [amountOf, hget, hget, amountOf]
  rw [ownCores, hamount, ownCores]

/-- **The mutations are merged into a container**: it asks for what it did, and has their entries in
its environment. -/
theorem merged_container (hmerge : JsonValue.DataMerge merge)
    (hnodup : (perContainer.map Prod.fst).Nodup) (hper : IfThere (.obj perContainer) "env" IsEnv)
    (hresources : "resources" ∉ perContainer.map Prod.fst) (hc : IsContainer container)
    (h : merge container (.obj perContainer) = some container') :
    IsContainer container' ∧ ownCores container' = ownCores container ∧
      envOf container' = envOf container ++ envOf (.obj perContainer) := by
  obtain ⟨members, rfl⟩ := hc.dict
  rw [hmerge.obj] at h
  obtain ⟨merged, hmembers, rfl⟩ := Option.map_eq_some_iff.mp h
  have hkept : (JsonValue.obj merged).member? "resources" =
      (JsonValue.obj members).member? "resources" :=
    JsonValue.member?_mergeMembers_of_notMem hmembers hresources
  obtain ⟨henv, hentries⟩ := merged_env hmerge hnodup hper hc hmembers
  exact ⟨⟨⟨merged, rfl⟩, JsonValue.isSome_mergeMembers hmembers hc.name,
    fun resources hr => hc.resources resources (hkept ▸ hr), henv⟩, ownCores_congr hkept, hentries⟩

theorem any_named_eq (container : JsonValue) :
    (envOf container).any (named envNumCores) = !(coresEntries container).isEmpty := by
  rw [coresEntries, Bool.eq_iff_iff, List.any_eq_true]
  simp [List.filter_eq_nil_iff]

theorem named_envEntry (name : String) (value : JsonValue) :
    named name (envEntry name value) = true := by
  simp [named, envEntry, JsonValue.member?, isText]

/-- The container with the number of cores in its environment, if it asks for some. -/
def told (container : JsonValue) : JsonValue :=
  (ownCores container).elim container fun q =>
    if (envOf container).any (named envNumCores) then container
    else withEnv container (envOf container ++ [envEntry envNumCores q])

/-- **One round of the loops**: the mutations are merged in and the number of cores is added. -/
theorem mutateContainer_run
    (hread : (loadMutations file >>= fun m => getOr m "perContainer" (.obj [])) =
      .ok (.obj perContainer)) (hdict : IsDict container)
    (hmerged : merge container (.obj perContainer) = some container')
    (hc : IsContainer container') :
    mutateContainer merge file container = (.ok (), told container') := by
  obtain ⟨mutations, hload, hper⟩ := bind_eq_ok.mp hread
  rw [mutateContainer, hload]
  dsimp only
  rw [applyMutation, hper]
  dsimp only
  rw [mergeInPlace_of_isDict hdict, hmerged]
  dsimp only
  rw [numCores_eq hc, ← ownCores, told]
  dsimp only
  cases hq : ownCores container' with
  | none => rfl
  | some q =>
    rw [Option.getD_some, if_neg (by simp [notNull_ownCores hc hq]), injectEnv_eq hc,
      Option.elim_some]

theorem coresEntries_told (hc : IsDict container) :
    coresEntries (told container) = expectedEntries container := by
  rw [told, expectedEntries]
  cases ownCores container with
  | none =>
    rw [Option.elim_none]
    split_ifs with hnil
    · exact hnil
    · rfl
  | some q =>
    rw [Option.elim_some, any_named_eq]
    split_ifs with hthere hnil hnil
    · simp [hnil] at hthere
    · rfl
    · rw [coresEntries, envOf_withEnv hc, List.filter_append, ← coresEntries, hnil,
        List.filter_singleton, named_envEntry]
      rfl
    · simp [hnil] at hthere

theorem IsMutations.isEnv (hm : IsMutations file perPod perContainer) :
    IfThere (.obj perContainer) "env" IsEnv := fun v hv => by
  obtain ⟨entries, rfl, hentries⟩ := hm.env v hv
  exact ⟨entries, rfl, fun entry hentry => (hentries entry hentry).1⟩

/-- **A container is mutated** on its own, and has the entries it should have. -/
theorem mutateContainer_eq (hmerge : JsonValue.DataMerge merge)
    (hm : IsMutations file perPod perContainer) (hc : IsContainer container)
    (h : merge container (.obj perContainer) ≠ none) :
    (mutateContainer merge file container).1 = .ok () ∧
      coresEntries (mutateContainer merge file container).2 = expectedEntries container := by
  obtain ⟨merged, hmerged⟩ := Option.ne_none_iff_exists'.mp h
  obtain ⟨hshape, hown, hentries⟩ :=
    merged_container hmerge hm.nodup.2 hm.isEnv hm.resources hc hmerged
  have hnone : (envOf (.obj perContainer)).filter (named envNumCores) = [] := by
    rw [List.filter_eq_nil_iff, envOf]
    split
    · rename_i entries henv
      obtain ⟨entries', heq, hextra⟩ := hm.env _ henv
      obtain rfl := JsonValue.arr.inj heq
      exact fun entry hentry => by simp [(hextra entry hentry).2]
    · simp
  have hsame : coresEntries merged = coresEntries container := by
    rw [coresEntries, hentries, List.filter_append, hnone, List.append_nil, coresEntries]
  rw [mutateContainer_run hm.readContainer hc.dict hmerged hshape]
  exact ⟨rfl, by rw [coresEntries_told hshape.dict, expectedEntries, hown, hsame, expectedEntries]⟩

/-- A loop over containers of which each is mutated. -/
theorem mutateAll_eq {containers : List JsonValue}
    (h : ∀ container ∈ containers, (mutateContainer merge file container).1 = .ok ()) :
    mutateAll merge file containers =
      (.ok (), containers.map fun container => (mutateContainer merge file container).2) := by
  induction containers with
  | nil => rfl
  | cons container containers ih =>
    obtain ⟨hfirst, hrest⟩ := List.forall_mem_cons.mp h
    have hstep : mutateContainer merge file container =
        (.ok (), (mutateContainer merge file container).2) := Prod.ext hfirst rfl
    rw [mutateAll, hstep, ih hrest]
    rfl

/-! ## Pods -/

variable {pod pod' : JsonValue} {containers : List JsonValue} {key : String}

theorem containersAt_of_get? (h : pod.get? ["spec", key] = some (.arr containers)) :
    containersAt pod key = .ok containers := by
  obtain ⟨spec, hspec, hlist⟩ := Option.bind_eq_some_iff.mp h
  rw [JsonValue.get?_singleton] at hlist
  rw [containersAt, itemAt_of_member? hspec]
  change (itemAt spec key >>= _) = _
  rw [itemAt_of_member? hlist]
  rfl

theorem containersAt_of_none {spec : List (String × JsonValue)}
    (hspec : pod.member? "spec" = some (.obj spec)) (h : pod.get? ["spec", key] = none) :
    containersAt pod key = .error (.keyError none) := by
  have hlist : (JsonValue.obj spec).member? key = none := by
    rw [JsonValue.get?, hspec, Option.bind_some, JsonValue.get?_singleton] at h
    exact h
  rw [containersAt, itemAt_of_member? hspec]
  change (itemAt (.obj spec) key >>= _) = _
  rw [itemAt_eq ⟨spec, rfl⟩, hlist]
  rfl

/-- **The containers are replaced**, and nothing else of the pod. -/
theorem withContainers_spec {spec : List (String × JsonValue)}
    (hspec : pod.member? "spec" = some (.obj spec)) (key : String) (containers : List JsonValue) :
    (withContainers pod key containers).get? ["spec", key] = some (.arr containers) ∧
      (∃ spec', (withContainers pod key containers).member? "spec" = some (.obj spec')) ∧
      ∀ path, JsonValue.Apart ["spec", key] path →
        (withContainers pod key containers).get? path = pod.get? path := by
  have hget : pod.get? ["spec"] = some (.obj spec) := by rw [JsonValue.get?_singleton, hspec]
  obtain ⟨pod', hadd, hspec'⟩ := @JsonValue.add_concat key (.arr containers) spec ["spec"] pod hget
  have hpod' : withContainers pod key containers = pod' := by
    rw [withContainers]
    exact congrArg (Option.getD · pod) hadd
  rw [hpod']
  exact ⟨JsonValue.get?_add hadd, ⟨_, (JsonValue.get?_singleton "spec" pod').symm.trans hspec'⟩,
    fun path => JsonValue.get?_add_of_apart hadd⟩

/-- What the mutation looks at in a pod is of the right kind. -/
structure HasContainers (pod : JsonValue) (containers : List JsonValue)
    (inits : Option (List JsonValue)) : Prop where
  metadata : (pod.member? "metadata").isSome
  spec : ∃ spec, pod.member? "spec" = some (.obj spec)
  listed : pod.get? ["spec", "containers"] = some (.arr containers)
  listedInit : pod.get? ["spec", "initContainers"] = inits.map .arr

theorem HasContainers.dict {inits : Option (List JsonValue)}
    (h : HasContainers pod containers inits) : IsDict pod := by
  obtain ⟨spec, hspec⟩ := h.spec
  exact isDict_of_member? hspec

theorem IsPod.hasContainers {inits : Option (List JsonValue)} (h : IsPod pod containers inits) :
    HasContainers pod containers inits := by
  obtain ⟨metadata, hmetadata, -⟩ := h.metadata
  exact ⟨by rw [hmetadata]; rfl, h.spec, h.listed, h.listedInit⟩

/-- **The mutations are merged into a pod**, whose containers stay. -/
theorem merged_pod (hmerge : JsonValue.DataMerge merge) (hnodup : (perPod.map Prod.fst).Nodup)
    (hper : IfThere (.obj perPod) "spec" fun v => ∃ spec, v = .obj spec ∧
      "containers" ∉ spec.map Prod.fst ∧ "initContainers" ∉ spec.map Prod.fst)
    {inits : Option (List JsonValue)} (hpod : HasContainers pod containers inits)
    (h : merge pod (.obj perPod) = some pod') : HasContainers pod' containers inits := by
  obtain ⟨spec, hspec⟩ := hpod.spec
  suffices hkept : (pod'.member? "metadata").isSome ∧
      (∃ spec, pod'.member? "spec" = some (.obj spec)) ∧
        ∀ key ∈ ["containers", "initContainers"],
          pod'.get? ["spec", key] = pod.get? ["spec", key] from
    ⟨hkept.1, hkept.2.1, (hkept.2.2 _ (by decide)).trans hpod.listed,
      (hkept.2.2 _ (by decide)).trans hpod.listedInit⟩
  have hmetadata := hpod.metadata
  cases pod with
  | obj members =>
    obtain ⟨merged, hmembers, rfl⟩ :=
      Option.map_eq_some_iff.mp ((hmerge.obj members perPod).symm.trans h)
    refine ⟨JsonValue.isSome_mergeMembers hmembers hmetadata, ?_⟩
    cases hextra : (JsonValue.obj perPod).member? "spec" with
    | none =>
      have hsame := JsonValue.member?_mergeMembers_of_notMem hmembers
        (JsonValue.notMem_of_member?_none hextra)
      refine ⟨⟨spec, hsame.trans hspec⟩, fun key _ => ?_⟩
      rw [JsonValue.get?, JsonValue.get?, hsame]
    | some v =>
      obtain ⟨specB, rfl, hcontainers, hinits⟩ := hper v hextra
      obtain ⟨new, hnew, ⟨hnone, -⟩ | ⟨old, hold, hspecs⟩⟩ :=
        JsonValue.member?_merge hmerge h hnodup hextra
      · rw [hspec] at hnone
        cases hnone
      obtain rfl := Option.some.inj (hspec.symm.trans hold)
      rw [hmerge.obj] at hspecs
      obtain ⟨spec', hspec', rfl⟩ := Option.map_eq_some_iff.mp hspecs
      refine ⟨⟨spec', hnew⟩, fun key hkey => ?_⟩
      have hnot : key ∉ specB.map Prod.fst := by
        simp only [List.mem_cons, List.not_mem_nil, or_false] at hkey
        rcases hkey with rfl | rfl
        · exact hcontainers
        · exact hinits
      rw [JsonValue.get?, JsonValue.get?, hnew, hspec, Option.bind_some, Option.bind_some,
        JsonValue.get?_singleton, JsonValue.get?_singleton,
        JsonValue.member?_mergeMembers_of_notMem hspec' hnot]
  | _ => cases hspec

/-- The container after its round of the loop. -/
def mutated (merge : Merge) (file : Option JsonValue) (container : JsonValue) : JsonValue :=
  (mutateContainer merge file container).2

theorem mutateContainers_eq (hlisted : pod.get? ["spec", "containers"] = some (.arr containers))
    (h : ∀ container ∈ containers, (mutateContainer merge file container).1 = .ok ()) :
    mutateContainers merge file pod =
      .ok (withContainers pod "containers" (containers.map (mutated merge file))) := by
  simp only [mutateContainers, containersAt_of_get? hlisted, bind, Except.bind, mutateAll_eq h]
  rfl

/-- The init containers are mutated where there are any. -/
theorem mutateInitContainers_eq {spec : List (String × JsonValue)}
    {inits : Option (List JsonValue)} (hspec : pod.member? "spec" = some (.obj spec))
    (hlisted : pod.get? ["spec", "initContainers"] = inits.map .arr)
    (h : ∀ container ∈ inits.getD [], (mutateContainer merge file container).1 = .ok ()) :
    mutateInitContainers merge file pod = .ok (inits.elim pod fun containers =>
      withContainers pod "initContainers" (containers.map (mutated merge file))) := by
  cases inits with
  | none => rw [mutateInitContainers, containersAt_of_none hspec hlisted, Option.elim_none]
  | some containers =>
    have hall : mutateAll merge file containers = (.ok (), containers.map (mutated merge file)) :=
      mutateAll_eq h
    rw [mutateInitContainers, containersAt_of_get? hlisted]
    dsimp only
    rw [hall, Option.elim_some]

/-- A pod with these containers and, where it has any, these init containers. -/
def rebuilt (pod : JsonValue) (containers : List JsonValue) (inits : Option (List JsonValue)) :
    JsonValue :=
  inits.elim (withContainers pod "containers" containers)
    (withContainers (withContainers pod "containers" containers) "initContainers")

/-- **A pod is rebuilt** from its lists of containers, and is the same off them. -/
theorem rebuilt_spec {old : List JsonValue} {inits oldInits : Option (List JsonValue)}
    (hpod : HasContainers pod old oldInits) (hold : inits = none → oldInits = none) :
    HasContainers (rebuilt pod containers inits) containers inits ∧
      ∀ path, JsonValue.Apart ["spec", "containers"] path →
        JsonValue.Apart ["spec", "initContainers"] path →
          (rebuilt pod containers inits).get? path = pod.get? path := by
  obtain ⟨spec, hspec⟩ := hpod.spec
  obtain ⟨hcontainers, ⟨spec₁, hspec₁⟩, hoff⟩ := withContainers_spec hspec "containers" containers
  have hapart : JsonValue.Apart ["spec", "containers"] ["spec", "initContainers"] := by decide
  have hapart' : JsonValue.Apart ["spec", "initContainers"] ["spec", "containers"] := by decide
  have hmetadata : ∀ pod' : JsonValue, pod'.get? ["metadata"] = pod.get? ["metadata"] →
      (pod'.member? "metadata").isSome := fun pod' h => by
    rw [JsonValue.get?_singleton, JsonValue.get?_singleton] at h
    exact h ▸ hpod.metadata
  cases inits with
  | none =>
    obtain rfl := hold rfl
    exact ⟨⟨hmetadata _ (hoff ["metadata"] (by decide)), ⟨spec₁, hspec₁⟩, hcontainers,
      (hoff _ hapart).trans hpod.listedInit⟩, fun path h _ => hoff path h⟩
  | some initContainers =>
    obtain ⟨hinits₂, hspec₂, hoff₂⟩ := withContainers_spec hspec₁ "initContainers" initContainers
    exact ⟨⟨hmetadata _ ((hoff₂ ["metadata"] (by decide)).trans (hoff ["metadata"] (by decide))),
      hspec₂, (hoff₂ _ hapart').trans hcontainers, hinits₂⟩,
      fun path h h' => (hoff₂ path h').trans (hoff path h)⟩

/-- **A pod is mutated** when the mutations merge and each container is. -/
theorem mutatePod_run (hread : (loadMutations file >>= fun m => getOr m "perPod" (.obj [])) =
      .ok (.obj perPod)) (hdict : IsDict pod) (hmerged : merge pod (.obj perPod) = some pod')
    {inits : Option (List JsonValue)} (hpod' : HasContainers pod' containers inits)
    (h : ∀ container ∈ containers ++ inits.getD [],
      (mutateContainer merge file container).1 = .ok ()) :
    mutatePod merge file pod = .ok (rebuilt pod' (containers.map (mutated merge file))
      (inits.map (List.map (mutated merge file)))) := by
  obtain ⟨mutations, hload, hper⟩ := bind_eq_ok.mp hread
  obtain ⟨hfirst, hrest⟩ := List.forall_mem_append.mp h
  obtain ⟨spec, hspec⟩ := hpod'.spec
  obtain ⟨-, ⟨spec₁, hspec₁⟩, hoff⟩ := withContainers_spec hspec "containers"
    (containers.map (mutated merge file))
  have hapart : JsonValue.Apart ["spec", "containers"] ["spec", "initContainers"] := by decide
  have hrun : mutatePod merge file pod = mutateInitContainers merge file
      (withContainers pod' "containers" (containers.map (mutated merge file))) := by
    simp only [mutatePod, hload, hper, mergeInPlace_of_isDict hdict, hmerged, bind, Except.bind,
      mutateContainers_eq hpod'.listed hfirst]
  rw [hrun, mutateInitContainers_eq hspec₁ ((hoff _ hapart).trans hpod'.listedInit) hrest, rebuilt]
  cases inits <;> rfl

/-- **A pod is mutated**: each container of it is, on its own. -/
theorem mutatePod_eq (hmerge : JsonValue.DataMerge merge)
    (hm : IsMutations file perPod perContainer) {inits : Option (List JsonValue)}
    (hpod : IsPod pod containers inits) (hmergesPod : merge pod (.obj perPod) ≠ none)
    (hmerges : ∀ container ∈ containers ++ inits.getD [],
      merge container (.obj perContainer) ≠ none) :
    ∃ pod', mutatePod merge file pod = .ok pod' ∧
      ((pod'.member? "metadata").isSome ∧ (pod'.member? "spec").isSome) ∧
      pod'.get? ["spec", "containers"] = some (.arr (containers.map (mutated merge file))) ∧
      pod'.get? ["spec", "initContainers"] =
        (inits.map (List.map (mutated merge file))).map .arr := by
  have hsteps : ∀ container ∈ containers ++ inits.getD [],
      (mutateContainer merge file container).1 = .ok () := fun container hmem =>
    (mutateContainer_eq hmerge hm (hpod.isContainer container hmem) (hmerges container hmem)).1
  obtain ⟨merged, hmerged⟩ := Option.ne_none_iff_exists'.mp hmergesPod
  have hcontainers := merged_pod hmerge hm.nodup.1 hm.spec hpod.hasContainers hmerged
  obtain ⟨hrebuilt, -⟩ := @rebuilt_spec merged (containers.map (mutated merge file)) containers
    (inits.map (List.map (mutated merge file))) inits hcontainers (by simp)
  obtain ⟨spec, hspec⟩ := hrebuilt.spec
  exact ⟨_, mutatePod_run hm.readPod hpod.hasContainers.dict hmerged hcontainers hsteps,
    ⟨hrebuilt.metadata, by rw [hspec]; rfl⟩, hrebuilt.listed, hrebuilt.listedInit⟩

theorem review_eq {review uid : JsonValue} (h : IsReview review pod uid) :
    podOf review = .ok pod ∧ uidOf review = .ok uid := by
  obtain ⟨request, hrequest, hkind⟩ := Option.bind_eq_some_iff.mp h.kind
  obtain ⟨kind, hkind, hname⟩ := Option.bind_eq_some_iff.mp hkind
  have hobject := h.object
  have huid := h.uid
  rw [JsonValue.get?, hrequest, Option.bind_some, JsonValue.get?_singleton] at hobject huid
  rw [JsonValue.get?_singleton] at hname
  constructor
  · simp only [podOf, itemAt_of_member? hrequest, itemAt_of_member? hkind,
      itemAt_of_member? hname, itemAt_of_member? hobject, bind, Except.bind]
    rfl
  · simp only [uidOf, itemAt_of_member? hrequest, itemAt_of_member? huid, bind, Except.bind]

/-- The answer has the response. -/
theorem answer_eq {review uid : JsonValue} (h : IsReview review pod uid)
    (resp : List (String × JsonValue)) : ∃ review', answer review resp = .ok review' ∧
      review'.member? "response" = some (.obj resp) := by
  cases review with
  | obj members => exact ⟨_, rfl, JsonValue.member?_setMember_self _ _ _⟩
  | _ => cases h.uid

theorem generatePatch_eq (hmetadata : (pod.member? "metadata").isSome)
    (hspec : (pod.member? "spec").isSome) : ∃ patch, generatePatch pod = .ok patch := by
  obtain ⟨metadata, hmetadata⟩ := Option.isSome_iff_exists.mp hmetadata
  obtain ⟨spec, hspec⟩ := Option.isSome_iff_exists.mp hspec
  rw [generatePatch, itemAt_of_member? hmetadata, itemAt_of_member? hspec]
  exact ⟨_, rfl⟩

/-- **A pod for which it is required** is answered with a patch. -/
theorem mutate_required {review uid patch : JsonValue} (h : IsReview review pod uid)
    (hrequired : isMutationRequired pod = .ok true) (hpod' : mutatePod merge file pod = .ok pod')
    (hpatch : generatePatch pod' = .ok patch) : ∃ review', mutate merge file review = .ok review' ∧
      review'.get? ["response", "patch"] = some (.str (encodePatch patch)) := by
  obtain ⟨hreview, huid⟩ := review_eq h
  obtain ⟨review', hanswer, hresponse⟩ := answer_eq h
    [("allowed", .bool true), ("uid", uid), ("patch", .str (encodePatch patch))]
  refine ⟨review', ?_, ?_⟩
  · simp only [mutate, hreview, exceptKeyError, hrequired, hpod', hpatch, huid, bind, Except.bind,
      if_true, hanswer]
  · rw [JsonValue.get?, hresponse, Option.bind_some, JsonValue.get?_singleton]
    rfl

/-- **Each container is told its own number of cores.**  What becomes of a container is the same
in every pod: it keeps the numbers it has, or else gets its own quantity, if it asks for any. -/
theorem num_cores_injected (merge : Merge) (hmerge : JsonValue.DataMerge merge)
    (file : Option JsonValue) (perPod perContainer : List (String × JsonValue))
    (hm : IsMutations file perPod perContainer) : ∃ f : JsonValue → JsonValue,
      (∀ container, IsContainer container → merge container (.obj perContainer) ≠ none →
        coresEntries (f container) = expectedEntries container) ∧
      ∀ (review pod uid : JsonValue) (containers : List JsonValue)
        (inits : Option (List JsonValue)), IsReview review pod uid → IsPod pod containers inits →
        isMutationRequired pod = .ok true → merge pod (.obj perPod) ≠ none →
        (∀ container ∈ containers ++ inits.getD [],
          merge container (.obj perContainer) ≠ none) →
        ∃ pod' patch review', generatePatch pod' = .ok patch ∧
          mutate merge file review = .ok review' ∧
          review'.get? ["response", "patch"] = some (.str (encodePatch patch)) ∧
          pod'.get? ["spec", "containers"] = some (.arr (containers.map f)) ∧
          pod'.get? ["spec", "initContainers"] = (inits.map (List.map f)).map .arr := by
  refine ⟨mutated merge file, fun container hc h => (mutateContainer_eq hmerge hm hc h).2, ?_⟩
  intro review pod uid containers inits hreview hpod hrequired hmergesPod hmerges
  obtain ⟨pod', hrun, ⟨hmetadata, hspec⟩, hcontainers, hinits⟩ :=
    mutatePod_eq hmerge hm hpod hmergesPod hmerges
  obtain ⟨patch, hpatch⟩ := generatePatch_eq hmetadata hspec
  obtain ⟨review', hanswer, hresponse⟩ := mutate_required hreview hrequired hrun hpatch
  exact ⟨pod', patch, review', hpatch, hanswer, hresponse, hcontainers, hinits⟩

/-- A container that requests, or limits, an amount of a resource. -/
def containerAsking (part er amount : String) : JsonValue :=
  .obj [("name", .str "main"), ("resources", .obj [(part, .obj [(er, .str amount)])])]

def reviewFor (pod : JsonValue) : JsonValue :=
  .obj [("request", .obj [("kind", .obj [("kind", .str "Pod")]), ("uid", .str "1"),
    ("object", pod)])]

def askingContainer : JsonValue := containerAsking "requests" "cmk.intel.com/exclusive-cores" "2"

def askingPod : JsonValue :=
  .obj [("metadata", .obj []), ("spec", .obj [("containers", .arr [askingContainer])])]

def askingReview : JsonValue := reviewFor askingPod

/-- The other container of a pod limits what it does not request. -/
def limitingContainer : JsonValue :=
  containerAsking "limits" "cmk.intel.com/exclusive-non-isolcpus-cores" "3"

def initContainer : JsonValue := containerAsking "requests" "cmk.intel.com/exclusive-cores" "1"

/-- A pod of two containers and an init container, each with its own quantity. -/
def teamPod : JsonValue :=
  .obj [("metadata", .obj []), ("spec", .obj [
    ("containers", .arr [askingContainer, limitingContainer]),
    ("initContainers", .arr [initContainer])])]

/-- A file that gives each container one entry. -/
def oneEntry (entry : JsonValue) : Option JsonValue :=
  some (.obj [("mutations", .obj [("perPod", .obj []), ("perContainer",
    .obj [("env", .arr [entry])])])])

theorem isContainer_containerAsking (part er amount : String) :
    IsContainer (containerAsking part er amount) := by
  have hamounts : ∀ key, IfThere (.obj [(part, .obj [(er, .str amount)])]) key IsAmounts := by
    intro key v hv
    obtain ⟨m, hfound, rfl⟩ := Option.map_eq_some_iff.mp hv
    obtain rfl := List.mem_singleton.mp (List.mem_of_find?_eq_some hfound)
    refine ⟨⟨_, rfl⟩, fun er' v hv => ?_⟩
    obtain ⟨m, hfound, rfl⟩ := Option.map_eq_some_iff.mp hv
    obtain rfl := List.mem_singleton.mp (List.mem_of_find?_eq_some hfound)
    rfl
  refine ⟨⟨_, rfl⟩, rfl, ?_, fun v hv => by cases hv⟩
  rintro _ ⟨⟩
  exact ⟨⟨_, rfl⟩, hamounts "requests", hamounts "limits"⟩

theorem isContainer_asking : IsContainer askingContainer := isContainer_containerAsking _ _ _

theorem isPod_asking : IsPod askingPod [askingContainer] none :=
  ⟨⟨[], rfl, fun v hv => by cases hv⟩, ⟨_, rfl⟩, rfl, rfl,
    List.forall_mem_singleton.mpr isContainer_asking⟩

theorem isPod_team : IsPod teamPod [askingContainer, limitingContainer] (some [initContainer]) := by
  refine ⟨⟨[], rfl, fun v hv => by cases hv⟩, ⟨_, rfl⟩, rfl, rfl, ?_⟩
  exact List.forall_mem_cons.mpr ⟨isContainer_asking, List.forall_mem_cons.mpr
    ⟨isContainer_containerAsking _ _ _,
      List.forall_mem_singleton.mpr (isContainer_containerAsking _ _ _)⟩⟩

theorem isMutations_oneEntry :
    IsMutations (oneEntry (envEntry "CMK_PROC_FS" (.str "/host/proc"))) []
      [("env", .arr [envEntry "CMK_PROC_FS" (.str "/host/proc")])] := by
  refine ⟨rfl, rfl, by decide, fun v hv => (by cases hv), by decide, ?_⟩
  rintro _ ⟨⟩
  exact ⟨_, rfl, List.forall_mem_singleton.mpr ⟨⟨⟨_, rfl⟩, rfl⟩, rfl⟩⟩

/-- Such an entry merges into each container of the pod. -/
theorem merges_team : ∀ container ∈ [askingContainer, limitingContainer, initContainer],
    JsonValue.dataMerge container
      (.obj [("env", .arr [envEntry "CMK_PROC_FS" (.str "/host/proc")])]) ≠ none := by
  refine List.forall_mem_cons.mpr ⟨?_, List.forall_mem_cons.mpr ⟨?_,
    List.forall_mem_singleton.mpr ?_⟩⟩
  all_goals rintro ⟨⟩

/-- Two containers and an init container are told two, three and one. -/
theorem num_cores_injected_team : ∃ f : JsonValue → JsonValue,
    coresEntries (f askingContainer) = [envEntry envNumCores (.str "2")] ∧
    coresEntries (f limitingContainer) = [envEntry envNumCores (.str "3")] ∧
    coresEntries (f initContainer) = [envEntry envNumCores (.str "1")] ∧
      ∃ pod' patch review', generatePatch pod' = .ok patch ∧
        mutate JsonValue.dataMerge (oneEntry (envEntry "CMK_PROC_FS" (.str "/host/proc")))
          (reviewFor teamPod) = .ok review' ∧
        review'.get? ["response", "patch"] = some (.str (encodePatch patch)) ∧
        pod'.get? ["spec", "containers"] =
          some (.arr [f askingContainer, f limitingContainer]) ∧
        pod'.get? ["spec", "initContainers"] = some (.arr [f initContainer]) := by
  obtain ⟨f, hcontainer, hpod⟩ := num_cores_injected JsonValue.dataMerge JsonValue.dataMerge_spec
    (oneEntry (envEntry "CMK_PROC_FS" (.str "/host/proc"))) []
    [("env", .arr [envEntry "CMK_PROC_FS" (.str "/host/proc")])] isMutations_oneEntry
  have htold : ∀ container ∈ [askingContainer, limitingContainer, initContainer],
      coresEntries (f container) = expectedEntries container := fun container hmem =>
    hcontainer container (isPod_team.isContainer container hmem) (merges_team container hmem)
  have hmergesPod : JsonValue.dataMerge teamPod (.obj []) ≠ none := by rintro ⟨⟩
  exact ⟨f, htold _ (by simp), htold _ (by simp), htold _ (by simp),
    hpod (reviewFor teamPod) teamPod (.str "1") _ _ ⟨rfl, rfl, rfl⟩ isPod_team rfl hmergesPod
      merges_team⟩

/-- An entry without a name ends the mutation. -/
theorem nameless_entry_raises : isMutationRequired askingPod = .ok true ∧
    IsPod askingPod [askingContainer] none ∧
    (∃ pod container, JsonValue.dataMerge askingPod (.obj []) = some pod ∧
      JsonValue.dataMerge askingContainer
        (.obj [("env", .arr [.obj [("value", .str "1")]])]) = some container) ∧
    mutate JsonValue.dataMerge (oneEntry (.obj [("value", .str "1")])) askingReview =
      .error (.keyError none) := by
  exact ⟨rfl, isPod_asking, ⟨_, _, rfl, rfl⟩, rfl⟩

end Cmk
