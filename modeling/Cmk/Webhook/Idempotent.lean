import Cmk.Webhook.Required

/-!
# Webhook/Idempotent — mutating a pod once more

The number of cores is added only where there is none, but the merge extends every list by the one
of the mutations each time.  A mutated pod is mutated again if a container asks for cores, or else
unless the mutations take the annotation away (`isMutationRequired_mutated`).  So a second pass
leaves it as it is exactly when it does not come to a mutation, or the mutations have no list with
items in it (`mutation_idempotent_iff`).
-/

open Machinery Machinery.JsonValue

namespace Cmk

/-- **Mutations of the shape of the default ones**: dictionaries, of which the one for containers
may give an environment of named entries and leaves the resources alone, and the one for pods leaves
the containers alone. -/
structure MutationShape (file : Option JsonValue)
    (perPod perContainer : List (String × JsonValue)) : Prop where
  readPod : (loadMutations file >>= fun m => getOr m "perPod" (.obj [])) = .ok (.obj perPod)
  readContainer :
    (loadMutations file >>= fun m => getOr m "perContainer" (.obj [])) = .ok (.obj perContainer)
  keyedPod : Keyed (.obj perPod)
  keyedContainer : Keyed (.obj perContainer)
  spec : IfThere (.obj perPod) "spec" fun v => ∃ spec, v = .obj spec ∧
    "containers" ∉ spec.map Prod.fst ∧ "initContainers" ∉ spec.map Prod.fst
  resources : "resources" ∉ perContainer.map Prod.fst
  env : IfThere (.obj perContainer) "env" IsEnv

variable {merge : Merge} {file : Option JsonValue} {perPod perContainer : List (String × JsonValue)}
  {pod container : JsonValue} {containers : List JsonValue} {inits : Option (List JsonValue)}

theorem nodup_of_keyed {b : List (String × JsonValue)} (h : Keyed (.obj b)) :
    (b.map Prod.fst).Nodup := by
  cases h with
  | scalar hx => cases hx
  | obj hnodup _ => exact hnodup

/-! ## Containers -/

/-- A container stays as it is, or the number of cores is added. -/
theorem told_cases (container : JsonValue) : told container = container ∨
    ∃ q, told container = withEnv container (envOf container ++ [envEntry envNumCores q]) := by
  rw [told]
  cases ownCores container with
  | none => exact .inl rfl
  | some q =>
    rw [Option.elim_some]
    split_ifs
    · exact .inl rfl
    · exact .inr ⟨q, rfl⟩

/-- **The number of cores is added once.** -/
theorem told_told (hc : IsDict container) : told (told container) = told container := by
  rcases told_cases container with h | ⟨q, h⟩
  · rw [h, h]
  · have hthere : (envOf (told container)).any (named envNumCores) = true := by
      rw [h, envOf_withEnv hc, List.any_append, List.any_cons, named_envEntry]
      simp
    generalize told container = container' at hthere
    rw [told]
    cases ownCores container' with
    | none => rfl
    | some q => rw [Option.elim_some, if_pos hthere]

theorem isContainer_told (hc : IsContainer container) : IsContainer (told container) := by
  rcases told_cases container with h | ⟨q, h⟩
  · rwa [h]
  · rw [h]
    obtain ⟨members, rfl⟩ := hc.dict
    refine ⟨⟨_, rfl⟩, ?_, fun resources hr => ?_, fun env henv => ?_⟩
    · rw [member?_withEnv _ _ (by decide)]
      exact hc.name
    · rw [member?_withEnv _ _ (by decide)] at hr
      exact hc.resources resources hr
    · rw [withEnv, member?_setMember_self] at henv
      obtain rfl := Option.some.inj henv
      refine ⟨_, rfl, List.forall_mem_append.mpr ⟨isNamed_envOf hc, ?_⟩⟩
      exact List.forall_mem_singleton.mpr ⟨⟨_, rfl⟩, rfl⟩

theorem carries_told (hs : MutationShape file perPod perContainer)
    (h : Carries container (.obj perContainer)) : Carries (told container) (.obj perContainer) := by
  rcases told_cases container with heq | ⟨q, heq⟩
  · rwa [heq]
  · rw [heq]
    cases container with
    | obj members =>
      refine h.setMember fun m hm hkey => ?_
      have hmember := member?_of_mem (nodup_of_keyed hs.keyedContainer) hm
      rw [hkey] at hmember
      obtain ⟨entries, hentries, -⟩ := hs.env _ hmember
      rw [hentries]
      exact .arr _ _
    | _ => exact h

theorem listAt_env (container : JsonValue) : listAt ["env"] container = envOf container := by
  rw [listAt, get?_singleton]
  rfl

/-- No list of a container gets shorter. -/
theorem length_listAt_told (hc : IsContainer container) (path : List String) :
    (listAt path container).length ≤ (listAt path (told container)).length := by
  rcases told_cases container with h | ⟨q, h⟩
  · rw [h]
  · cases path with
    | nil =>
      obtain ⟨members, rfl⟩ := hc.dict
      exact Nat.zero_le _
    | cons key path =>
      by_cases hkey : key = "env"
      · subst hkey
        cases path with
        | nil =>
          rw [listAt_env, listAt_env, h, envOf_withEnv hc.dict, List.length_append]
          exact Nat.le_add_right _ _
        | cons next path =>
          have hnil : listAt ("env" :: next :: path) container = [] := by
            rw [listAt, get?]
            cases henv : container.member? "env" with
            | none => rfl
            | some env =>
              obtain ⟨entries, rfl, -⟩ := hc.env env henv
              rfl
          rw [hnil]
          exact Nat.zero_le _
      · rw [h, listAt, listAt, get?, get?, member?_withEnv _ _ hkey]

/-- What a round makes of a container. -/
theorem mutated_eq (hmerge : DataMerge merge) (hs : MutationShape file perPod perContainer)
    (hc : IsContainer container) (hkind : SameKind container (.obj perContainer)) :
    ∃ merged, merge container (.obj perContainer) = some merged ∧ IsContainer merged ∧
      Carries merged (.obj perContainer) ∧
        mutateContainer merge file container = (.ok (), told merged) := by
  obtain ⟨merged, hmerged, hcarries⟩ := merge_of_sameKind hmerge hs.keyedContainer hkind
  obtain ⟨hshape, -, -⟩ := merged_container hmerge (nodup_of_keyed hs.keyedContainer) hs.env
    hs.resources hc hmerged
  exact ⟨merged, hmerged, hshape, hcarries, mutateContainer_run hs.readContainer hc.dict hmerged
    hshape⟩

/-- A container asks for what it asked for. -/
theorem asks_mutated (hmerge : DataMerge merge) (hs : MutationShape file perPod perContainer)
    (hc : IsContainer container) (hkind : SameKind container (.obj perContainer)) :
    Asks (mutated merge file container) ↔ Asks container := by
  obtain ⟨merged, hmerged, -, -, hrun⟩ := mutated_eq hmerge hs hc hkind
  have hfirst : mutated merge file container = told merged := congrArg Prod.snd hrun
  have htold : (told merged).member? "resources" = merged.member? "resources" := by
    rcases told_cases merged with h | ⟨q, h⟩
    · rw [h]
    · rw [h, member?_withEnv _ _ (by decide)]
  have hkept : merged.member? "resources" = container.member? "resources" := by
    obtain ⟨members, rfl⟩ := hc.dict
    rw [hmerge.obj] at hmerged
    obtain ⟨c, hmembers, rfl⟩ := Option.map_eq_some_iff.mp hmerged
    exact member?_mergeMembers_of_notMem hmembers hs.resources
  simp only [Asks, get?, hfirst, htold, hkept]

/-- **A container is mutated once more** without a change exactly when the mutations have no list
with items for it. -/
theorem mutated_mutated_iff (hmerge : DataMerge merge)
    (hs : MutationShape file perPod perContainer) (hc : IsContainer container)
    (hkind : SameKind container (.obj perContainer)) :
    mutated merge file (mutated merge file container) = mutated merge file container ↔
      ¬ HasItems (.obj perContainer) := by
  obtain ⟨merged, -, hshape, hcarries, hrun⟩ := mutated_eq hmerge hs hc hkind
  have hcarries' := carries_told hs hcarries
  obtain ⟨again, hagain, hshape', -, hrun'⟩ :=
    mutated_eq hmerge hs (isContainer_told hshape) hcarries'.sameKind
  have hfirst : mutated merge file container = told merged := congrArg Prod.snd hrun
  have hsecond : mutated merge file (told merged) = told again := congrArg Prod.snd hrun'
  rw [hfirst, hsecond]
  constructor
  · intro heq hitems
    -- the list at some path grows with the merge, and does not shrink after it
    obtain ⟨path, ys, hget, hys⟩ := hitems.exists_path hs.keyedContainer
    have hlist : listAt path again = listAt path (told merged) ++ ys := by
      rw [listAt, get?_merge_arr hmerge hs.keyedContainer hcarries'.sameKind hagain hget]
    have hgrow := length_listAt_told hshape' path
    rw [heq, hlist, List.length_append] at hgrow
    have hpos := List.length_pos_iff.mpr hys
    omega
  · intro hno
    have hsame := merge_of_carries hmerge hs.keyedContainer hcarries' hno
    obtain rfl := Option.some.inj (hsame.symm.trans hagain)
    exact told_told hshape.dict

/-! ## Pods -/

theorem withContainers_eq {members spec : List (String × JsonValue)}
    (hspec : (JsonValue.obj members).member? "spec" = some (.obj spec)) (key : String)
    (containers : List JsonValue) : withContainers (.obj members) key containers =
      .obj (setMember "spec" (.obj (setMember key (.arr containers) spec)) members) := by
  rw [withContainers, JsonValue.add, hspec]
  rfl

/-- To put a pod's own containers in place changes nothing. -/
theorem withContainers_self {key : String} {spec : List (String × JsonValue)}
    (hspec : pod.member? "spec" = some (.obj spec))
    (hlisted : pod.get? ["spec", key] = some (.arr containers)) :
    withContainers pod key containers = pod := by
  cases pod with
  | obj members =>
    rw [get?, hspec, Option.bind_some, get?_singleton] at hlisted
    rw [withContainers_eq hspec, setMember_self hlisted, setMember_self hspec]
  | _ => cases hspec

theorem rebuilt_self {spec : List (String × JsonValue)}
    (hspec : pod.member? "spec" = some (.obj spec))
    (hlisted : pod.get? ["spec", "containers"] = some (.arr containers))
    (hlistedInit : pod.get? ["spec", "initContainers"] = inits.map .arr) :
    rebuilt pod containers inits = pod := by
  rw [rebuilt, withContainers_self hspec hlisted]
  cases inits with
  | none => rfl
  | some initContainers => exact withContainers_self hspec hlistedInit

/-- The mutations of a pod are there whatever its containers are. -/
theorem carries_withContainers (hs : MutationShape file perPod perContainer)
    {spec : List (String × JsonValue)} (hspec : pod.member? "spec" = some (.obj spec))
    {key : String} (hkey : key ∈ ["containers", "initContainers"])
    (h : Carries pod (.obj perPod)) :
    Carries (withContainers pod key containers) (.obj perPod) := by
  cases pod with
  | obj members =>
    rw [withContainers_eq hspec]
    refine h.setMember fun m hm hmkey => ?_
    have hmember := member?_of_mem (nodup_of_keyed hs.keyedPod) hm
    rw [hmkey] at hmember
    obtain ⟨specB, hspecB, hcontainers, hinits⟩ := hs.spec _ hmember
    have hnot : key ∉ specB.map Prod.fst := by
      simp only [List.mem_cons, List.not_mem_nil, or_false] at hkey
      rcases hkey with rfl | rfl
      · exact hcontainers
      · exact hinits
    have hold : Carries (.obj spec) m.2 := by
      cases h with
      | scalar hx => cases hx
      | obj _ hmembers => exact hmembers m hm _ (hmkey ▸ hspec)
    rw [hspecB] at hold ⊢
    exact hold.setMember fun m' hm' hm'key =>
      absurd (hm'key ▸ List.mem_map_of_mem hm') hnot
  | _ => cases hspec

theorem carries_rebuilt (hs : MutationShape file perPod perContainer)
    {spec : List (String × JsonValue)} (hspec : pod.member? "spec" = some (.obj spec))
    (h : Carries pod (.obj perPod)) : Carries (rebuilt pod containers inits) (.obj perPod) := by
  have hfirst := @carries_withContainers _ _ _ pod containers hs spec hspec "containers"
    (by decide) h
  cases inits with
  | none => exact hfirst
  | some initContainers =>
    obtain ⟨-, ⟨spec₁, hspec₁⟩, -⟩ := withContainers_spec hspec "containers" containers
    exact carries_withContainers hs hspec₁ (by decide) hfirst

/-- The lists of the mutations of a pod are not those of its containers. -/
theorem apart_of_get? (hs : MutationShape file perPod perContainer) {path : List String}
    {ys : List JsonValue} (hget : (JsonValue.obj perPod).get? path = some (.arr ys)) {key : String}
    (hkey : key ∈ ["containers", "initContainers"]) : Apart ["spec", key] path := by
  cases path with
  | nil => cases hget
  | cons name path =>
    by_cases hname : name = "spec"
    · subst hname
      obtain ⟨v, hv, hget⟩ := Option.bind_eq_some_iff.mp hget
      obtain ⟨specB, rfl, hcontainers, hinits⟩ := hs.spec v hv
      cases path with
      | nil => cases hget
      | cons next path =>
        obtain ⟨w, hw, -⟩ := Option.bind_eq_some_iff.mp hget
        have hmem : next ∈ specB.map Prod.fst := (isSome_member? next specB).mp (by rw [hw]; rfl)
        refine .inr (.inl fun heq => ?_)
        subst heq
        simp only [List.mem_cons, List.not_mem_nil, or_false] at hkey
        rcases hkey with rfl | rfl
        · exact hcontainers hmem
        · exact hinits hmem
    · exact .inl (Ne.symm hname)

theorem HasContainers.unique {containers' : List JsonValue} {inits' : Option (List JsonValue)}
    (h : HasContainers pod containers inits) (h' : HasContainers pod containers' inits') :
    containers = containers' ∧ inits = inits' :=
  ⟨JsonValue.arr.inj (Option.some.inj (h.listed.symm.trans h'.listed)),
    Option.map_injective (fun _ _ => JsonValue.arr.inj) (h.listedInit.symm.trans h'.listedInit)⟩

theorem append_getD_map (f : JsonValue → JsonValue) (containers : List JsonValue)
    (inits : Option (List JsonValue)) :
    containers.map f ++ (inits.map (List.map f)).getD [] = (containers ++ inits.getD []).map f := by
  cases inits <;> simp

/-- What a round makes of a container can be mutated again. -/
theorem mutated_spec (hmerge : DataMerge merge) (hs : MutationShape file perPod perContainer)
    (hc : IsContainer container) (hkind : SameKind container (.obj perContainer)) :
    (mutateContainer merge file container).1 = .ok () ∧
      IsContainer (mutated merge file container) ∧
        SameKind (mutated merge file container) (.obj perContainer) := by
  obtain ⟨merged, -, hshape, hcarries, hrun⟩ := mutated_eq hmerge hs hc hkind
  rw [mutated, hrun]
  exact ⟨rfl, isContainer_told hshape, (carries_told hs hcarries).sameKind⟩

/-- A pod and its containers that the mutations can be merged into. -/
structure Mutable (perPod perContainer : List (String × JsonValue)) (pod : JsonValue)
    (containers : List JsonValue) (inits : Option (List JsonValue)) : Prop where
  hasContainers : HasContainers pod containers inits
  sameKindPod : SameKind pod (.obj perPod)
  isContainer : ∀ container ∈ containers ++ inits.getD [], IsContainer container
  sameKind : ∀ container ∈ containers ++ inits.getD [], SameKind container (.obj perContainer)

/-- **A pod is mutated**, and the result can be mutated again. -/
theorem mutatePod_step (hmerge : DataMerge merge) (hs : MutationShape file perPod perContainer)
    (hpod : Mutable perPod perContainer pod containers inits) :
    ∃ merged, merge pod (.obj perPod) = some merged ∧ HasContainers merged containers inits ∧
      mutatePod merge file pod = .ok (rebuilt merged (containers.map (mutated merge file))
        (inits.map (List.map (mutated merge file)))) ∧
      Mutable perPod perContainer (rebuilt merged (containers.map (mutated merge file))
        (inits.map (List.map (mutated merge file)))) (containers.map (mutated merge file))
        (inits.map (List.map (mutated merge file))) ∧
      Carries (rebuilt merged (containers.map (mutated merge file))
        (inits.map (List.map (mutated merge file)))) (.obj perPod) := by
  obtain ⟨merged, hmerged, hcarries⟩ := merge_of_sameKind hmerge hs.keyedPod hpod.sameKindPod
  have hmergedPod := merged_pod hmerge (nodup_of_keyed hs.keyedPod) hs.spec hpod.hasContainers
    hmerged
  obtain ⟨spec, hspec⟩ := hmergedPod.spec
  have hround : ∀ container ∈ containers ++ inits.getD [],
      (mutateContainer merge file container).1 = .ok () ∧
        IsContainer (mutated merge file container) ∧
          SameKind (mutated merge file container) (.obj perContainer) := fun container hmem =>
    mutated_spec hmerge hs (hpod.isContainer container hmem) (hpod.sameKind container hmem)
  obtain ⟨hrebuilt, -⟩ := @rebuilt_spec merged (containers.map (mutated merge file)) containers
    (inits.map (List.map (mutated merge file))) inits hmergedPod (by simp)
  have hcarries' := @carries_rebuilt file perPod perContainer merged
    (containers.map (mutated merge file)) (inits.map (List.map (mutated merge file))) hs spec hspec
    hcarries
  refine ⟨merged, hmerged, hmergedPod, mutatePod_run hs.readPod hpod.hasContainers.dict hmerged
    hmergedPod fun container hmem => (hround container hmem).1,
    ⟨hrebuilt, hcarries'.sameKind, ?_, ?_⟩, hcarries'⟩
  · rw [append_getD_map, List.forall_mem_map]
    exact fun container hmem => (hround container hmem).2.1
  · rw [append_getD_map, List.forall_mem_map]
    exact fun container hmem => (hround container hmem).2.2

/-- The mutations give the annotation a value that is not accepted. -/
def ResetsAnnotation (perPod : List (String × JsonValue)) : Prop :=
  ((JsonValue.obj perPod).get? ["metadata", "annotations", cmkMutateAnnotation]).isSome ∧
    ¬ Annotated (.obj perPod)

/-- **The annotation of a mutated pod** is that of the mutations, if they have it. -/
theorem annotated_mutated (hmerge : DataMerge merge) (hs : MutationShape file perPod perContainer)
    (hpod : Mutable perPod perContainer pod containers inits) (hannotated : Annotated pod) :
    ∃ pod' b, mutatePod merge file pod = .ok pod' ∧ isAnnotated pod' = .ok b ∧
      (b = true ↔ ¬ ResetsAnnotation perPod) := by
  obtain ⟨merged, hmerged, hmergedPod, hrun, -, -⟩ := mutatePod_step hmerge hs hpod
  obtain ⟨text, haccepted, htext⟩ := hannotated
  have hvalue := get?_merge_scalar hmerge hs.keyedPod hpod.sameKindPod hmerged htext rfl
  obtain ⟨-, hoff⟩ := @rebuilt_spec merged (containers.map (mutated merge file)) containers
    (inits.map (List.map (mutated merge file))) inits hmergedPod (by simp)
  rw [← hoff _ (by decide) (by decide)] at hvalue
  obtain ⟨b, hb, hannotated'⟩ := isAnnotated_of_get? hvalue
  refine ⟨_, b, hrun, hb, hannotated'.trans ?_⟩
  rw [Annotated, hvalue, ResetsAnnotation, Annotated]
  cases (JsonValue.obj perPod).get? ["metadata", "annotations", cmkMutateAnnotation] with
  | none => exact iff_of_true ⟨text, haccepted, rfl⟩ fun h => by cases h.1
  | some v =>
    rw [Option.getD_some]
    exact ⟨fun h hreset => hreset.2 h, fun h => by_contra fun hno => h ⟨rfl, hno⟩⟩

/-- **A mutated pod is mutated again** exactly when a container asks, or else the annotation stays.
-/
theorem isMutationRequired_mutated (hmerge : DataMerge merge)
    (hs : MutationShape file perPod perContainer)
    (hpod : Mutable perPod perContainer pod containers inits)
    (hrequired : (∃ container ∈ containers, Asks container) ∨ Annotated pod) :
    ∃ pod' b, mutatePod merge file pod = .ok pod' ∧ isMutationRequired pod' = .ok b ∧
      (b = true ↔ (∃ container ∈ containers, Asks container) ∨ ¬ ResetsAnnotation perPod) := by
  obtain ⟨merged, -, -, hrun, hpod', -⟩ := mutatePod_step hmerge hs hpod
  obtain ⟨hcontainers, -⟩ := List.forall_mem_append.mp hpod'.isContainer
  obtain ⟨asked, hasked, hiff⟩ := anyRequired_eq hcontainers
  have hasks : asked = true ↔ ∃ container ∈ containers, Asks container := by
    rw [hiff]
    simp only [List.mem_map, exists_exists_and_eq_and]
    refine exists_congr fun container => and_congr_right fun hmem => ?_
    have hmem' := List.mem_append_left (inits.getD []) hmem
    exact asks_mutated hmerge hs (hpod.isContainer _ hmem') (hpod.sameKind _ hmem')
  have hdecision := isMutationRequired_of_listed hpod'.hasContainers.listed
  rw [hasked] at hdecision
  cases asked with
  | true => exact ⟨_, true, hrun, hdecision, iff_of_true rfl (.inl (hasks.mp rfl))⟩
  | false =>
    have hno : ¬ ∃ container ∈ containers, Asks container := fun h => by cases hasks.mpr h
    obtain ⟨pod', b, hrun', hb, hannotated⟩ :=
      annotated_mutated hmerge hs hpod (hrequired.resolve_left hno)
    obtain rfl := Except.ok.inj (hrun.symm.trans hrun')
    exact ⟨_, b, hrun, hdecision.trans hb, by rw [or_iff_right hno, hannotated]⟩

/-- All containers are left as they are exactly when each is. -/
theorem map_map_eq_iff {f : JsonValue → JsonValue} :
    ((containers.map f).map f = containers.map f ∧
        (inits.map (List.map f)).map (List.map f) = inits.map (List.map f)) ↔
      ∀ container ∈ containers ++ inits.getD [], f (f container) = f container := by
  rw [List.forall_mem_append, List.map_map, List.map_inj_left]
  refine and_congr_right fun _ => ?_
  cases inits with
  | none => simp
  | some initContainers =>
    rw [Option.map_some, Option.map_some, Option.some.injEq, List.map_map, List.map_inj_left]
    rfl

/-- **A pod that stays as it is** was given no items: the list at some path off the containers would
have grown. -/
theorem not_hasItems_of_rebuilt (hmerge : DataMerge merge)
    (hs : MutationShape file perPod perContainer) {again : JsonValue}
    (hcarries : Carries pod (.obj perPod)) (hagain : merge pod (.obj perPod) = some again)
    {containers' : List JsonValue} {inits' : Option (List JsonValue)}
    (hagainPod : HasContainers again containers inits) (hold : inits' = none → inits = none)
    (heq : rebuilt again containers' inits' = pod) : ¬ HasItems (.obj perPod) := by
  intro hitems
  obtain ⟨path, ys, hget, hys⟩ := hitems.exists_path hs.keyedPod
  obtain ⟨-, hoff⟩ := @rebuilt_spec again containers' containers inits' inits hagainPod hold
  have hlist : listAt path pod = listAt path pod ++ ys := by
    nth_rewrite 1 [← heq]
    rw [listAt, hoff path (apart_of_get? hs hget (by decide))
      (apart_of_get? hs hget (by decide)),
      get?_merge_arr hmerge hs.keyedPod hcarries.sameKind hagain hget]
  exact hys (List.self_eq_append_right.mp hlist)

/-- **A pod is mutated once more** without a change exactly when the mutations have no list with
items, neither for the pod nor, where it has a container, for that. -/
theorem mutatePod_mutatePod_iff (hmerge : DataMerge merge)
    (hs : MutationShape file perPod perContainer)
    (hpod : Mutable perPod perContainer pod containers inits) :
    ∃ pod', mutatePod merge file pod = .ok pod' ∧ (pod'.member? "metadata").isSome ∧
      (pod'.member? "spec").isSome ∧ (mutatePod merge file pod' = .ok pod' ↔
        ¬ HasItems (.obj perPod) ∧
          (containers ++ inits.getD [] ≠ [] → ¬ HasItems (.obj perContainer))) := by
  obtain ⟨merged, -, -, hrun, hpod', hcarries⟩ := mutatePod_step hmerge hs hpod
  generalize rebuilt merged (containers.map (mutated merge file))
    (inits.map (List.map (mutated merge file))) = pod' at hrun hpod' hcarries
  obtain ⟨again, hagain, hagainPod, hrun', -, -⟩ := mutatePod_step hmerge hs hpod'
  obtain ⟨hrebuilt', -⟩ := @rebuilt_spec again
    ((containers.map (mutated merge file)).map (mutated merge file))
    (containers.map (mutated merge file))
    ((inits.map (List.map (mutated merge file))).map (List.map (mutated merge file))) _ hagainPod
    (by simp)
  obtain ⟨spec', hspec'⟩ := hpod'.hasContainers.spec
  have hfix : ∀ container ∈ containers ++ inits.getD [],
      (mutated merge file (mutated merge file container) = mutated merge file container ↔
        ¬ HasItems (.obj perContainer)) := fun container hmem =>
    mutated_mutated_iff hmerge hs (hpod.isContainer container hmem) (hpod.sameKind container hmem)
  refine ⟨pod', hrun, hpod'.hasContainers.metadata, by rw [hspec']; rfl, ?_⟩
  rw [hrun', Except.ok.injEq]
  constructor
  · intro heq
    refine ⟨not_hasItems_of_rebuilt hmerge hs hcarries hagain hagainPod (by simp) heq,
      fun hne => ?_⟩
    obtain ⟨container, hmem⟩ := List.exists_mem_of_ne_nil _ hne
    have hlists := (heq ▸ hrebuilt').unique hpod'.hasContainers
    exact (hfix container hmem).mp (map_map_eq_iff.mp hlists container hmem)
  · rintro ⟨hno, hnoContainer⟩
    have hsame := merge_of_carries hmerge hs.keyedPod hcarries hno
    obtain rfl := Option.some.inj (hsame.symm.trans hagain)
    obtain ⟨hcontainers, hinits⟩ := map_map_eq_iff.mpr fun container hmem =>
      (hfix container hmem).mpr (hnoContainer (List.ne_nil_of_mem hmem))
    rw [hcontainers, hinits]
    exact rebuilt_self hspec' hpod'.hasContainers.listed hpod'.hasContainers.listedInit

/-- What the pod of a review is in the end: it is mutated where `mutate` finds that required, and
else is as it came. -/
def reviewedPod (merge : Merge) (file : Option JsonValue) (pod : JsonValue) :
    Except PyErr JsonValue := do
  if ← isMutationRequired pod then mutatePod merge file pod else return pod

theorem reviewedPod_eq {b : Bool} (h : isMutationRequired pod = .ok b) :
    reviewedPod merge file pod = if b then mutatePod merge file pod else .ok pod := by
  rw [reviewedPod, h]
  rfl

/-- **The mutation of a pod is idempotent** — what the webhook answers with is left as it is by
another pass — exactly when the mutations have no list with items, neither for the pod nor, where it
has a container, for that, or the other pass does not come to a mutation: no container asks, and the
mutations take the annotation away. -/
theorem mutation_idempotent_iff (merge : Merge) (hmerge : DataMerge merge)
    (file : Option JsonValue) (perPod perContainer : List (String × JsonValue))
    (hs : MutationShape file perPod perContainer) (review pod uid : JsonValue)
    (containers : List JsonValue) (inits : Option (List JsonValue))
    (hreview : IsReview review pod uid) (hpod : IsPod pod containers inits)
    (hrequired : isMutationRequired pod = .ok true) (hkindPod : SameKind pod (.obj perPod))
    (hkind : ∀ container ∈ containers ++ inits.getD [], SameKind container (.obj perContainer)) :
    ∃ pod' patch review', generatePatch pod' = .ok patch ∧
      mutate merge file review = .ok review' ∧
      review'.get? ["response", "patch"] = some (.str (encodePatch patch)) ∧
      reviewedPod merge file pod = .ok pod' ∧
      (reviewedPod merge file pod' = .ok pod' ↔
        (¬ HasItems (.obj perPod) ∧
          (containers ++ inits.getD [] ≠ [] → ¬ HasItems (.obj perContainer))) ∨
        ((∀ container ∈ containers, ¬ Asks container) ∧ ResetsAnnotation perPod)) := by
  have hmutable : Mutable perPod perContainer pod containers inits :=
    ⟨hpod.hasContainers, hkindPod, hpod.isContainer, hkind⟩
  obtain ⟨pod', hrun, hmetadata, hspec, hiff⟩ := mutatePod_mutatePod_iff hmerge hs hmutable
  obtain ⟨patch, hpatch⟩ := generatePatch_eq hmetadata hspec
  obtain ⟨review', hanswer, hresponse⟩ := mutate_required hreview hrequired hrun hpatch
  refine ⟨pod', patch, review', hpatch, hanswer, hresponse,
    (reviewedPod_eq hrequired).trans hrun, ?_⟩
  obtain ⟨b, hb, hasked⟩ := isMutationRequired_eq hpod
  obtain rfl := Except.ok.inj (hrequired.symm.trans hb)
  obtain ⟨pod'', again, hrun', hagain, hagainIff⟩ :=
    isMutationRequired_mutated hmerge hs hmutable (hasked.mp rfl)
  obtain rfl := Except.ok.inj (hrun.symm.trans hrun')
  have hpasses : ((∀ container ∈ containers, ¬ Asks container) ∧ ResetsAnnotation perPod) ↔
      again = false := by
    rw [← Bool.not_eq_true, hagainIff, not_or, not_not]
    simp only [not_exists, not_and]
  rw [reviewedPod_eq hagain, hpasses]
  cases again with
  | true =>
    rw [if_pos rfl, hiff]
    exact (or_iff_left (by decide)).symm
  | false => exact iff_of_true rfl (.inr rfl)

/-! ## The default mutations -/

def defaultPerPod : List (String × JsonValue) :=
  [("metadata", .obj [("annotations", .obj [("cmk.intel.com/resources-injected", .str "true")])]),
    ("spec", .obj [("serviceAccountName", .str "cmk-serviceaccount"),
      ("tolerations", .arr [.obj [("operator", .str "Exists")]]),
      ("volumes", .arr [
        .obj [("name", .str "cmk-host-proc"), ("hostPath", .obj [("path", .str "/proc")])],
        .obj [("name", .str "cmk-install-dir"), ("hostPath", .obj [("path", .str "/opt/bin")])]])])]

def defaultPerContainer : List (String × JsonValue) :=
  [("env", .arr [.obj [("name", .str "CMK_PROC_FS"), ("value", .str "/host/proc")]]),
    ("volumeMounts", .arr [
      .obj [("name", .str "cmk-host-proc"), ("mountPath", .str "/host/proc"),
        ("readOnly", .bool true)],
      .obj [("name", .str "cmk-install-dir"), ("mountPath", .str "/opt/bin"),
        ("readOnly", .bool true)]])]

def getDefaultWebhookMutationsConfig : JsonValue :=
  .obj [("mutations", .obj [("perPod", .obj defaultPerPod),
    ("perContainer", .obj defaultPerContainer)])]

theorem mutationShape_default :
    MutationShape (some getDefaultWebhookMutationsConfig) defaultPerPod defaultPerContainer := by
  refine ⟨rfl, rfl, .obj (by decide) ?_, .obj (by decide) ?_, ?_, by decide, ?_⟩
  · refine List.forall_mem_cons.mpr ⟨?_, List.forall_mem_singleton.mpr ?_⟩
    · exact .obj (by decide) (List.forall_mem_singleton.mpr
        (.obj (by decide) (List.forall_mem_singleton.mpr (.scalar rfl))))
    · exact .obj (by decide) (List.forall_mem_cons.mpr ⟨.scalar rfl,
        List.forall_mem_cons.mpr ⟨.arr _, List.forall_mem_singleton.mpr (.arr _)⟩⟩)
  · exact List.forall_mem_cons.mpr ⟨.arr _, List.forall_mem_singleton.mpr (.arr _)⟩
  · rintro _ ⟨⟩
    exact ⟨_, rfl, by decide, by decide⟩
  · rintro _ ⟨⟩
    exact ⟨_, rfl, List.forall_mem_singleton.mpr ⟨⟨_, rfl⟩, rfl⟩⟩

/-- A member that is not there is of the kind of anything. -/
theorem sameKind_of_none {a b : List (String × JsonValue)}
    (h : ∀ m ∈ b, (JsonValue.obj a).member? m.1 = none) : SameKind (.obj a) (.obj b) :=
  .obj fun m hm old hold => by
    rw [h m hm] at hold
    cases hold

/-- Mutations that take the annotation away, and a pod that is mutated for it. -/
def resettingPerPod : List (String × JsonValue) :=
  [("metadata", .obj [("annotations", .obj [( cmkMutateAnnotation, .str "false")])]),
    ("spec", .obj [("tolerations", .arr [.obj [("operator", .str "Exists")]])])]

def resettingFile : Option JsonValue :=
  some (.obj [("mutations", .obj [("perPod", .obj resettingPerPod), ("perContainer", .obj [])])])

def annotatedPod : JsonValue :=
  .obj [("metadata", .obj [("annotations", .obj [( cmkMutateAnnotation, .str "true")])]),
    ("spec", .obj [("containers", .arr [plainContainer])])]

theorem mutationShape_resetting : MutationShape resettingFile resettingPerPod [] := by
  refine ⟨rfl, rfl, .obj (by decide) ?_, .obj (by decide) (by simp), ?_, by decide, ?_⟩
  · refine List.forall_mem_cons.mpr ⟨?_, List.forall_mem_singleton.mpr ?_⟩
    · exact .obj (by decide) (List.forall_mem_singleton.mpr
        (.obj (by decide) (List.forall_mem_singleton.mpr (.scalar rfl))))
    · exact .obj (by decide) (List.forall_mem_singleton.mpr (.arr _))
  · rintro _ ⟨⟩
    exact ⟨_, rfl, by decide, by decide⟩
  · rintro _ ⟨⟩

theorem isPod_annotated : IsPod annotatedPod [plainContainer] none := by
  refine ⟨⟨_, rfl, ?_⟩, ⟨_, rfl⟩, rfl, rfl, List.forall_mem_singleton.mpr ?_⟩
  · rintro _ ⟨⟩
    exact ⟨_, rfl⟩
  · exact ⟨⟨_, rfl⟩, rfl, fun v hv => (by cases hv), fun v hv => (by cases hv)⟩

theorem sameKind_annotated : SameKind annotatedPod (.obj resettingPerPod) := by
  refine .obj (List.forall_mem_cons.mpr ⟨?_, List.forall_mem_singleton.mpr ?_⟩)
  · rintro _ ⟨⟩
    refine .obj (List.forall_mem_singleton.mpr ?_)
    rintro _ ⟨⟩
    refine .obj (List.forall_mem_singleton.mpr ?_)
    rintro _ ⟨⟩
    exact .scalar rfl _
  · rintro _ ⟨⟩
    exact sameKind_of_none (List.forall_mem_singleton.mpr rfl)

/-- A pod whose annotation is taken away by its mutation stays as it is by then. -/
theorem mutation_idempotent_resetting : ∃ pod',
    reviewedPod dataMerge resettingFile annotatedPod = .ok pod' ∧
      reviewedPod dataMerge resettingFile pod' = .ok pod' := by
  have hreset : ResetsAnnotation resettingPerPod := by
    refine ⟨rfl, ?_⟩
    rintro ⟨text, htext, heq⟩
    obtain rfl := JsonValue.str.inj (Option.some.inj heq)
    exact absurd htext (by decide)
  have hplain : ¬ Asks plainContainer := by
    rintro ⟨er, -, part, -, ⟨⟩⟩
  obtain ⟨pod', -, -, -, -, -, hrun, hiff⟩ := mutation_idempotent_iff dataMerge dataMerge_spec _ _ _
    mutationShape_resetting (reviewFor annotatedPod) annotatedPod (.str "1") _ none
    ⟨rfl, rfl, rfl⟩ isPod_annotated rfl sameKind_annotated
    (List.forall_mem_singleton.mpr (.obj (by simp)))
  exact ⟨pod', hrun, hiff.mpr (.inr ⟨List.forall_mem_singleton.mpr hplain, hreset⟩)⟩

/-- **A pod that was mutated already** is mutated again, and has its volumes extended once more. -/
theorem volumes_added_twice : isMutationRequired askingPod = .ok true ∧ ∃ pod' pod'',
    reviewedPod dataMerge (some getDefaultWebhookMutationsConfig) askingPod = .ok pod' ∧
      isMutationRequired pod' = .ok true ∧
      reviewedPod dataMerge (some getDefaultWebhookMutationsConfig) pod' = .ok pod'' ∧
      (listAt ["spec", "volumes"] pod').length = 2 ∧
      (listAt ["spec", "volumes"] pod'').length = 4 ∧ pod'' ≠ pod' := by
  refine ⟨rfl, _, _, rfl, rfl, rfl, rfl, rfl, fun heq => ?_⟩
  have hlength := congrArg (fun pod => (listAt ["spec", "volumes"] pod).length) heq
  exact absurd hlength (by decide)

end Cmk
