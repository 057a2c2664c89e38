import Cmk.Webhook.Cores

/-!
# Webhook/Required — the pods that are answered with a patch

The decision looks at the containers and the annotation, the mutation also at the init containers.
So a pod is answered with a patch exactly when it should be, unless an init container alone asks for
exclusive cores (`patch_iff_wanted_iff`).
-/

open Machinery

namespace Cmk

variable {merge : Merge} {file : Option JsonValue} {perPod perContainer : List (String × JsonValue)}
  {pod review uid container : JsonValue} {containers : List JsonValue}
  {inits : Option (List JsonValue)}

/-- A container requests or limits one of the resources. -/
def Asks (container : JsonValue) : Prop :=
  ∃ er ∈ cmkErName, ∃ part ∈ ["requests", "limits"],
    (container.get? ["resources", part, er]).isSome

/-- The annotation is there with an accepted value. -/
def Annotated (pod : JsonValue) : Prop :=
  ∃ text ∈ ["true", "True", "1"],
    pod.get? ["metadata", "annotations", cmkMutateAnnotation] = some (.str text)

/-- **A mutation is wanted** by a container, an init container or the annotation. -/
def Wanted (pod : JsonValue) (containers : List JsonValue) (inits : Option (List JsonValue)) :
    Prop :=
  (∃ container ∈ containers ++ inits.getD [], Asks container) ∨ Annotated pod

/-- The webhook answers with a patch. -/
def AnswersWithPatch (merge : Merge) (file : Option JsonValue) (review : JsonValue) : Prop :=
  ∃ review', mutate merge file review = .ok review' ∧
    (review'.get? ["response", "patch"]).isSome

theorem asksFor_eq (h : IsContainer container) {places : List (String × String)}
    (hplaces : ∀ place ∈ places, place.1 ∈ ["requests", "limits"]) :
    asksFor container places =
      .ok (places.any fun place => (container.get? ["resources", place.1, place.2]).isSome) := by
  induction places with
  | nil => rfl
  | cons place places ih =>
    obtain ⟨hplace, hrest⟩ := List.forall_mem_cons.mp hplaces
    rw [asksFor, resourceAt_eq h hplace, List.any_cons]
    cases hget : container.get? ["resources", place.1, place.2] with
    | none => exact ih hrest
    | some v =>
      have hnot := notNull_of_get? h hplace hget
      simp [exceptKeyError, bind, Except.bind, hnot]

/-- **A container is found to ask** exactly when it does. -/
theorem isContainerMutationRequired_eq (h : IsContainer container) :
    ∃ b, isContainerMutationRequired container = .ok b ∧ (b = true ↔ Asks container) := by
  refine ⟨_, asksFor_eq h (by decide), ?_⟩
  simp [cmkErName, Asks, or_assoc]

theorem anyRequired_eq (h : ∀ container ∈ containers, IsContainer container) :
    ∃ b, anyRequired containers = .ok b ∧
      (b = true ↔ ∃ container ∈ containers, Asks container) := by
  induction containers with
  | nil => exact ⟨false, rfl, by simp⟩
  | cons container containers ih =>
    obtain ⟨hcontainer, hrest⟩ := List.forall_mem_cons.mp h
    obtain ⟨first, hfirst, hasks⟩ := isContainerMutationRequired_eq hcontainer
    obtain ⟨rest, hok, hany⟩ := ih hrest
    refine ⟨first || rest, ?_, by rw [Bool.or_eq_true, hasks, hany, List.exists_mem_cons_iff]⟩
    rw [anyRequired, hfirst, hok]
    cases first <;> rfl

theorem isText_iff {text : String} {v : JsonValue} : isText text v = true ↔ v = .str text := by
  cases v <;> simp [isText]

theorem isAnnotated_eq (h : IsPod pod containers inits) :
    ∃ b, isAnnotated pod = .ok b ∧ (b = true ↔ Annotated pod) := by
  obtain ⟨metadata, hmetadata, hdict⟩ := h.metadata
  have hget : pod.get? ["metadata", "annotations", cmkMutateAnnotation] =
      ((JsonValue.obj metadata).member? "annotations").bind
        (JsonValue.member? cmkMutateAnnotation) := by
    rw [JsonValue.get?, hmetadata, Option.bind_some]
    exact JsonValue.get?_concat ["annotations"] cmkMutateAnnotation (.obj metadata) |>.trans (by
      rw [JsonValue.get?_singleton])
  rw [isAnnotated, Annotated, hget, itemAt_of_member? hmetadata]
  cases hannotations : (JsonValue.obj metadata).member? "annotations" with
  | none =>
    refine ⟨false, ?_, by simp⟩
    simp only [bind, Except.bind, itemAt_eq ⟨metadata, rfl⟩, hannotations]
    rfl
  | some annotations =>
    simp only [bind, Except.bind, itemAt_of_member? hannotations,
      itemAt_eq (hdict annotations hannotations), Option.bind]
    cases hvalue : annotations.member? cmkMutateAnnotation with
    | none => exact ⟨false, rfl, by simp⟩
    | some value => exact ⟨_, rfl, by simp [isText_iff]⟩

/-- The annotation of a pod that has it. -/
theorem isAnnotated_of_get? {value : JsonValue}
    (h : pod.get? ["metadata", "annotations", cmkMutateAnnotation] = some value) :
    ∃ b, isAnnotated pod = .ok b ∧ (b = true ↔ Annotated pod) := by
  obtain ⟨metadata, hmetadata, hrest⟩ := Option.bind_eq_some_iff.mp h
  obtain ⟨annotations, hannotations, hvalue⟩ := Option.bind_eq_some_iff.mp hrest
  rw [JsonValue.get?_singleton] at hvalue
  rw [isAnnotated, Annotated, h, itemAt_of_member? hmetadata]
  simp only [bind, Except.bind, itemAt_of_member? hannotations, itemAt_of_member? hvalue]
  exact ⟨_, rfl, by simp [isText_iff]⟩

/-- The decision, with what it goes over at hand. -/
theorem isMutationRequired_of_items {listed : JsonValue} {items : List JsonValue}
    (hlisted : pod.get? ["spec", "containers"] = some listed)
    (hitems : itemsOf listed = .ok items) : isMutationRequired pod =
      anyRequired items >>= fun asked => if asked then .ok true else isAnnotated pod := by
  obtain ⟨spec, hspec, hlist⟩ := Option.bind_eq_some_iff.mp hlisted
  rw [JsonValue.get?_singleton] at hlist
  rw [isMutationRequired, itemAt_of_member? hspec]
  simp only [bind, Except.bind, itemAt_of_member? hlist, hitems]

theorem isMutationRequired_of_listed
    (h : pod.get? ["spec", "containers"] = some (.arr containers)) : isMutationRequired pod =
      anyRequired containers >>= fun asked => if asked then .ok true else isAnnotated pod :=
  isMutationRequired_of_items h rfl

/-- **What the decision looks at**: the containers and the annotation. -/
theorem isMutationRequired_eq (h : IsPod pod containers inits) :
    ∃ b, isMutationRequired pod = .ok b ∧
      (b = true ↔ (∃ container ∈ containers, Asks container) ∨ Annotated pod) := by
  obtain ⟨hcontainers, -⟩ := List.forall_mem_append.mp h.isContainer
  obtain ⟨asked, hasked, hasks⟩ := anyRequired_eq hcontainers
  obtain ⟨annotated, hannotated, hannotation⟩ := isAnnotated_eq h
  refine ⟨asked || annotated, ?_, by rw [Bool.or_eq_true, hasks, hannotation]⟩
  rw [isMutationRequired_of_listed h.listed, hasked, hannotated]
  cases asked <;> rfl

/-- A pod for which it is not required is answered without a patch. -/
theorem mutate_not_required (h : IsReview review pod uid)
    (hrequired : isMutationRequired pod = .ok false) : ¬ AnswersWithPatch merge file review := by
  rintro ⟨review', hmutate, hpatch⟩
  obtain ⟨hreview, huid⟩ := review_eq h
  obtain ⟨review₁, hanswer, hresponse⟩ := answer_eq h [("allowed", .bool true), ("uid", uid)]
  have hrun : mutate merge file review = .ok review₁ := by
    simp only [mutate, hreview, exceptKeyError, hrequired, huid, bind, Except.bind,
      Bool.false_eq_true, if_false, hanswer]
  obtain rfl := Except.ok.inj (hrun.symm.trans hmutate)
  rw [JsonValue.get?, hresponse, Option.bind_some, JsonValue.get?_singleton] at hpatch
  cases hpatch

/-- **A patch is answered exactly when one is wanted**, if no init container asks alone. -/
theorem patch_iff_wanted_iff (merge : Merge) (hmerge : JsonValue.DataMerge merge)
    (file : Option JsonValue) (perPod perContainer : List (String × JsonValue))
    (hm : IsMutations file perPod perContainer) (review pod uid : JsonValue)
    (containers : List JsonValue) (inits : Option (List JsonValue))
    (hreview : IsReview review pod uid) (hpod : IsPod pod containers inits)
    (hmergesPod : merge pod (.obj perPod) ≠ none)
    (hmerges : ∀ container ∈ containers ++ inits.getD [],
      merge container (.obj perContainer) ≠ none) :
    (AnswersWithPatch merge file review ↔ Wanted pod containers inits) ↔
      ((∃ container ∈ inits.getD [], Asks container) →
        (∃ container ∈ containers, Asks container) ∨ Annotated pod) := by
  obtain ⟨b, hrequired, hb⟩ := isMutationRequired_eq hpod
  have hanswers : AnswersWithPatch merge file review ↔ b = true := by
    cases b with
    | false => exact iff_of_false (mutate_not_required hreview hrequired) (by simp)
    | true =>
      obtain ⟨pod', hrun, ⟨hmetadata, hspec⟩, -⟩ := mutatePod_eq hmerge hm hpod hmergesPod hmerges
      obtain ⟨patch, hpatch⟩ := generatePatch_eq hmetadata hspec
      obtain ⟨review', hmutate, hresponse⟩ := mutate_required hreview hrequired hrun hpatch
      exact iff_of_true ⟨review', hmutate, by rw [hresponse]; rfl⟩ rfl
  have hwanted : Wanted pod containers inits ↔ (∃ container ∈ inits.getD [], Asks container) ∨
      (∃ container ∈ containers, Asks container) ∨ Annotated pod := by
    simp only [Wanted, List.mem_append, or_and_right, exists_or]
    rw [or_assoc, or_left_comm]
  rw [hanswers, hb, hwanted]
  exact Iff.comm.trans or_iff_right_iff_imp

theorem patch_iff_wanted_team :
    (AnswersWithPatch JsonValue.dataMerge (oneEntry (envEntry "CMK_PROC_FS" (.str "/host/proc")))
        (reviewFor teamPod) ↔
      Wanted teamPod [askingContainer, limitingContainer] (some [initContainer])) ↔
      ((∃ container ∈ (some [initContainer]).getD [], Asks container) →
        (∃ container ∈ [askingContainer, limitingContainer], Asks container) ∨
          Annotated teamPod) :=
  patch_iff_wanted_iff JsonValue.dataMerge JsonValue.dataMerge_spec _ _ _ isMutations_oneEntry
    (reviewFor teamPod) teamPod (.str "1") _ _ ⟨rfl, rfl, rfl⟩ isPod_team (by rintro ⟨⟩) merges_team

def plainContainer : JsonValue := .obj [("name", .str "main")]

/-- Only the init container asks. -/
def initAskingPod : JsonValue :=
  .obj [("metadata", .obj []), ("spec", .obj [("containers", .arr [plainContainer]),
    ("initContainers", .arr [askingContainer])])]

def initAskingReview : JsonValue := reviewFor initAskingPod

theorem isPod_initAsking : IsPod initAskingPod [plainContainer] (some [askingContainer]) := by
  refine ⟨⟨[], rfl, fun v hv => (by cases hv)⟩, ⟨_, rfl⟩, rfl, rfl, ?_⟩
  refine List.forall_mem_cons.mpr ⟨?_, List.forall_mem_singleton.mpr isContainer_asking⟩
  exact ⟨⟨_, rfl⟩, rfl, fun v hv => (by cases hv), fun v hv => (by cases hv)⟩

/-- The init container is missed. -/
theorem init_container_missed : IsPod initAskingPod [plainContainer] (some [askingContainer]) ∧
    Wanted initAskingPod [plainContainer] (some [askingContainer]) ∧
    ¬ AnswersWithPatch JsonValue.dataMerge (oneEntry (envEntry "CMK_PROC_FS" (.str "/host/proc")))
      initAskingReview := by
  refine ⟨isPod_initAsking, .inl ⟨askingContainer, by simp, ?_⟩, ?_⟩
  · exact ⟨"cmk.intel.com/exclusive-cores", by simp [cmkErName], "requests", by simp, rfl⟩
  · exact @mutate_not_required _ _ initAskingPod _ (.str "1") ⟨rfl, rfl, rfl⟩ rfl

end Cmk
