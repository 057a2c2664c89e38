import Cmk.ClusterInit.Again
import Cmk.Webhook.Patch
import Cmk.Webhook.Server

/-!
# Webhook/Created — the pods of a cluster with the webhook

The API server posts the review of a new pod to the path of the registration, and goes on without
the webhook where the reply is no success.  The registration is there from the end of `cluster_init`
on, whatever is uninstalled.  From then on each container of a new pod has the number of cores that
it should have exactly when the review is short and something in it but an init container asks for a
mutation, or when every container brings its number along (`created_told_iff`).
-/

open Machinery Machinery.JsonValue

namespace Cmk

/-! ## The API server -/

/-- The request for a pod. -/
def reviewPost (encode : JsonValue → List UInt8) (registration : MutatingWebhookConfiguration)
    (review : JsonValue) : PostRequest where
  path := registration.path ++ "?timeout=30s"
  contentType := some "application/json"
  contentLength := some (toString ((encode review).length : ℤ))
  body := encode review

/-- The response in a reply whose first status line is a success. -/
def reviewResponse (reply : PostReply) : Option JsonValue :=
  if reply.sent.head? = some 200 then
    (reply.body.bind loads?).bind (JsonValue.member? "response")
  else none

/-- The pod after a reply: without a response the failure policy decides. -/
def repliedPod (registration : MutatingWebhookConfiguration) (reply : PostReply)
    (pod : JsonValue) : Option JsonValue :=
  match reviewResponse reply with
  | none => if registration.failurePolicy = "Ignore" then some pod else none
  | some response =>
    match response.member? "allowed" with
    | some (.bool true) => admittedPod response pod
    | _ => none

/-- **The pod that is created**; without a registration it is the one that was sent. -/
def createdPod (server : ApiServer) (s : WebhookServer) (encode : JsonValue → List UInt8)
    (review pod : JsonValue) : Option JsonValue :=
  match server ⟨.registration, none, "cmk-webhook-config"⟩ with
  | some (.registration registration) =>
    repliedPod registration (s.reply (reviewPost encode registration review)) pod
  | _ => some pod

/-! ## The webhook -/

/-- A webhook that writes JSON, with mutations of the usual shape that leave the number of cores to
the containers. -/
structure IsWebhook (s : WebhookServer) (perPod perContainer : List (String × JsonValue)) :
    Prop where
  dumps : ∀ j, s.dumps j = .ok j.dumps
  merge : DataMerge s.merge
  mutations : MutationShape s.mutations perPod perContainer
  uniquePod : (JsonValue.obj perPod).UniqueKeys
  uniqueContainer : (JsonValue.obj perContainer).UniqueKeys
  noCores : ∀ entry ∈ envOf (.obj perContainer), named envNumCores entry = false

/-- The review as the webhook reads it. -/
structure IsPosted (s : WebhookServer) (encode : JsonValue → List UInt8) (review : JsonValue) :
    Prop where
  kind : review.member? "kind" = some (.str "AdmissionReview")
  unique : review.UniqueKeys
  read : ∃ text, s.decode (encode review) = .ok text ∧ s.loads text = .ok review

variable {s : WebhookServer} {encode : JsonValue → List UInt8}
  {perPod perContainer : List (String × JsonValue)} {registration : MutatingWebhookConfiguration}
  {review review' pod pod' uid container admitted : JsonValue} {containers : List JsonValue}
  {inits : Option (List JsonValue)}

/-- An answer has unique keys. -/
theorem uniqueKeys_answer {resp : List (String × JsonValue)} (hreview : review.UniqueKeys)
    (hresp : (JsonValue.obj resp).UniqueKeys) (h : answer review resp = .ok review') :
    review'.UniqueKeys := by
  cases review with
  | obj members =>
    obtain rfl := Except.ok.inj h
    obtain ⟨hnodup, hmembers⟩ := uniqueKeys_obj.mp hreview
    refine @UniqueKeys.setMember "response" _ _ (uniqueKeys_obj.mpr ⟨?_, ?_⟩) hresp
    · exact hnodup.sublist (List.filter_sublist.map Prod.fst)
    · exact fun m hm => hmembers m (List.mem_of_mem_filter hm)
  | _ => cases h

theorem uniqueKeys_mutate {merge : Merge} {file : Option JsonValue} (hreview : review.UniqueKeys)
    (huid : uid.UniqueKeys) (h : IsReview review pod uid)
    (hmutate : mutate merge file review = .ok review') : review'.UniqueKeys := by
  have hpair : ∀ resp : List (String × JsonValue), (resp.map Prod.fst).Nodup →
      (∀ m ∈ resp, m.2.UniqueKeys) → answer review resp = .ok review' → review'.UniqueKeys :=
    fun resp hnodup hall => uniqueKeys_answer hreview (uniqueKeys_obj.mpr ⟨hnodup, hall⟩)
  obtain ⟨-, huidOf⟩ := review_eq h
  obtain ⟨pod', -, hmutate⟩ := bind_eq_ok.mp hmutate
  obtain ⟨required, -, hmutate⟩ := bind_eq_ok.mp hmutate
  cases required with
  | true =>
    obtain ⟨pod'', -, hmutate⟩ := bind_eq_ok.mp hmutate
    obtain ⟨patch, -, hmutate⟩ := bind_eq_ok.mp hmutate
    obtain ⟨uid', huid', hmutate⟩ := bind_eq_ok.mp hmutate
    obtain rfl := Except.ok.inj (huidOf.symm.trans huid')
    refine hpair _ (by simp) ?_ hmutate
    exact List.forall_mem_cons.mpr ⟨rfl, List.forall_mem_cons.mpr ⟨huid,
      List.forall_mem_singleton.mpr rfl⟩⟩
  | false =>
    obtain ⟨uid', huid', hmutate⟩ := bind_eq_ok.mp hmutate
    obtain rfl := Except.ok.inj (huidOf.symm.trans huid')
    refine hpair _ (by simp) ?_ hmutate
    exact List.forall_mem_cons.mpr ⟨rfl, List.forall_mem_singleton.mpr huid⟩

/-! ## The reply -/

theorem postData_reviewPost {text : String} (h : s.decode (encode review) = .ok text) :
    s.postData (reviewPost encode registration review) = .ok text := by
  have hlength : (reviewPost encode registration review).declaredLength =
      .ok ((encode review).length : ℤ) := intOfStr_toString _
  have hread : (reviewPost encode registration review).read ((encode review).length : ℤ) =
      encode review := by
    rw [PostRequest.read, if_pos (Int.natCast_nonneg _), Int.toNat_natCast]
    exact List.take_length
  rw [WebhookServer.postData, hlength]
  change s.decode _ = _
  rw [hread, h]

/-- The guards only look at the length. -/
theorem guards_reviewPost : (reviewPost encode registration review).guards =
    if 10000 < (encode review).length then [500] else [] := by
  have hlength : (reviewPost encode registration review).declaredLength =
      .ok ((encode review).length : ℤ) := intOfStr_toString _
  have hright : ¬ (reviewPost encode registration review).WrongType := not_not_intro rfl
  rw [guards_of_ok hlength, if_neg hright, List.nil_append]
  exact if_congr (by omega) rfl rfl

/-- **A review that is mutated is answered**; the response is read where the review is short. -/
theorem reviewResponse_eq (hs : IsWebhook s perPod perContainer) (hr : IsPosted s encode review)
    (hpath : registration.path = "/mutate")
    (hmutate : mutate s.merge s.mutations review = .ok review') (hunique : review'.UniqueKeys) :
    reviewResponse (s.reply (reviewPost encode registration review)) =
      if (encode review).length ≤ 10000 then review'.member? "response" else none := by
  obtain ⟨text, hdecode, hloads⟩ := hr.read
  have hanswer : s.answerReview text = .ok review'.dumps := by
    simp only [WebhookServer.answerReview, hloads, itemAt_of_member? hr.kind, isText, hmutate,
      hs.dumps, bind, Except.bind, decide_true, if_true]
  have hmutatePath : (reviewPost encode registration review).IsMutate := by
    rw [PostRequest.IsMutate, reviewPost, hpath, String.toList_append]
    exact List.prefix_append _ _
  rw [reply_of_answers hmutatePath (postData_reviewPost hdecode) hanswer, guards_reviewPost,
    reviewResponse]
  by_cases hshort : (encode review).length ≤ 10000
  · rw [if_neg (not_lt.mpr hshort), if_pos hshort, List.nil_append, List.head?_cons, if_pos rfl,
      Option.bind_some, loads_dumps hunique, Option.bind_some]
  · rw [if_pos (not_le.mp hshort), if_neg hshort]
    exact if_neg (by simp)

/-! ## The containers of the pod -/

theorem asks_iff : Asks container ↔ (ownCores container).isSome := by
  simp [Asks, ownCores, amountOf, List.findSome?_isSome_iff, Option.isSome_or]

/-- A container that is left alone has what it should have if it has a number, or needs none. -/
theorem coresEntries_eq_expected_iff :
    coresEntries container = expectedEntries container ↔
      (Asks container → coresEntries container ≠ []) := by
  rw [expectedEntries, asks_iff]
  split_ifs with hnil
  · cases ownCores container <;> simp [hnil]
  · simp [hnil]

theorem HasContainers.congr (h : HasContainers pod' containers inits)
    (hmetadata : admitted.member? "metadata" = pod'.member? "metadata")
    (hspec : admitted.member? "spec" = pod'.member? "spec") :
    HasContainers admitted containers inits := by
  refine ⟨hmetadata ▸ h.metadata, hspec ▸ h.spec, ?_, ?_⟩
  · rw [get?, hspec]
    exact h.listed
  · rw [get?, hspec]
    exact h.listedInit

theorem IsWebhook.isMutations (hs : IsWebhook s perPod perContainer) :
    IsMutations s.mutations perPod perContainer := by
  refine ⟨hs.mutations.readPod, hs.mutations.readContainer,
    ⟨nodup_of_keyed hs.mutations.keyedPod, nodup_of_keyed hs.mutations.keyedContainer⟩,
    hs.mutations.spec, hs.mutations.resources, fun v hv => ?_⟩
  obtain ⟨entries, rfl, hentries⟩ := hs.mutations.env v hv
  have hno := hs.noCores
  rw [envOf, hv] at hno
  exact ⟨entries, rfl, fun entry hentry => ⟨hentries entry hentry, hno entry hentry⟩⟩

/-- A response that allows the pod decides what it is. -/
theorem repliedPod_of_response {reply : PostReply} {response : JsonValue}
    (h : reviewResponse reply = some response)
    (hallowed : response.member? "allowed" = some (.bool true)) :
    repliedPod registration reply pod = admittedPod response pod := by
  rw [repliedPod, h]
  dsimp only
  rw [hallowed]

theorem repliedPod_ignored {reply : PostReply} (h : reviewResponse reply = none)
    (hpolicy : registration.failurePolicy = "Ignore") :
    repliedPod registration reply pod = some pod := by
  rw [repliedPod, h]
  exact if_pos hpolicy

/-- **The pod of a short review** for which a mutation is required has mutated containers; any other
is the one that was sent. -/
theorem repliedPod_containers (hs : IsWebhook s perPod perContainer)
    (hr : IsPosted s encode review) (hreview : IsReview review pod uid)
    (hpod : IsPod pod containers inits) (hkindPod : SameKind pod (.obj perPod))
    (hkind : ∀ container ∈ containers ++ inits.getD [], SameKind container (.obj perContainer))
    (hpath : registration.path = "/mutate") (hpolicy : registration.failurePolicy = "Ignore") :
    ∃ created, repliedPod registration
        (s.reply (reviewPost encode registration review)) pod = some created ∧
      ((encode review).length ≤ 10000 ∧ isMutationRequired pod = .ok true ∧
          HasContainers created (containers.map (mutated s.merge s.mutations))
            (inits.map (List.map (mutated s.merge s.mutations))) ∨
        ¬ ((encode review).length ≤ 10000 ∧ isMutationRequired pod = .ok true) ∧
          created = pod) := by
  have huid : uid.UniqueKeys := hr.unique.get? hreview.uid
  have hpodUnique : pod.UniqueKeys := hr.unique.get? hreview.object
  obtain ⟨b, hrequired, -⟩ := isMutationRequired_eq hpod
  rw [hrequired]
  cases b with
  | false =>
    obtain ⟨review', hmutate, hresponse⟩ :=
      @mutate_passes s.merge s.mutations pod review uid hreview hrequired
    have hread := @reviewResponse_eq s encode perPod perContainer registration review review' hs hr
      hpath hmutate (uniqueKeys_mutate hr.unique huid hreview hmutate)
    refine ⟨pod, ?_, .inr ⟨fun h => (by cases h.2), rfl⟩⟩
    by_cases hshort : (encode review).length ≤ 10000
    · rw [if_pos hshort, hresponse] at hread
      rw [repliedPod_of_response hread rfl]
      rfl
    · rw [if_neg hshort] at hread
      exact repliedPod_ignored hread hpolicy
  | true =>
    obtain ⟨pod', patch, admitted, hrun, hpatch, hpatchUnique, happly, hpatched, -⟩ :=
      admitted_of_mutated hs.merge hs.mutations ⟨hs.uniquePod, hs.uniqueContainer⟩
        ⟨hpod.hasContainers, hkindPod, hpod.isContainer, hkind⟩ hpodUnique
    obtain ⟨review', hmutate, hresponse⟩ := mutate_patches hreview hrequired hrun hpatch
    have hread := @reviewResponse_eq s encode perPod perContainer registration review review' hs hr
      hpath hmutate (uniqueKeys_mutate hr.unique huid hreview hmutate)
    by_cases hshort : (encode review).length ≤ 10000
    · rw [if_pos hshort, hresponse] at hread
      refine ⟨admitted, ?_, .inl ⟨hshort, rfl, ?_⟩⟩
      · rw [repliedPod_of_response hread rfl]
        change (decodePatch? (encodePatch patch)).bind (fun patch => applyPatch patch pod) = _
        rw [decodePatch?_encodePatch hpatchUnique, Option.bind_some, happly]
      · obtain ⟨merged, -, -, hrun', hmutable, -⟩ := mutatePod_step hs.merge hs.mutations
          ⟨hpod.hasContainers, hkindPod, hpod.isContainer, hkind⟩
        obtain rfl := Except.ok.inj (hrun.symm.trans hrun')
        exact hmutable.hasContainers.congr hpatched.metadata hpatched.spec
    · rw [if_neg hshort] at hread
      exact ⟨pod, repliedPod_ignored hread hpolicy, .inr ⟨fun h => hshort h.1, rfl⟩⟩

/-! ## The registration -/

/-- The object of the last call is there. -/
theorem runCalls_last {refuses : ObjectKey → Bool} {calls : List ApiCall} {key : ObjectKey}
    {object : ApiObject} {server server' : ApiServer}
    (h : (runCalls refuses (calls ++ [.create key object])).run.run server = (.ok (), server')) :
    server' key = some object := by
  induction calls generalizing server with
  | nil =>
    rw [List.nil_append, runCalls, ExceptT.run_bind, StateT.run_bind] at h
    rcases (ApiCall.create key object).run_cases refuses server with ⟨later, happly, hrun⟩ | hrun
    · rw [hrun] at h
      obtain rfl : later = server' := (Prod.mk.inj h).2
      obtain ⟨-, rfl⟩ := apply_create.mp happly
      exact Function.update_self ..
    · rw [hrun] at h
      cases (Prod.mk.inj h).1
  | cons call calls ih =>
    rw [List.cons_append, runCalls, ExceptT.run_bind, StateT.run_bind] at h
    rcases call.run_cases refuses server with ⟨later, -, hrun⟩ | hrun
    · rw [hrun] at h
      exact ih h
    · rw [hrun] at h
      cases (Prod.mk.inj h).1

variable {V T C σ τ : Type} {lock : Config V T C → ConfDirM σ Unit} {dir : ConfDirApi σ τ}
  {refuses : ClusterRefuses} {version : List ℕ} {namespaceName : String} {o : DeployOptions}
  {cmds nodes : List String} {c c' c₂ : ClusterState} {answers rest : List PodList}

/-- **A run that returns** leaves the registration. -/
theorem registered_of_clusterInit (hversion : [1, 9] ≤ version)
    (h : clusterInit refuses version namespaceName o cmds nodes c answers = some (.ok c', rest)) :
    c'.server (webhookKey namespaceName 4) = some (deployedObject namespaceName o 4) := by
  rw [clusterInit] at h
  split at h
  · cases h
  · cases h
  · split at h
    · cases h
    · cases h
    · rw [if_pos hversion] at h
      split at h
      · cases h
      next server hserver =>
        obtain ⟨hc', -⟩ := Prod.mk.inj (Option.some.inj h)
        obtain rfl := Except.ok.inj hc'
        rw [deployWebhook_eq] at hserver
        have hcalls : deployCalls namespaceName o = ((List.range 4).map fun m =>
            .create (webhookKey namespaceName m) (deployedObject namespaceName o m)) ++
              [.create (webhookKey namespaceName 4) (deployedObject namespaceName o 4)] := rfl
        rw [hcalls] at hserver
        exact runCalls_last hserver

/-! ## The pods that are created -/

/-- **Each container has the number of cores that it should have**, the one it came with or its
own quantity. -/
def HasCores (containers created : List JsonValue) : Prop :=
  List.Forall₂ (fun container container' => coresEntries container' = expectedEntries container)
    containers created

/-- Mutated containers are told. -/
theorem hasCores_mutated (hs : IsWebhook s perPod perContainer)
    (hpod : ∀ container ∈ containers, IsContainer container)
    (hkind : ∀ container ∈ containers, SameKind container (.obj perContainer)) :
    HasCores containers (containers.map (mutated s.merge s.mutations)) := by
  rw [HasCores, List.forall₂_map_right_iff]
  refine List.forall₂_same.mpr fun container hmem => ?_
  obtain ⟨merged, hmerged, -⟩ :=
    merge_of_sameKind hs.merge hs.mutations.keyedContainer (hkind container hmem)
  exact (mutateContainer_eq hs.merge hs.isMutations (hpod container hmem)
    (by rw [hmerged]; exact Option.some_ne_none _)).2

/-- Containers that are left alone are told if they bring their numbers along. -/
theorem hasCores_self_iff : HasCores containers containers ↔
    ∀ container ∈ containers, Asks container → coresEntries container ≠ [] := by
  rw [HasCores, List.forall₂_same]
  exact forall₂_congr fun _ _ => coresEntries_eq_expected_iff

/-- **The pods of a cluster with the webhook.**  On a cluster from 1.9 on, after a run of
`cluster_init` that has returned and whatever runs of `uninstall` on its nodes: every pod is
created, and each of its containers has the number of cores that it should have exactly when the
review has at most 10000 bytes and a container other than an init container asks for cores or the
annotation is there, or else when every container that asks has brought its number along. -/
theorem created_told_iff (hversion : [1, 9] ≤ version)
    (h : clusterInit refuses version namespaceName o cmds nodes c answers = some (.ok c', rest))
    (hrun : Relation.ReflTransGen (UninstallOn lock dir version namespaceName nodes) c' c₂)
    (hs : IsWebhook s perPod perContainer) (hr : IsPosted s encode review)
    (hreview : IsReview review pod uid) (hpod : IsPod pod containers inits)
    (hkindPod : SameKind pod (.obj perPod))
    (hkind : ∀ container ∈ containers ++ inits.getD [], SameKind container (.obj perContainer)) :
    ∃ created containers' inits', createdPod c₂.server s encode review pod = some created ∧
      HasContainers created containers' inits' ∧
      (HasCores (containers ++ inits.getD []) (containers' ++ inits'.getD []) ↔
        (encode review).length ≤ 10000 ∧
            ((∃ container ∈ containers, Asks container) ∨ Annotated pod) ∨
          ∀ container ∈ containers ++ inits.getD [], Asks container →
            coresEntries container ≠ []) := by
  obtain ⟨registration, hregistered, hpath, hpolicy⟩ : ∃ registration,
      c₂.server ⟨.registration, none, "cmk-webhook-config"⟩ = some (.registration registration) ∧
        registration.path = "/mutate" ∧ registration.failurePolicy = "Ignore" :=
    ⟨_, (congrFun (UninstallOn.leaves hrun).1 _).trans (registered_of_clusterInit hversion h), rfl,
      rfl⟩
  have hcreated : createdPod c₂.server s encode review pod =
      repliedPod registration (s.reply (reviewPost encode registration review)) pod := by
    rw [createdPod, hregistered]
  obtain ⟨b, hrequired, hb⟩ := isMutationRequired_eq hpod
  obtain ⟨created, hreplied, hcases⟩ :=
    repliedPod_containers hs hr hreview hpod hkindPod hkind hpath hpolicy
  rw [hrequired, Except.ok.injEq, hb] at hcases
  rcases hcases with ⟨hshort, hwanted, hcontainers⟩ | ⟨hno, rfl⟩
  · refine ⟨created, _, _, hcreated.trans hreplied, hcontainers,
      iff_of_true ?_ (.inl ⟨hshort, hwanted⟩)⟩
    rw [append_getD_map]
    exact hasCores_mutated hs hpod.isContainer hkind
  · refine ⟨created, containers, inits, hcreated.trans hreplied, hpod.hasContainers, ?_⟩
    rw [hasCores_self_iff]
    exact (or_iff_right hno).symm

/-- The cluster after a first run, for one node. -/
def installedWithWebhook : ClusterState where
  workloads := allCreated [1, 9, 0] ["reconcile"] ["node1"]
  server := ((deployWebhook (fun _ => false) "default" someOptions).run.run fun _ => none).2

def defaultServer : WebhookServer :=
  { asciiServer with mutations := some getDefaultWebhookMutationsConfig }

/-- Text as bytes. -/
def asciiBytes (j : JsonValue) : List UInt8 := j.text.map fun c => UInt8.ofNat c.toNat

/-- A review of the pod as it is posted. -/
def postedReview : JsonValue :=
  .obj [("kind", .str "AdmissionReview"), ("request", .obj [("kind", .obj [("kind", .str "Pod")]),
    ("uid", .str "1"), ("object", askingPod)])]

theorem isWebhook_default : IsWebhook defaultServer defaultPerPod defaultPerContainer where
  dumps _ := rfl
  merge := dataMerge_spec
  mutations := mutationShape_default
  uniquePod := by decide
  uniqueContainer := by decide
  noCores := List.forall_mem_singleton.mpr rfl

theorem isPosted_asking : IsPosted defaultServer asciiBytes postedReview where
  kind := rfl
  unique := by decide
  read := by
    have hdecode : defaultServer.decode (asciiBytes postedReview) = .ok postedReview.dumps := by
      decide +kernel
    have hloads : ∀ text, defaultServer.loads text =
        (loads? text).elim (.error (.valueError none)) .ok := fun _ => rfl
    exact ⟨_, hdecode, by rw [hloads, loads_dumps (by decide), Option.elim_some]⟩

/-- After a first run for one node. -/
theorem created_told_asking : ∃ created containers' inits',
    createdPod installedWithWebhook.server defaultServer asciiBytes postedReview askingPod =
      some created ∧ HasContainers created containers' inits' ∧
        HasCores [askingContainer] (containers' ++ inits'.getD []) := by
  have hfirst : clusterInit ⟨fun _ => false, fun _ => false⟩ [1, 9, 0] "default" someOptions
      ["reconcile"] ["node1"] ⟨[], fun _ => none⟩
        [readyList "cmk-reconcile-ds-" "Running" "node1"] =
      some (.ok installedWithWebhook, []) := rfl
  have hshort : (asciiBytes postedReview).length ≤ 10000 := by decide +kernel
  have hasks : Asks askingContainer :=
    ⟨"cmk.intel.com/exclusive-cores", by simp [cmkErName], "requests", by simp, rfl⟩
  obtain ⟨created, containers', inits', hcreated, hcontainers, hiff⟩ :=
    created_told_iff (by decide) hfirst
      (.refl : Relation.ReflTransGen (UninstallOn (fun _ : Config Unit Unit Unit => pure ())
        emptyDir [1, 9, 0] "default" ["node1"]) _ _)
      isWebhook_default isPosted_asking ⟨rfl, rfl, rfl⟩ isPod_asking sameKind_asking.1
      (List.forall_mem_singleton.mpr sameKind_asking.2)
  exact ⟨created, containers', inits', hcreated, hcontainers,
    hiff.mpr (.inl ⟨hshort, .inl ⟨askingContainer, List.mem_singleton.mpr rfl, hasks⟩⟩)⟩

end Cmk
