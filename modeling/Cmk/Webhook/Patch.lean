import Cmk.Machinery.Patch
import Cmk.Webhook.Idempotent

/-!
# Webhook/Patch — the pod that comes out of the response

The webhook changes its own copy of the pod and answers with a patch, in base64, that replaces the
metadata and the spec.  The API server decodes it and applies it to the pod that it sent.  It ends
up with the pod as the webhook has mutated it exactly when the mutations change nothing of a pod but
those two (`admitted_pod_iff`).
-/

open Machinery Machinery.JsonValue

namespace Cmk

/-! ## Base64 -/

/-- The number that a digit stands for. -/
def base64Value? (c : Char) : Option ℕ := (List.range 64).find? fun n => base64Digit n = c

/-- Four digits at a time; only the last of them can be filled up, and what is cut off is zero. -/
def b64decode : List Char → Option (List ℕ)
  | [] => some []
  | a :: b :: c :: d :: cs =>
    (base64Value? a).bind fun x => (base64Value? b).bind fun y =>
      if c = '=' then
        if d = '=' ∧ cs = [] ∧ y % 16 = 0 then some [x * 4 + y / 16] else none
      else (base64Value? c).bind fun z =>
        if d = '=' then
          if cs = [] ∧ z % 4 = 0 then some [x * 4 + y / 16, y % 16 * 16 + z / 4] else none
        else (base64Value? d).bind fun w => (b64decode cs).map fun bytes =>
          (x * 4 + y / 16) :: (y % 16 * 16 + z / 4) :: (z % 4 * 64 + w) :: bytes
  | _ => none

theorem base64Value?_digit {n : ℕ} (h : n < 64) :
    base64Value? (base64Digit n) = some n ∧ base64Digit n ≠ '=' := by
  have hall : ∀ n < 64, base64Value? (base64Digit n) = some n ∧ base64Digit n ≠ '=' := by
    decide +kernel
  exact hall n h

/-- **Decoding undoes encoding**, of bytes. -/
theorem b64decode_b64encode {bytes : List ℕ} (h : ∀ byte ∈ bytes, byte < 256) :
    b64decode (b64encode bytes) = some bytes := by
  induction bytes using b64encode.induct with
  | case1 => rfl
  | case2 a =>
    have ha := h a (by simp)
    obtain ⟨hx, -⟩ := @base64Value?_digit (a / 4) (by omega)
    obtain ⟨hy, -⟩ := @base64Value?_digit (a % 4 * 16) (by omega)
    rw [b64encode, b64decode, hx, hy, Option.bind_some, Option.bind_some, if_pos rfl,
      if_pos ⟨rfl, rfl, by omega⟩, Option.some.injEq, List.cons.injEq]
    exact ⟨by omega, rfl⟩
  | case3 a b =>
    have ha := h a (by simp)
    have hb := h b (by simp)
    obtain ⟨hx, -⟩ := @base64Value?_digit (a / 4) (by omega)
    obtain ⟨hy, -⟩ := @base64Value?_digit (a % 4 * 16 + b / 16) (by omega)
    obtain ⟨hz, hne⟩ := @base64Value?_digit (b % 16 * 4) (by omega)
    rw [b64encode, b64decode, hx, hy, hz, Option.bind_some, Option.bind_some, if_neg hne,
      Option.bind_some, if_pos rfl, if_pos ⟨rfl, by omega⟩, Option.some.injEq, List.cons.injEq,
      List.cons.injEq]
    exact ⟨by omega, by omega, rfl⟩
  | case4 a b c bytes ih =>
    have ha := h a (by simp)
    have hb := h b (by simp)
    have hc := h c (by simp)
    obtain ⟨hx, -⟩ := @base64Value?_digit (a / 4) (by omega)
    obtain ⟨hy, -⟩ := @base64Value?_digit (a % 4 * 16 + b / 16) (by omega)
    obtain ⟨hz, hne⟩ := @base64Value?_digit (b % 16 * 4 + c / 64) (by omega)
    obtain ⟨hw, hne'⟩ := @base64Value?_digit (c % 64) (by omega)
    have hrest := ih fun byte hbyte => h byte (by simp [hbyte])
    rw [b64encode, b64decode, hx, hy, hz, hw, hrest, Option.bind_some, Option.bind_some, if_neg hne,
      Option.bind_some, if_neg hne', Option.bind_some, Option.map_some, Option.some.injEq,
      List.cons.injEq, List.cons.injEq, List.cons.injEq]
    exact ⟨by omega, by omega, by omega, rfl⟩

/-! ## The API server -/

/-- Bytes as text, where they are ASCII. -/
def asciiText? (bytes : List ℕ) : Option String :=
  if ∀ byte ∈ bytes, byte < 128 then some (String.ofList (bytes.map Char.ofNat)) else none

/-- The patch that a text in base64 stands for. -/
def decodePatch? (text : String) : Option JsonValue :=
  ((b64decode text.toList).bind asciiText?).bind loads?

/-- **The pod that the server goes on with**, of the pod it sent and the response it got. -/
def admittedPod (response pod : JsonValue) : Option JsonValue :=
  match response.member? "patch" with
  | none => some pod
  | some (.str text) => (decodePatch? text).bind fun patch => applyPatch patch pod
  | some _ => none

/-- **What is encoded is decoded.** -/
theorem decodePatch?_encodePatch {patch : JsonValue} (h : patch.UniqueKeys) :
    decodePatch? (encodePatch patch) = some patch := by
  have hascii : ∀ byte ∈ patch.text.map Char.toNat, byte < 128 :=
    List.forall_mem_map.mpr (isAscii_text patch)
  have hback : (patch.text.map Char.toNat).map Char.ofNat = patch.text := by
    rw [List.map_map]
    exact (List.map_congr_left fun c _ => Char.ofNat_toNat c).trans (List.map_id _)
  rw [decodePatch?, encodePatch, String.toList_ofList,
    b64decode_b64encode fun byte hbyte => (hascii byte hbyte).trans (by decide), Option.bind_some,
    asciiText?, if_pos hascii, Option.bind_some, hback]
  exact loads_dumps h

/-! ## Unique keys -/

variable {merge : Merge} {file : Option JsonValue} {perPod perContainer : List (String × JsonValue)}
  {pod container : JsonValue} {containers : List JsonValue} {inits : Option (List JsonValue)}

theorem uniqueKeys_told (hc : IsContainer container) (h : container.UniqueKeys) :
    (told container).UniqueKeys := by
  rw [told]
  cases hcores : ownCores container with
  | none => exact h
  | some q =>
    rw [Option.elim_some]
    split_ifs
    · exact h
    · obtain ⟨er, -, hamount⟩ := List.exists_of_findSome?_eq_some hcores
      have hq : q.UniqueKeys := by
        rcases Option.or_eq_some_iff.mp hamount with hreq | ⟨-, hlim⟩
        · exact h.get? hreq
        · exact h.get? hlim
      have hentry : (envEntry envNumCores q).UniqueKeys := by
        refine uniqueKeys_obj.mpr ⟨by simp, List.forall_mem_cons.mpr ⟨rfl, ?_⟩⟩
        exact List.forall_mem_singleton.mpr hq
      have henv : ∀ entry ∈ envOf container, entry.UniqueKeys := by
        rw [envOf]
        split
        · rename_i entries hentries
          exact uniqueKeys_arr.mp (h.member? hentries)
        · simp
      obtain ⟨members, rfl⟩ := hc.dict
      refine h.setMember (uniqueKeys_arr.mpr (List.forall_mem_append.mpr ⟨henv, ?_⟩))
      exact List.forall_mem_singleton.mpr hentry

/-- A container is mutated to one with unique keys. -/
theorem uniqueKeys_mutated (hmerge : DataMerge merge) (hs : MutationShape file perPod perContainer)
    (hc : IsContainer container) (hkind : SameKind container (.obj perContainer))
    (h : container.UniqueKeys) (hunique : (JsonValue.obj perContainer).UniqueKeys) :
    (mutated merge file container).UniqueKeys := by
  obtain ⟨merged, hmerged, hshape, -, hrun⟩ := mutated_eq hmerge hs hc hkind
  rw [mutated, hrun]
  exact uniqueKeys_told hshape (uniqueKeys_merge hmerge hs.keyedContainer hkind h hunique hmerged)

/-- **A pod is rebuilt in its spec only.** -/
theorem exists_rebuilt_eq {members spec : List (String × JsonValue)}
    (hspec : (JsonValue.obj members).member? "spec" = some (.obj spec))
    (hunique : (JsonValue.obj spec).UniqueKeys)
    (hcontainers : ∀ container ∈ containers ++ inits.getD [], container.UniqueKeys) :
    ∃ spec', (JsonValue.obj spec').UniqueKeys ∧ rebuilt (.obj members) containers inits =
      .obj (setMember "spec" (.obj spec') members) := by
  obtain ⟨hfirst, hrest⟩ := List.forall_mem_append.mp hcontainers
  have hspec₁ := @UniqueKeys.setMember "containers" _ _ hunique (uniqueKeys_arr.mpr hfirst)
  rw [rebuilt, withContainers_eq hspec]
  cases inits with
  | none => exact ⟨_, hspec₁, rfl⟩
  | some initContainers =>
    refine ⟨_, @UniqueKeys.setMember "initContainers" _ _ hspec₁ (uniqueKeys_arr.mpr hrest), ?_⟩
    rw [Option.elim_some, withContainers_eq (member?_setMember_self _ _ _), setMember_setMember]
    rfl

/-! ## The pod of the server -/

/-- The mutations change nothing of the pod but its metadata and its spec. -/
def OnlyPatched (merge : Merge) (perPod : List (String × JsonValue)) (pod : JsonValue) : Prop :=
  ∀ m ∈ perPod, m.1 ∉ ["metadata", "spec"] →
    ∃ old, pod.member? m.1 = some old ∧ merge old m.2 = some old

/-- The patch of a response replaces two members. -/
theorem applyPatch_replacements {a : List (String × JsonValue)} (metadata spec : JsonValue)
    (hmetadata : ((JsonValue.obj a).member? "metadata").isSome)
    (hspec : ((JsonValue.obj a).member? "spec").isSome) :
    applyPatch (.arr [replacement "/metadata" metadata, replacement "/spec" spec]) (.obj a) =
      some (.obj (setMember "spec" spec (setMember "metadata" metadata a))) := by
  have hops : [replacement "/metadata" metadata, replacement "/spec" spec].mapM patchOp? =
      some [.replace ["metadata"] metadata, .replace ["spec"] spec] := rfl
  have hspec' : ((JsonValue.obj (setMember "metadata" metadata a)).member? "spec").isSome := by
    rwa [member?_setMember_of_ne (by decide)]
  rw [applyPatch, hops, Option.bind_some, List.foldlM_cons, PatchOp.apply,
    replace_singleton metadata hmetadata]
  change List.foldlM PatchOp.apply _ [.replace ["spec"] spec] = _
  rw [List.foldlM_cons, PatchOp.apply, replace_singleton spec hspec']
  rfl

/-- **What the patch misses** is what the mutations change elsewhere. -/
theorem patched_eq_iff {a b c : List (String × JsonValue)} {metadata : JsonValue}
    (hnodup : (a.map Prod.fst).Nodup) (hnodupPer : (b.map Prod.fst).Nodup)
    (hthere : ((JsonValue.obj a).member? "metadata").isSome)
    (hspec : ((JsonValue.obj a).member? "spec").isSome)
    (hmerged : mergeMembers merge a b = some c)
    (hmetadata : (JsonValue.obj c).member? "metadata" = some metadata) (spec : JsonValue) :
    setMember "spec" spec (setMember "metadata" metadata a) = setMember "spec" spec c ↔
      OnlyPatched merge b (.obj a) := by
  constructor
  · intro heq m hm hother
    simp only [List.mem_cons, List.not_mem_nil, or_false, not_or] at hother
    have hmember := congrArg (fun ms => (JsonValue.obj ms).member? m.1) heq
    rw [member?_setMember_of_ne (Ne.symm hother.2), member?_setMember_of_ne (Ne.symm hother.1),
      member?_setMember_of_ne (Ne.symm hother.2),
      member?_mergeMembers hmerged hnodupPer (member?_of_mem hnodupPer hm)] at hmember
    cases hold : (JsonValue.obj a).member? m.1 with
    | none =>
      rw [hold] at hmember
      cases hmember
    | some old =>
      rw [hold] at hmember
      exact ⟨old, rfl, hmember.symm⟩
  · intro honly
    have hin : ∀ m ∈ b, m.1 ∈ a.map Prod.fst := by
      intro m hm
      by_cases hpatched : m.1 ∈ ["metadata", "spec"]
      · simp only [List.mem_cons, List.not_mem_nil, or_false] at hpatched
        rcases hpatched with hkey | hkey
        · exact hkey ▸ (isSome_member? _ a).mp hthere
        · exact hkey ▸ (isSome_member? _ a).mp hspec
      · obtain ⟨old, hold, -⟩ := honly m hm hpatched
        exact (isSome_member? _ a).mp (by rw [hold]; rfl)
    have hkeys := map_fst_mergeMembers hmerged hin
    have hspecKey := (isSome_member? _ a).mp hspec
    have hsetMetadata : (setMember "metadata" metadata a).map Prod.fst = a.map Prod.fst := by
      rw [map_fst_setMember, if_pos ((isSome_member? _ a).mp hthere)]
    have hleft : (setMember "spec" spec (setMember "metadata" metadata a)).map Prod.fst =
        a.map Prod.fst := by
      rw [map_fst_setMember, hsetMetadata, if_pos hspecKey]
    have hright : (setMember "spec" spec c).map Prod.fst = a.map Prod.fst := by
      rw [map_fst_setMember, hkeys, if_pos hspecKey]
    refine ext_members (hleft.trans hright.symm) (hleft ▸ hnodup) fun key => ?_
    by_cases hkeySpec : key = "spec"
    · rw [hkeySpec, member?_setMember_self, member?_setMember_self]
    rw [member?_setMember_of_ne (Ne.symm hkeySpec), member?_setMember_of_ne (Ne.symm hkeySpec)]
    by_cases hkeyMetadata : key = "metadata"
    · rw [hkeyMetadata, member?_setMember_self, hmetadata]
    rw [member?_setMember_of_ne (Ne.symm hkeyMetadata)]
    -- A member off the patch stays in the merge.
    cases hextra : (JsonValue.obj b).member? key with
    | none =>
      exact (member?_mergeMembers_of_notMem hmerged (notMem_of_member?_none hextra)).symm
    | some v =>
      obtain ⟨m, hm, rfl, rfl⟩ := exists_of_member? hextra
      obtain ⟨old, hold, hsame⟩ := honly m hm (by simp [hkeySpec, hkeyMetadata])
      rw [member?_mergeMembers hmerged hnodupPer hextra, hold, Option.elim_some, hsame]

/-- The response to a review of a pod for which a mutation is required. -/
theorem mutate_patches {review uid patch pod' : JsonValue} (h : IsReview review pod uid)
    (hrequired : isMutationRequired pod = .ok true) (hpod' : mutatePod merge file pod = .ok pod')
    (hpatch : generatePatch pod' = .ok patch) : ∃ review', mutate merge file review = .ok review' ∧
      review'.member? "response" = some (.obj [("allowed", .bool true), ("uid", uid),
        ("patch", .str (encodePatch patch))]) := by
  obtain ⟨hreview, huid⟩ := review_eq h
  obtain ⟨review', hanswer, hresponse⟩ := answer_eq h
    [("allowed", .bool true), ("uid", uid), ("patch", .str (encodePatch patch))]
  refine ⟨review', ?_, hresponse⟩
  simp only [mutate, hreview, exceptKeyError, hrequired, hpod', hpatch, huid, bind, Except.bind,
    if_true, hanswer]

/-- The response to a review of any other pod. -/
theorem mutate_passes {review uid : JsonValue} (h : IsReview review pod uid)
    (hrequired : isMutationRequired pod = .ok false) :
    ∃ review', mutate merge file review = .ok review' ∧
      review'.member? "response" = some (.obj [("allowed", .bool true), ("uid", uid)]) := by
  obtain ⟨hreview, huid⟩ := review_eq h
  obtain ⟨review', hanswer, hresponse⟩ := answer_eq h [("allowed", .bool true), ("uid", uid)]
  refine ⟨review', ?_, hresponse⟩
  simp only [mutate, hreview, exceptKeyError, hrequired, huid, bind, Except.bind,
    Bool.false_eq_true, if_false, hanswer]

/-- The pod with the metadata and the spec of another. -/
structure Patched (pod pod' admitted : JsonValue) : Prop where
  metadata : admitted.member? "metadata" = pod'.member? "metadata"
  spec : admitted.member? "spec" = pod'.member? "spec"
  others : ∀ key, key ∉ ["metadata", "spec"] → admitted.member? key = pod.member? key

/-- **A mutated pod through its patch.** -/
theorem admitted_of_mutated (hmerge : DataMerge merge) (hs : MutationShape file perPod perContainer)
    (hunique : (JsonValue.obj perPod).UniqueKeys ∧ (JsonValue.obj perContainer).UniqueKeys)
    (hpod : Mutable perPod perContainer pod containers inits) (hpodUnique : pod.UniqueKeys) :
    ∃ pod' patch admitted, mutatePod merge file pod = .ok pod' ∧ generatePatch pod' = .ok patch ∧
      patch.UniqueKeys ∧ applyPatch patch pod = some admitted ∧ Patched pod pod' admitted ∧
      (admitted = pod' ↔ OnlyPatched merge perPod pod) := by
  obtain ⟨merged, hmerged, hmergedPod, hrun, hpod', -⟩ := mutatePod_step hmerge hs hpod
  have hmergedUnique :=
    uniqueKeys_merge hmerge hs.keyedPod hpod.sameKindPod hpodUnique hunique.1 hmerged
  have hcontainers : ∀ container ∈ containers.map (mutated merge file) ++
      (inits.map (List.map (mutated merge file))).getD [], container.UniqueKeys := by
    have hlisted : ∀ container ∈ containers ++ inits.getD [], container.UniqueKeys := by
      refine List.forall_mem_append.mpr
        ⟨uniqueKeys_arr.mp (hpodUnique.get? hpod.hasContainers.listed), ?_⟩
      have hinits := hpod.hasContainers.listedInit
      cases inits with
      | none => simp
      | some initContainers => exact uniqueKeys_arr.mp (hpodUnique.get? hinits)
    rw [append_getD_map, List.forall_mem_map]
    exact fun container hmem => uniqueKeys_mutated hmerge hs (hpod.isContainer container hmem)
      (hpod.sameKind container hmem) (hlisted container hmem) hunique.2
  obtain ⟨spec, hspec⟩ := hmergedPod.spec
  obtain ⟨metadata, hmetadata⟩ := Option.isSome_iff_exists.mp hmergedPod.metadata
  obtain ⟨oldSpec, holdSpec⟩ := hpod.hasContainers.spec
  have hthere := hpod.hasContainers.metadata
  cases pod with
  | obj a =>
    rw [hmerge.obj] at hmerged
    obtain ⟨c, hc, rfl⟩ := Option.map_eq_some_iff.mp hmerged
    obtain ⟨spec', hspecUnique, hrebuilt⟩ :=
      exists_rebuilt_eq hspec (hmergedUnique.member? hspec) hcontainers
    rw [hrebuilt] at hrun
    have hnewMetadata : (JsonValue.obj (setMember "spec" (.obj spec') c)).member? "metadata" =
        some metadata := by
      rw [member?_setMember_of_ne (by decide), hmetadata]
    have hnewSpec := member?_setMember_self "spec" (.obj spec') c
    have hpatch : generatePatch (.obj (setMember "spec" (.obj spec') c)) =
        .ok (.arr [replacement "/metadata" metadata, replacement "/spec" (.obj spec')]) := by
      rw [generatePatch, itemAt_of_member? hnewMetadata, itemAt_of_member? hnewSpec]
      rfl
    have hpatchUnique : ∀ path value, value.UniqueKeys → (replacement path value).UniqueKeys := by
      intro path value hvalue
      refine uniqueKeys_obj.mpr ⟨by simp, ?_⟩
      exact List.forall_mem_cons.mpr ⟨rfl, List.forall_mem_cons.mpr
        ⟨rfl, List.forall_mem_singleton.mpr hvalue⟩⟩
    have happly := applyPatch_replacements metadata (.obj spec') hthere
      (by rw [holdSpec]; rfl : ((JsonValue.obj a).member? "spec").isSome)
    refine ⟨_, _, _, hrun, hpatch, uniqueKeys_arr.mpr ?_, happly, ⟨?_, ?_, ?_⟩, ?_⟩
    · exact List.forall_mem_cons.mpr ⟨hpatchUnique _ _ (hmergedUnique.member? hmetadata),
        List.forall_mem_singleton.mpr (hpatchUnique _ _ hspecUnique)⟩
    · rw [hnewMetadata, member?_setMember_of_ne (by decide), member?_setMember_self]
    · rw [member?_setMember_self, member?_setMember_self]
    · intro key hkey
      simp only [List.mem_cons, List.not_mem_nil, or_false, not_or] at hkey
      rw [member?_setMember_of_ne (Ne.symm hkey.2), member?_setMember_of_ne (Ne.symm hkey.1)]
    · rw [JsonValue.obj.injEq]
      exact patched_eq_iff (uniqueKeys_obj.mp hpodUnique).1 (nodup_of_keyed hs.keyedPod) hthere
        (by rw [holdSpec]; rfl) hc hmetadata _
  | _ => cases holdSpec

/-- **The pod that is admitted.**  The webhook answers every review of a pod and allows it.  Where
no mutation is required the server goes on with the pod that it sent; where one is, with that pod
with the metadata and the spec of the mutated one, which is the mutated one exactly when the
mutations change nothing of the pod but those two. -/
theorem admitted_pod_iff (merge : Merge) (hmerge : DataMerge merge) (file : Option JsonValue)
    (perPod perContainer : List (String × JsonValue))
    (hs : MutationShape file perPod perContainer)
    (hunique : (JsonValue.obj perPod).UniqueKeys ∧ (JsonValue.obj perContainer).UniqueKeys)
    (review pod uid : JsonValue) (containers : List JsonValue) (inits : Option (List JsonValue))
    (hreview : IsReview review pod uid) (hpod : IsPod pod containers inits)
    (hpodUnique : pod.UniqueKeys) (hkindPod : SameKind pod (.obj perPod))
    (hkind : ∀ container ∈ containers ++ inits.getD [], SameKind container (.obj perContainer)) :
    ∃ review' response pod' admitted, mutate merge file review = .ok review' ∧
      review'.member? "response" = some response ∧ response.member? "uid" = some uid ∧
      response.member? "allowed" = some (.bool true) ∧ mutatePod merge file pod = .ok pod' ∧
      admittedPod response pod = some admitted ∧
      (isMutationRequired pod = .ok false ∧ admitted = pod ∨
        isMutationRequired pod = .ok true ∧ Patched pod pod' admitted ∧
          (admitted = pod' ↔ OnlyPatched merge perPod pod)) := by
  obtain ⟨pod', patch, admitted, hrun, hpatch, hpatchUnique, happly, hpatched, hiff⟩ :=
    admitted_of_mutated hmerge hs hunique ⟨hpod.hasContainers, hkindPod, hpod.isContainer, hkind⟩
      hpodUnique
  obtain ⟨b, hrequired, -⟩ := isMutationRequired_eq hpod
  cases b with
  | false =>
    obtain ⟨review', hmutate, hresponse⟩ :=
      @mutate_passes merge file pod review uid hreview hrequired
    exact ⟨review', _, pod', pod, hmutate, hresponse, rfl, rfl, hrun, rfl, .inl ⟨hrequired, rfl⟩⟩
  | true =>
    obtain ⟨review', hmutate, hresponse⟩ := mutate_patches hreview hrequired hrun hpatch
    refine ⟨review', _, pod', admitted, hmutate, hresponse, rfl, rfl, hrun, ?_,
      .inr ⟨hrequired, hpatched, hiff⟩⟩
    change (decodePatch? (encodePatch patch)).bind (fun patch => applyPatch patch pod) = _
    rw [decodePatch?_encodePatch hpatchUnique, Option.bind_some, happly]

/-- The default mutations fit a pod and a container that ask for cores. -/
theorem sameKind_asking : SameKind askingPod (.obj defaultPerPod) ∧
    SameKind askingContainer (.obj defaultPerContainer) := by
  refine ⟨.obj (List.forall_mem_cons.mpr ⟨?_, List.forall_mem_singleton.mpr ?_⟩),
    sameKind_of_none (List.forall_mem_cons.mpr ⟨rfl, List.forall_mem_singleton.mpr rfl⟩)⟩
  · rintro _ ⟨⟩
    exact sameKind_of_none (List.forall_mem_singleton.mpr rfl)
  · rintro _ ⟨⟩
    exact sameKind_of_none (List.forall_mem_cons.mpr ⟨rfl,
      List.forall_mem_cons.mpr ⟨rfl, List.forall_mem_singleton.mpr rfl⟩⟩)

/-- With the default mutations the server goes on with the mutated pod. -/
theorem admitted_pod_default : ∃ review' response pod',
    mutate dataMerge (some getDefaultWebhookMutationsConfig) askingReview = .ok review' ∧
      review'.member? "response" = some response ∧
      mutatePod dataMerge (some getDefaultWebhookMutationsConfig) askingPod = .ok pod' ∧
      admittedPod response askingPod = some pod' := by
  have honly : OnlyPatched dataMerge defaultPerPod askingPod := by
    simp [OnlyPatched, defaultPerPod]
  obtain ⟨review', response, pod', admitted, hmutate, hresponse, -, -, hrun, hadmitted, hcases⟩ :=
    admitted_pod_iff dataMerge dataMerge_spec _ _ _ mutationShape_default ⟨by decide, by decide⟩
      askingReview askingPod (.str "1") _ none ⟨rfl, rfl, rfl⟩ isPod_asking (by decide)
      sameKind_asking.1 (List.forall_mem_singleton.mpr sameKind_asking.2)
  rcases hcases with ⟨hrequired, -⟩ | ⟨-, -, hiff⟩
  · cases hrequired
  · exact ⟨review', response, pod', hmutate, hresponse, hrun, hiff.mpr honly ▸ hadmitted⟩

end Cmk
