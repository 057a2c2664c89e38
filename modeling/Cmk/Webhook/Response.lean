import Cmk.Webhook.Outcome

/-!
# Webhook/Response — the requests that get one response

The handler stumbles over a request without a length, over a body that is no text, over JSON that
is not what it looks for, and over a pod that cannot be mutated; such a request gets the lines of
the guards alone.  Any other gets a line of its own behind them (`post_answered_iff`).
-/

open Machinery Machinery.JsonValue

namespace Cmk

variable {s : WebhookServer} {req : PostRequest} {text : String} {review : JsonValue}

/-- **The handler stumbles over a body**: reading it raises something other than a `ValueError`, it
is no dictionary with a kind, or it is a review whose request is not made of dictionaries, or of a
pod over which the webhook stumbles. -/
def WebhookServer.StumblesOver (s : WebhookServer) (text : String) : Prop :=
  Uncaught (s.loads text) ∨ ∃ review, s.loads text = .ok review ∧
    (review.member? "kind" = none ∨
      review.member? "kind" = some (.str "AdmissionReview") ∧
        (¬ Lookable review "request" "kind" ∨
          ∃ pod, IsPodOf review pod ∧ PodStumbles s.merge s.mutations review pod))

/-- **It refuses a body** that is no JSON, of another kind, for no pod, or for one that the
mutations do not merge into. -/
def WebhookServer.RefusesBody (s : WebhookServer) (text : String) : Prop :=
  Caught (s.loads text) ∨ ∃ review, s.loads text = .ok review ∧
    ((∃ kind, review.member? "kind" = some kind ∧ kind ≠ .str "AdmissionReview") ∨
      review.member? "kind" = some (.str "AdmissionReview") ∧
        Lookable review "request" "kind" ∧
          ∀ pod, IsPodOf review pod → PodRefused s.merge s.mutations pod)

/-- **The handler stumbles over a request**: it has no length, what is read is no text, or the
handler stumbles over that. -/
def WebhookServer.StumblesAt (s : WebhookServer) (req : PostRequest) : Prop :=
  (∀ n, req.declaredLength ≠ .ok n) ∨ ∃ n, req.declaredLength = .ok n ∧
    ((∀ text, s.decode (req.read n) ≠ .ok text) ∨
      ∃ text, s.decode (req.read n) = .ok text ∧ s.StumblesOver text)

/-- It can read the request, and refuses it. -/
def WebhookServer.RefusesAt (s : WebhookServer) (req : PostRequest) : Prop :=
  ∃ n text, req.declaredLength = .ok n ∧ s.decode (req.read n) = .ok text ∧ s.RefusesBody text

theorem IsPodOf.unique {pod pod' : JsonValue} (h : IsPodOf review pod) (h' : IsPodOf review pod') :
    pod = pod' := Option.some.inj (h.2.symm.trans h'.2)

/-- **How the mutation of any review ends.** -/
theorem mutate_ends (merge : Merge) (file : Option JsonValue) (review : JsonValue) :
    (Caught (mutate merge file review) ↔ Lookable review "request" "kind" ∧
      ∀ pod, IsPodOf review pod → PodRefused merge file pod) ∧
    (Uncaught (mutate merge file review) ↔ ¬ Lookable review "request" "kind" ∨
      ∃ pod, IsPodOf review pod ∧ PodStumbles merge file review pod) := by
  rcases podOf_cases review with ⟨hlook, hpod⟩ | ⟨hlook, ⟨pod, hof, hpod⟩ | ⟨hnone, hpod⟩⟩
  · have hrun : mutate merge file review = .error .typeError := by
      rw [mutate, hpod]
      rfl
    rw [hrun]
    exact ⟨iff_of_false (by simp [isCaught]) fun h => hlook h.1,
      iff_of_true (by simp [isCaught]) (.inl hlook)⟩
  · obtain ⟨hcaught, huncaught⟩ := mutate_cases merge file hof hpod
    have honly : ∀ pod', IsPodOf review pod' ↔ pod' = pod := fun pod' =>
      ⟨fun h => h.unique hof, fun h => h ▸ hof⟩
    rw [hcaught, huncaught]
    simp [honly, hlook]
  · have hrun : mutate merge file review = .error .mutationError := by
      rw [mutate, hpod]
      rfl
    rw [hrun]
    simp [hlook, hnone, isCaught]

/-- What is written needs no `except`. -/
theorem mutate_dumps_ends (hdumps : ∀ review, IsOk (s.dumps review)) (x : Except PyErr JsonValue) :
    (Caught (x >>= s.dumps) ↔ Caught x) ∧ (Uncaught (x >>= s.dumps) ↔ Uncaught x) := by
  rw [caught_bind, uncaught_bind]
  refine ⟨or_iff_left ?_, or_iff_left ?_⟩
  all_goals
    rintro ⟨review, -, h⟩
    obtain ⟨response, hresponse⟩ := hdumps review
    rw [hresponse] at h
  · exact caught_ok h
  · exact uncaught_ok h

/-- A review that is read ends by its kind, or as its mutation does. -/
theorem reviewOfKind_ends (hdumps : ∀ review, IsOk (s.dumps review)) (review : JsonValue) :
    (Caught (itemAt review "kind" >>= fun kind =>
        if isText "AdmissionReview" kind then mutate s.merge s.mutations review >>= s.dumps
        else .error .mutationError) ↔
      (∃ kind, review.member? "kind" = some kind ∧ kind ≠ .str "AdmissionReview") ∨
        review.member? "kind" = some (.str "AdmissionReview") ∧
          Caught (mutate s.merge s.mutations review)) ∧
    (Uncaught (itemAt review "kind" >>= fun kind =>
        if isText "AdmissionReview" kind then mutate s.merge s.mutations review >>= s.dumps
        else .error .mutationError) ↔
      review.member? "kind" = none ∨ review.member? "kind" = some (.str "AdmissionReview") ∧
        Uncaught (mutate s.merge s.mutations review)) := by
  cases hkind : review.member? "kind" with
  | none =>
    have hnot : ¬ IsOk (itemAt review "kind") := by
      rintro ⟨kind, h⟩
      rw [itemAt_eq_ok, hkind] at h
      cases h
    have huncaught := (uncaught_iff_not_isOk (not_caught_itemAt review "kind")).mpr hnot
    refine ⟨iff_of_false ?_ (by simp), iff_of_true ?_ (.inl rfl)⟩
    · rw [caught_bind]
      rintro (h | ⟨kind, h, -⟩)
      · exact not_caught_itemAt review "kind" h
      · exact hnot ⟨kind, h⟩
    · exact uncaught_bind.mpr (.inl huncaught)
  | some kind =>
    rw [itemAt_of_member? hkind]
    by_cases htext : kind = .str "AdmissionReview"
    · subst htext
      obtain ⟨hcaught, huncaught⟩ := mutate_dumps_ends hdumps (mutate s.merge s.mutations review)
      simpa [bind, Except.bind, isText] using And.intro hcaught huncaught
    · have hfalse : isText "AdmissionReview" kind = false := by
        rw [← Bool.not_eq_true, isText_iff]
        exact htext
      simp [bind, Except.bind, hfalse, htext, isCaught]

/-- **How the code under `try` ends.** -/
theorem answerReview_ends (hdumps : ∀ review, IsOk (s.dumps review)) (text : String) :
    (Caught (s.answerReview text) ↔ s.RefusesBody text) ∧
    (Uncaught (s.answerReview text) ↔ s.StumblesOver text) := by
  rw [WebhookServer.answerReview, WebhookServer.RefusesBody, WebhookServer.StumblesOver,
    caught_bind, uncaught_bind]
  refine ⟨or_congr_right (exists_congr fun review => and_congr_right fun _ => ?_),
    or_congr_right (exists_congr fun review => and_congr_right fun _ => ?_)⟩
  · rw [← (mutate_ends s.merge s.mutations review).1]
    exact (reviewOfKind_ends hdumps review).1
  · rw [← (mutate_ends s.merge s.mutations review).2]
    exact (reviewOfKind_ends hdumps review).2

/-- **The requests with an exception that escapes** are those the handler stumbles over. -/
theorem escapes_iff (hdumps : ∀ review, IsOk (s.dumps review)) :
    s.Escapes req ↔ s.StumblesAt req := by
  have hdata : (∃ e, s.postData req = .error e) ↔ ¬ IsOk (s.postData req) := by
    cases s.postData req <;> simp [IsOk]
  have hanswer : (∃ text e, s.postData req = .ok text ∧ s.answerReview text = .error e ∧
      isCaught e = false) ↔ ∃ text, s.postData req = .ok text ∧ s.StumblesOver text := by
    refine exists_congr fun text => ?_
    rw [← (answerReview_ends hdumps text).2, Uncaught]
    simp
  rw [WebhookServer.Escapes, hdata, hanswer, WebhookServer.StumblesAt, WebhookServer.postData]
  cases hlength : req.declaredLength with
  | error e => simp [bind, Except.bind, IsOk]
  | ok n => cases hdecode : s.decode (req.read n) <;> simp [bind, Except.bind, IsOk, hdecode]

/-- **The requests that are answered** are those it neither stumbles over nor refuses. -/
theorem answers_iff (hdumps : ∀ review, IsOk (s.dumps review)) :
    s.Answers req ↔ ¬ s.StumblesAt req ∧ ¬ s.RefusesAt req := by
  have hanswer : s.Answers req ↔ ∃ text, s.postData req = .ok text ∧
      ¬ s.StumblesOver text ∧ ¬ s.RefusesBody text := by
    rw [WebhookServer.Answers]
    refine exists_congr fun text => ?_
    rw [← (answerReview_ends hdumps text).1, ← (answerReview_ends hdumps text).2, ← isOk_iff, IsOk]
    simp
  rw [hanswer, WebhookServer.StumblesAt, WebhookServer.RefusesAt, WebhookServer.postData]
  cases hlength : req.declaredLength with
  | error e => simp [bind, Except.bind]
  | ok n => cases hdecode : s.decode (req.read n) <;> simp [bind, Except.bind, hdecode]

/-- The empty dictionary, with a content type. -/
def emptyPost (contentType : String) : PostRequest where
  path := "/mutate"
  contentType := some contentType
  contentLength := some "2"
  body := [0x7b, 0x7d]

end Cmk
