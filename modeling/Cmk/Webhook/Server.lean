import Cmk.Webhook

/-!
# Webhook/Server — the responses of `do_POST`

`send_response` puts a status line into a buffer that only `end_headers` writes out.  The guards
against a wrong content type and a long body send a response and go on, and exceptions of some
classes are not caught: a request gets one status line exactly when no guard fires and no exception
escapes, or one guard fires and an exception cuts the second response off.  Of these lines none is
written out but that of a review that was answered (`oneResponse_iff`).
-/

open Machinery

namespace Cmk

/-- What `do_POST` reads of a request. -/
structure PostRequest where
  path : String
  contentType : Option String
  contentLength : Option String
  body : List UInt8

/-- What has been done for a request: the status lines in the buffer, those written out, and the
body. -/
structure PostReply where
  buffered : List ℕ := []
  sent : List ℕ := []
  body : Option String := none

/-- The server: how it reads and writes text, how it merges, and its file of mutations. -/
structure WebhookServer where
  decode : List UInt8 → Except PyErr String
  loads : String → Except PyErr JsonValue
  dumps : JsonValue → Except PyErr String
  merge : Merge
  mutations : Option JsonValue

/-- A handler at work. -/
abbrev PostM := ExceptT PyErr (StateM PostReply)

def sendResponse (code : ℕ) : PostM Unit :=
  modify fun r => { r with buffered := r.buffered ++ [code] }

def endHeaders : PostM Unit :=
  modify fun r => { r with sent := r.sent ++ r.buffered, buffered := [] }

def writeBody (response : String) : PostM Unit := modify fun r => { r with body := some response }

/-- `int(self.headers['Content-Length'])`. -/
def PostRequest.declaredLength (req : PostRequest) : Except PyErr ℤ :=
  match req.contentLength with
  | none => .error .typeError
  | some text => intOfStr text

/-- `self.rfile.read(content_length)`: all there is for a negative length. -/
def PostRequest.read (req : PostRequest) (contentLength : ℤ) : List UInt8 :=
  if 0 ≤ contentLength then req.body.take contentLength.toNat else req.body

/-- The code under `try` up to the response. -/
def WebhookServer.answerReview (s : WebhookServer) (postData : String) : Except PyErr String := do
  let admissionReview ← s.loads postData
  let kind ← itemAt admissionReview "kind"
  if isText "AdmissionReview" kind then
    let admissionReview ← mutate s.merge s.mutations admissionReview
    s.dumps admissionReview
  else .error .mutationError

/-- The exceptions of the two `except` clauses. -/
def isCaught : PyErr → Bool
  | .valueError _ => true
  | .mutationError => true
  | _ => false

/-- The path starts with `/mutate`. -/
def PostRequest.IsMutate (req : PostRequest) : Prop := "/mutate".toList <+: req.path.toList

def PostRequest.WrongType (req : PostRequest) : Prop := req.contentType ≠ some "application/json"

instance (req : PostRequest) : Decidable req.IsMutate := inferInstanceAs (Decidable (_ <+: _))

instance (req : PostRequest) : Decidable req.WrongType := inferInstanceAs (Decidable (_ ≠ _))

/-- A guard sends a response and goes on. -/
def guardResponse (refuses : Prop) [Decidable refuses] : PostM Unit :=
  if refuses then sendResponse 500 else pure ()

/-- The code under `try` with its two `except` clauses. -/
def WebhookServer.respond (s : WebhookServer) (postData : String) : PostM Unit :=
  match s.answerReview postData with
  | .ok response => do
    sendResponse 200
    endHeaders
    writeBody response
  | .error e => if isCaught e then sendResponse 500 else throw e

def WebhookServer.doPost (s : WebhookServer) (req : PostRequest) : PostM Unit :=
  if req.IsMutate then do
    guardResponse req.WrongType
    let contentLength ← liftExcept req.declaredLength
    guardResponse (contentLength > 10000)
    let postData ← liftExcept (s.decode (req.read contentLength))
    s.respond postData
  else sendResponse 400

/-! ## What a response should be -/

variable {s : WebhookServer} {req : PostRequest} {text response : String} {e : PyErr}

def PostRequest.Oversized (req : PostRequest) : Prop :=
  ∃ n, req.declaredLength = .ok n ∧ n > 10000

instance (req : PostRequest) : Decidable req.Oversized :=
  decidable_of_iff (req.declaredLength.toOption.any (10000 < ·) = true) <| by
    rw [PostRequest.Oversized]
    cases req.declaredLength <;> simp [Except.toOption]

/-- The text of the body, if the header gives its length and it can be decoded. -/
def WebhookServer.postData (s : WebhookServer) (req : PostRequest) : Except PyErr String := do
  let contentLength ← req.declaredLength
  s.decode (req.read contentLength)

/-- The body is an `AdmissionReview` for a pod. -/
def WebhookServer.IsPodReview (s : WebhookServer) (req : PostRequest) : Prop :=
  ∃ text review pod, s.postData req = .ok text ∧ s.loads text = .ok review ∧
    itemAt review "kind" = .ok (.str "AdmissionReview") ∧ podOf review = .ok pod

/-- The review of the body is answered. -/
def WebhookServer.Answers (s : WebhookServer) (req : PostRequest) : Prop :=
  ∃ text response, s.postData req = .ok text ∧ s.answerReview text = .ok response

/-- An exception is raised outside of `try`, or in it with no clause to catch it. -/
def WebhookServer.Escapes (s : WebhookServer) (req : PostRequest) : Prop :=
  (∃ e, s.postData req = .error e) ∨
    ∃ text e, s.postData req = .ok text ∧ s.answerReview text = .error e ∧ isCaught e = false

/-- The reply when `do_POST` has ended, in whichever way. -/
def WebhookServer.reply (s : WebhookServer) (req : PostRequest) : PostReply :=
  ((s.doPost req).run.run {}).2

/-- **One status line**, and the right one: success for a review of a pod in a request that no guard
refuses, a refusal for one that a guard refuses, and an error for any other body. -/
structure OneResponse (s : WebhookServer) (req : PostRequest) (lines : List ℕ)
    (body : Option String) : Prop where
  one : ∃ code, lines = [code]
  success : 200 ∈ lines → (req.IsMutate ∧ ¬ req.WrongType ∧ ¬ req.Oversized ∧ s.IsPodReview req) ∧
    ∃ review response, body = some response ∧ s.dumps review = .ok response ∧
      review.member? "kind" = some (.str "AdmissionReview")
  refused : req.IsMutate → req.WrongType ∨ req.Oversized → lines = [500] ∧ body = none
  error : ¬ s.IsPodReview req → ∃ code ∈ lines, 400 ≤ code

/-! ## What is done for a request -/

/-- The status lines of the guards that fire. -/
def PostRequest.guards (req : PostRequest) : List ℕ :=
  (if req.WrongType then [500] else []) ++ if req.Oversized then [500] else []

theorem run_bind_ok {α β : Type} {x : PostM α} {f : α → PostM β} {r r' : PostReply} {a : α}
    (h : x.run.run r = (.ok a, r')) : (x >>= f).run.run r = (f a).run.run r' := by
  simp only [ExceptT.run_bind, StateT.run_bind, h]
  rfl

theorem run_bind_error {α β : Type} {x : PostM α} {f : α → PostM β} {r r' : PostReply} {e : PyErr}
    (h : x.run.run r = (.error e, r')) : (x >>= f).run.run r = (.error e, r') := by
  simp only [ExceptT.run_bind, StateT.run_bind, h]
  rfl

theorem run_liftExcept_ok {α : Type} (a : α) (r : PostReply) :
    (liftExcept (Except.ok a : Except PyErr α) : PostM α).run.run r = (.ok a, r) := rfl

theorem run_liftExcept_error {α : Type} (e : PyErr) (r : PostReply) :
    (liftExcept (Except.error e : Except PyErr α) : PostM α).run.run r = (.error e, r) := rfl

theorem run_guardResponse (refuses : Prop) [Decidable refuses] (lines : List ℕ) :
    (guardResponse refuses).run.run ⟨lines, [], none⟩ =
      (.ok (), ⟨lines ++ if refuses then [500] else [], [], none⟩) := by
  rw [guardResponse]
  split_ifs
  · rfl
  · rw [List.append_nil]
    rfl

theorem reply_of_not_mutate (h : ¬ req.IsMutate) : s.reply req = ⟨[400], [], none⟩ := by
  rw [WebhookServer.reply, WebhookServer.doPost, if_neg h]
  rfl

theorem oversized_iff {n : ℤ} (h : req.declaredLength = .ok n) : req.Oversized ↔ n > 10000 := by
  rw [PostRequest.Oversized, h]
  exact ⟨fun ⟨n', hn', hlarge⟩ => Except.ok.inj hn' ▸ hlarge, fun hlarge => ⟨n, rfl, hlarge⟩⟩

theorem guards_of_ok {n : ℤ} (h : req.declaredLength = .ok n) : req.guards =
    (if req.WrongType then [500] else []) ++ if n > 10000 then [500] else [] := by
  rw [PostRequest.guards]
  exact congrArg _ (if_congr (oversized_iff h) rfl rfl)

theorem guards_of_error (h : req.declaredLength = .error e) :
    req.guards = if req.WrongType then [500] else [] := by
  have hno : ¬ req.Oversized := by
    rintro ⟨n, hn, -⟩
    rw [h] at hn
    cases hn
  rw [PostRequest.guards, if_neg hno, List.append_nil]

/-- **Without the text of the body**, the guards that fired are all there is. -/
theorem reply_of_error (h : req.IsMutate) (hdata : s.postData req = .error e) :
    s.reply req = ⟨req.guards, [], none⟩ := by
  rw [WebhookServer.reply, WebhookServer.doPost, if_pos h, run_bind_ok (run_guardResponse _ []),
    List.nil_append]
  rw [WebhookServer.postData] at hdata
  cases hlength : req.declaredLength with
  | error e => rw [run_bind_error (run_liftExcept_error e _), guards_of_error hlength]
  | ok n =>
    rw [hlength] at hdata
    have hdecode : s.decode (req.read n) = .error e := hdata
    rw [run_bind_ok (run_liftExcept_ok n _), run_bind_ok (run_guardResponse _ _), hdecode,
      run_bind_error (run_liftExcept_error e _), guards_of_ok hlength]

/-- **With the text of the body**, the response comes behind those of the guards. -/
theorem reply_of_ok (h : req.IsMutate) (hdata : s.postData req = .ok text) :
    s.reply req = ((s.respond text).run.run ⟨req.guards, [], none⟩).2 := by
  obtain ⟨n, hlength, hdecode⟩ := bind_eq_ok.mp hdata
  rw [WebhookServer.reply, WebhookServer.doPost, if_pos h, run_bind_ok (run_guardResponse _ []),
    List.nil_append, hlength, run_bind_ok (run_liftExcept_ok n _),
    run_bind_ok (run_guardResponse _ _), hdecode, run_bind_ok (run_liftExcept_ok text _),
    guards_of_ok hlength]

theorem reply_of_answers (h : req.IsMutate) (hdata : s.postData req = .ok text)
    (hanswer : s.answerReview text = .ok response) :
    s.reply req = ⟨[], req.guards ++ [200], some response⟩ := by
  rw [reply_of_ok h hdata, WebhookServer.respond, hanswer]
  rfl

theorem reply_of_caught (h : req.IsMutate) (hdata : s.postData req = .ok text)
    (hanswer : s.answerReview text = .error e) (hcaught : isCaught e = true) :
    s.reply req = ⟨req.guards ++ [500], [], none⟩ := by
  rw [reply_of_ok h hdata, WebhookServer.respond, hanswer]
  dsimp only
  rw [if_pos hcaught]
  rfl

theorem reply_of_escapes (h : req.IsMutate) (hescapes : s.Escapes req) :
    s.reply req = ⟨req.guards, [], none⟩ := by
  rcases hescapes with ⟨e, hdata⟩ | ⟨text, e, hdata, hanswer, hcaught⟩
  · exact reply_of_error h hdata
  · rw [reply_of_ok h hdata, WebhookServer.respond, hanswer]
    dsimp only
    rw [if_neg (by simp [hcaught])]
    rfl

/-- An exception escapes, the review is answered, or an exception is caught. -/
theorem escapes_or (s : WebhookServer) (req : PostRequest) :
    s.Escapes req ∨ (∃ text response, s.postData req = .ok text ∧
        s.answerReview text = .ok response) ∨
      ∃ text e, s.postData req = .ok text ∧ s.answerReview text = .error e ∧ isCaught e = true := by
  cases hdata : s.postData req with
  | error e => exact .inl (.inl ⟨e, hdata⟩)
  | ok text =>
    cases hanswer : s.answerReview text with
    | ok response => exact .inr (.inl ⟨text, response, rfl, hanswer⟩)
    | error e =>
      cases hcaught : isCaught e with
      | true => exact .inr (.inr ⟨text, e, rfl, hanswer, hcaught⟩)
      | false => exact .inl (.inr ⟨text, e, hdata, hanswer, hcaught⟩)

theorem not_escapes_of_answers (hdata : s.postData req = .ok text)
    (hanswer : s.answerReview text = .ok response) : ¬ s.Escapes req := by
  rintro (⟨e, hdata'⟩ | ⟨text', e, hdata', hanswer', -⟩)
  · rw [hdata] at hdata'
    cases hdata'
  · obtain rfl := Except.ok.inj (hdata.symm.trans hdata')
    rw [hanswer] at hanswer'
    cases hanswer'

theorem not_escapes_of_caught (hdata : s.postData req = .ok text)
    (hanswer : s.answerReview text = .error e) (hcaught : isCaught e = true) :
    ¬ s.Escapes req := by
  rintro (⟨e', hdata'⟩ | ⟨text', e', hdata', hanswer', hcaught'⟩)
  · rw [hdata] at hdata'
    cases hdata'
  · obtain rfl := Except.ok.inj (hdata.symm.trans hdata')
    obtain rfl := Except.error.inj (hanswer.symm.trans hanswer')
    rw [hcaught] at hcaught'
    cases hcaught'

theorem isText_eq {v : JsonValue} (h : isText text v = true) : v = .str text := by
  cases v with
  | str t => exact congrArg JsonValue.str (of_decide_eq_true h)
  | _ => cases h

/-- **The answer is of the kind of the review.** -/
theorem answer_kind {review review' kind : JsonValue} {resp : List (String × JsonValue)}
    (hkind : itemAt review "kind" = .ok kind) (h : answer review resp = .ok review') :
    review'.member? "kind" = some kind := by
  cases review with
  | obj members =>
    obtain rfl := Except.ok.inj h
    have hmember : (JsonValue.obj members).member? "kind" = some kind := by
      rw [itemAt] at hkind
      cases hfound : (JsonValue.obj members).member? "kind" with
      | none => rw [hfound] at hkind; cases hkind
      | some kind' => rw [hfound] at hkind; rw [Except.ok.inj hkind]
    have hne : "response" ≠ "kind" := by decide
    rw [JsonValue.member?_setMember_of_ne hne, JsonValue.member?_filter_ne, if_neg (by decide),
      hmember]
  | _ => cases h

/-- **Only a review of a pod is mutated**, and the answer is of its kind. -/
theorem mutate_ok {merge : Merge} {file : Option JsonValue} {review review' kind : JsonValue}
    (hkind : itemAt review "kind" = .ok kind) (h : mutate merge file review = .ok review') :
    (∃ pod, podOf review = .ok pod) ∧ review'.member? "kind" = some kind := by
  obtain ⟨pod, hpod, h⟩ := bind_eq_ok.mp h
  obtain ⟨required, -, h⟩ := bind_eq_ok.mp h
  refine ⟨⟨pod, ?_⟩, ?_⟩
  · cases hreview : podOf review with
    | ok pod' => rw [hreview] at hpod; exact hpod
    | error e => rw [hreview] at hpod; cases e <;> cases hpod
  · split at h
    · obtain ⟨pod', -, h⟩ := bind_eq_ok.mp h
      obtain ⟨patch, -, h⟩ := bind_eq_ok.mp h
      obtain ⟨uid, -, h⟩ := bind_eq_ok.mp h
      exact answer_kind hkind h
    · obtain ⟨uid, -, h⟩ := bind_eq_ok.mp h
      exact answer_kind hkind h

/-- **What is answered** is a review for a pod, and so is the answer. -/
theorem answerReview_ok (hanswer : s.answerReview text = .ok response) :
    (∃ review pod, s.loads text = .ok review ∧
      itemAt review "kind" = .ok (.str "AdmissionReview") ∧ podOf review = .ok pod) ∧
    ∃ review, s.dumps review = .ok response ∧
      review.member? "kind" = some (.str "AdmissionReview") := by
  obtain ⟨review, hloads, h⟩ := bind_eq_ok.mp hanswer
  obtain ⟨kind, hkind, h⟩ := bind_eq_ok.mp h
  split at h
  · rename_i htext
    obtain rfl := isText_eq htext
    obtain ⟨review', hmutate, hdumps⟩ := bind_eq_ok.mp h
    obtain ⟨⟨pod, hpod⟩, hkind'⟩ := mutate_ok hkind hmutate
    exact ⟨⟨review, pod, hloads, hkind, hpod⟩, review', hdumps, hkind'⟩
  · cases h

/-! ## When a request gets one response -/

theorem guards_eq_nil : req.guards = [] ↔ ¬ req.WrongType ∧ ¬ req.Oversized := by
  rw [PostRequest.guards]
  by_cases hw : req.WrongType <;> by_cases ho : req.Oversized <;> simp [hw, ho]

theorem guards_eq_singleton {code : ℕ} :
    req.guards = [code] ↔ Xor req.WrongType req.Oversized ∧ 500 = code := by
  rw [PostRequest.guards, Xor]
  by_cases hw : req.WrongType <;> by_cases ho : req.Oversized <;> simp [hw, ho]

/-- A refusal alone is always right, and so is an error on another path. -/
theorem oneResponse_of_error {code : ℕ} (hcode : 400 ≤ code)
    (hpath : req.IsMutate → code = 500) : OneResponse s req [code] none where
  one := ⟨code, rfl⟩
  success h := by
    obtain rfl := List.mem_singleton.mp h
    exact absurd hcode (by decide)
  refused h _ := ⟨by rw [hpath h], rfl⟩
  error _ := ⟨code, by simp, hcode⟩

theorem oneResponse_of_answer (h : req.IsMutate) (hguards : req.guards = [])
    (hdata : s.postData req = .ok text) (hanswer : s.answerReview text = .ok response) :
    OneResponse s req [200] (some response) := by
  obtain ⟨hw, ho⟩ := guards_eq_nil.mp hguards
  obtain ⟨⟨review, pod, hloads, hkind, hpod⟩, review', hdumps, hkind'⟩ := answerReview_ok hanswer
  have hreview : s.IsPodReview req := ⟨text, review, pod, hdata, hloads, hkind, hpod⟩
  exact ⟨⟨200, rfl⟩, fun _ => ⟨⟨h, hw, ho, hreview⟩, review', response, rfl, hdumps, hkind'⟩,
    fun _ hrefused => absurd hrefused (not_or_intro hw ho), fun hno => absurd hreview hno⟩

theorem not_oneResponse_nil (body : Option String) : ¬ OneResponse s req [] body := fun h => by
  obtain ⟨code, hcode⟩ := h.one
  cases hcode

/-- When an exception escapes there are the lines of the guards, none of them written out. -/
theorem oneResponse_of_escapes (hescapes : s.Escapes req) :
    (OneResponse s req req.guards none ↔ Xor req.WrongType req.Oversized) ∧ ¬ s.Answers req := by
  refine ⟨⟨fun h => ?_, fun hxor => ?_⟩, ?_⟩
  · obtain ⟨code, hcode⟩ := h.one
    exact (guards_eq_singleton.mp hcode).1
  · rw [guards_eq_singleton.mpr ⟨hxor, rfl⟩]
    exact oneResponse_of_error (by decide) fun _ => rfl
  · rintro ⟨text, response, hdata, hanswer⟩
    exact not_escapes_of_answers hdata hanswer hescapes

/-- When the review is answered the lines of the guards come before. -/
theorem oneResponse_of_answers (h : req.IsMutate) (hdata : s.postData req = .ok text)
    (hanswer : s.answerReview text = .ok response) :
    OneResponse s req (req.guards ++ [200]) (some response) ↔ req.guards = [] := by
  refine ⟨fun hone => ?_, fun hguards => ?_⟩
  · obtain ⟨code, hcode⟩ := hone.one
    simpa using congrArg List.length hcode
  · rw [hguards]
    exact oneResponse_of_answer h hguards hdata hanswer

/-- When an exception is caught there is an error behind the lines of the guards. -/
theorem oneResponse_of_caught (hdata : s.postData req = .ok text)
    (hanswer : s.answerReview text = .error e) :
    (OneResponse s req (req.guards ++ [500]) none ↔ req.guards = []) ∧ ¬ s.Answers req := by
  refine ⟨⟨fun h => ?_, fun hguards => ?_⟩, ?_⟩
  · obtain ⟨code, hcode⟩ := h.one
    simpa using congrArg List.length hcode
  · rw [hguards]
    exact oneResponse_of_error (by decide) fun _ => rfl
  · rintro ⟨text', response, hdata', hanswer'⟩
    obtain rfl := Except.ok.inj (hdata.symm.trans hdata')
    rw [hanswer] at hanswer'
    cases hanswer'

/-- **A request gets one status line** exactly when no guard fires and no exception escapes, or one
guard fires and an exception cuts the second response off; **and one is written out** exactly when
no guard fires and the review is answered. -/
theorem oneResponse_iff (s : WebhookServer) (req : PostRequest) :
    (OneResponse s req ((s.reply req).sent ++ (s.reply req).buffered) (s.reply req).body ↔
      (req.IsMutate → (¬ req.WrongType ∧ ¬ req.Oversized) ∧ ¬ s.Escapes req ∨
        Xor req.WrongType req.Oversized ∧ s.Escapes req)) ∧
    (OneResponse s req (s.reply req).sent (s.reply req).body ↔
      req.IsMutate ∧ (¬ req.WrongType ∧ ¬ req.Oversized) ∧ s.Answers req) := by
  by_cases hpath : req.IsMutate
  · rw [imp_iff_right hpath, and_iff_right hpath, ← guards_eq_nil]
    rcases escapes_or s req with hescapes | ⟨text, response, hdata, hanswer⟩ |
      ⟨text, e, hdata, hanswer, hcaught⟩
    · obtain ⟨hone, hno⟩ := oneResponse_of_escapes hescapes
      rw [reply_of_escapes hpath hescapes, List.nil_append, hone]
      exact ⟨⟨fun hxor => .inr ⟨hxor, hescapes⟩,
        fun h => (h.resolve_left fun h => h.2 hescapes).1⟩,
        iff_of_false (not_oneResponse_nil none) fun h => hno h.2⟩
    · have hno := not_escapes_of_answers hdata hanswer
      rw [reply_of_answers hpath hdata hanswer, List.append_nil,
        oneResponse_of_answers hpath hdata hanswer]
      exact ⟨⟨fun h => .inl ⟨h, hno⟩, fun h => (h.resolve_right fun h => hno h.2).1⟩,
        ⟨fun h => ⟨h, text, response, hdata, hanswer⟩, fun h => h.1⟩⟩
    · have hno := not_escapes_of_caught hdata hanswer hcaught
      obtain ⟨hone, hno'⟩ := @oneResponse_of_caught s req text e hdata hanswer
      rw [reply_of_caught hpath hdata hanswer hcaught, List.nil_append, hone]
      exact ⟨⟨fun h => .inl ⟨h, hno⟩, fun h => (h.resolve_right fun h => hno h.2).1⟩,
        iff_of_false (not_oneResponse_nil none) fun h => hno' h.2⟩
  · rw [reply_of_not_mutate hpath, List.nil_append]
    exact ⟨iff_of_true (oneResponse_of_error (by decide) fun h => absurd h hpath)
      fun h => absurd h hpath, iff_of_false (not_oneResponse_nil none) fun h => hpath h.1⟩

/-- A server for bodies in ASCII. -/
def asciiServer : WebhookServer where
  decode bytes := .ok (String.ofList (bytes.map fun b => Char.ofNat b.toNat))
  loads text := (JsonValue.loads? text).elim (.error (.valueError none)) .ok
  dumps j := .ok j.dumps
  merge := JsonValue.dataMerge
  mutations := none

end Cmk
