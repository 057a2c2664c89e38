import Cmk.ClusterInit.Webhook
import Cmk.Machinery.Gated

/-!
# ClusterInit/WebhookRuns — any number of deployments and removals of the webhook

The runs of `deploy_webhook` and of `remove_webhook_resources` interleave call by call, and each may
end at any call.  They are the builders and the wreckers of `Machinery/Gated` (`ApiSystem.sim`).
So the webhook is only registered over the objects of one and the same deployment
(`webhook_backed`), one that was broken off is never registered again (`webhook_lost`), and nothing
else is in the way of a new one (`webhook_deployable_iff`).
-/

open Machinery

namespace Cmk

variable {namespaceName : String}

/-! ## Any number of them at once -/

inductive WebhookJob
  | deploy (o : DeployOptions)
  | remove

def WebhookJob.calls (namespaceName : String) : WebhookJob → List ApiCall
  | .deploy o => deployCalls namespaceName o
  | .remove => removeCalls namespaceName

/-- The API server, and the calls that each run of a command has before it. -/
structure ApiSystem (ι : Type) where
  server : ApiServer
  left : ι → List ApiCall

variable {ι : Type} [DecidableEq ι]

/-- One call of one run that goes through, or the end of a run. -/
inductive ApiSystem.Step : ApiSystem ι → ApiSystem ι → Prop
  | call {s : ApiSystem ι} (i : ι) (c : ApiCall) (calls : List ApiCall) (server' : ApiServer)
      (hi : s.left i = c :: calls) (hc : c.apply s.server = some server') :
      Step s ⟨server', Function.update s.left i calls⟩
  /-- A call is refused and the run exits, or it is killed. -/
  | stop {s : ApiSystem ι} (i : ι) : Step s { s with left := Function.update s.left i [] }

def ApiSystem.start (namespaceName : String) (jobs : ι → WebhookJob) (server : ApiServer) :
    ApiSystem ι :=
  ⟨server, fun i => (jobs i).calls namespaceName⟩

/-- None of the five objects is there. -/
def NoWebhook (namespaceName : String) (server : ApiServer) : Prop :=
  ∀ m ≤ 4, server (webhookKey namespaceName m) = none

omit [DecidableEq ι] in
/-- A call goes through, or the command exits and nothing has changed. -/
theorem ApiCall.run_cases (refuses : ObjectKey → Bool) (c : ApiCall) (server : ApiServer) :
    (∃ server', c.apply server = some server' ∧
      (c.run refuses).run.run server = (.ok (), server')) ∨
        (c.run refuses).run.run server = (.error (.systemExit 1), server) := by
  cases h : if refuses c.key then none else c.apply server with
  | none =>
    right
    rw [ApiCall.run, ExceptT.run_mk, StateT.run, h]
  | some server' =>
    left
    have happly : c.apply server = some server' := by
      split_ifs at h
      exact h
    refine ⟨server', happly, ?_⟩
    rw [ApiCall.run, ExceptT.run_mk, StateT.run, h]

/-- **A command in one go is one of the interleavings**, in which it has no calls left at the end.
-/
theorem runCalls_step (refuses : ObjectKey → Bool) (i : ι) {calls : List ApiCall}
    {s : ApiSystem ι} (h : s.left i = calls) :
    Relation.ReflTransGen ApiSystem.Step s
      ⟨((runCalls refuses calls).run.run s.server).2, Function.update s.left i []⟩ := by
  induction calls generalizing s with
  | nil =>
    rw [show Function.update s.left i [] = s.left from h ▸ Function.update_eq_self ..]
    exact .refl
  | cons c calls ih =>
    rcases c.run_cases refuses s.server with ⟨server', happly, hrun⟩ | hrun
    · have hrest : ((runCalls refuses (c :: calls)).run.run s.server).2 =
          ((runCalls refuses calls).run.run server').2 := by
        rw [runCalls, ExceptT.run_bind, StateT.run_bind, hrun]
        rfl
      have hlast := ih (s := ⟨server', Function.update s.left i calls⟩) (Function.update_self ..)
      rw [hrest]
      rw [Function.update_idem] at hlast
      exact .head (.call i c calls server' h happly) hlast
    · have hsame : ((runCalls refuses (c :: calls)).run.run s.server).2 = s.server := by
        rw [runCalls, ExceptT.run_bind, StateT.run_bind, hrun]
        rfl
      rw [hsame]
      exact .single (.stop i)

/-- So is `deploy_webhook`. -/
theorem deployWebhook_step (refuses : ObjectKey → Bool) (o : DeployOptions) (i : ι)
    {s : ApiSystem ι} (h : s.left i = deployCalls namespaceName o) :
    Relation.ReflTransGen ApiSystem.Step s
      ⟨((deployWebhook refuses namespaceName o).run.run s.server).2,
        Function.update s.left i []⟩ := by
  rw [deployWebhook_eq]
  exact runCalls_step refuses i h

/-- So is `remove_webhook_resources`, on a cluster that has webhooks. -/
theorem removeWebhookResources_step (refuses : ObjectKey → Bool) {version : List ℕ}
    (hv : [1, 9] ≤ version) (i : ι) {s : ApiSystem ι}
    (h : s.left i = removeCalls namespaceName) :
    Relation.ReflTransGen ApiSystem.Step s
      ⟨((removeWebhookResources refuses (.ok version) namespaceName).run.run s.server).2,
        Function.update s.left i []⟩ := by
  rw [removeWebhookResources_eq refuses namespaceName rfl hv]
  exact runCalls_step refuses i h

/-! ## Builders and wreckers -/

def WebhookJob.role : WebhookJob → Gated.Role
  | .deploy _ => .builder
  | .remove => .wrecker

/-- What a job creates; a removal creates nothing. -/
def WebhookJob.object (namespaceName : String) (m : ℕ) : WebhookJob → ApiObject
  | .deploy o => deployedObject namespaceName o m
  | .remove => .secret ⟨[], ""⟩

def ApiSystem.abs (namespaceName : String) (s : ApiSystem ι) : Gated.State ι ApiObject where
  store m := if m ≤ 4 then s.server (webhookKey namespaceName m) else none
  calls i := 5 - (s.left i).length

/-- Every run has the rest of its calls before it. -/
def ApiSystem.Ok (namespaceName : String) (jobs : ι → WebhookJob) (s : ApiSystem ι) : Prop :=
  ∀ i, s.left i = [] ∨ ∃ k < 5, s.left i = ((jobs i).calls namespaceName).drop k

variable {jobs : ι → WebhookJob} {s s' : ApiSystem ι}

omit [DecidableEq ι] in
theorem webhookKey_inj {m k : ℕ} (hm : m ≤ 4) (hk : k ≤ 4)
    (h : webhookKey namespaceName m = webhookKey namespaceName k) : m = k := by
  have hkind := congrArg ObjectKey.kind h
  interval_cases m <;> interval_cases k <;> first | rfl | cases hkind

omit [DecidableEq ι] in
theorem drop_deployCalls (o : DeployOptions) {k : ℕ} (hk : k < 5) :
    (deployCalls namespaceName o).drop k =
      .create (webhookKey namespaceName k) (deployedObject namespaceName o k) ::
        (deployCalls namespaceName o).drop (k + 1) := by
  interval_cases k <;> rfl

omit [DecidableEq ι] in
theorem drop_removeCalls {k : ℕ} (hk : k < 4) :
    (removeCalls namespaceName).drop (k + 1) =
      .delete (webhookKey namespaceName k) :: (removeCalls namespaceName).drop (k + 2) := by
  interval_cases k <;> rfl

/-- The abstract state after a call. -/
theorem left_abs_update {k n : ℕ} (hk : k ≤ 4) (o : Option ApiObject) (i : ι) {calls : List ApiCall}
    (hn : 5 - calls.length = n) :
    (⟨Function.update s.server (webhookKey namespaceName k) o, Function.update s.left i calls⟩ :
        ApiSystem ι).abs namespaceName =
      ⟨Function.update (s.abs namespaceName).store k o,
        Function.update (s.abs namespaceName).calls i n⟩ := by
  refine congrArg₂ Gated.State.mk (funext fun m => ?_) (funext fun j => ?_)
  · by_cases hmk : m = k
    · subst hmk
      simp [hk]
    · rw [Function.update_of_ne hmk]
      refine ite_congr rfl (fun hm => ?_) fun _ => rfl
      exact Function.update_of_ne (fun h => hmk (webhookKey_inj hm hk h)) ..
  · by_cases hj : j = i
    · subst hj
      simp [hn]
    · rw [Function.update_of_ne hj]
      exact congrArg (fun calls : List ApiCall => 5 - calls.length) (Function.update_of_ne hj ..)

/-- The abstract state after the end of a run. -/
theorem abs_stop (i : ι) :
    ({ s with left := Function.update s.left i [] } : ApiSystem ι).abs namespaceName =
      { s.abs namespaceName with calls := Function.update (s.abs namespaceName).calls i 5 } := by
  refine congrArg (Gated.State.mk _) (funext fun j => ?_)
  by_cases hj : j = i
  · subst hj
    simp
  · rw [Function.update_of_ne hj]
    exact congrArg (fun calls : List ApiCall => 5 - calls.length) (Function.update_of_ne hj ..)

omit [DecidableEq ι] in
theorem store_abs {k : ℕ} (hk : k ≤ 4) :
    (s.abs namespaceName).store k = s.server (webhookKey namespaceName k) := if_pos hk

theorem length_calls (job : WebhookJob) : (job.calls namespaceName).length = 5 := by
  cases job <;> rfl

theorem ApiSystem.Ok.update (hok : s.Ok namespaceName jobs) (server : ApiServer) {i : ι}
    {calls : List ApiCall}
    (hi : calls = [] ∨ ∃ k < 5, calls = ((jobs i).calls namespaceName).drop k) :
    (⟨server, Function.update s.left i calls⟩ : ApiSystem ι).Ok namespaceName jobs := by
  intro j
  dsimp only
  by_cases hj : j = i
  · subst hj
    rwa [Function.update_self]
  · rw [Function.update_of_ne hj]
    exact hok j

omit [DecidableEq ι] in
/-- Where a run that is not at its end is, and what it has before it after the next call. -/
theorem ApiSystem.Ok.of_cons (hok : s.Ok namespaceName jobs) {i : ι} {c : ApiCall}
    {calls : List ApiCall} (hi : s.left i = c :: calls) :
    ∃ k < 5, ((jobs i).calls namespaceName).drop k = c :: calls ∧
      calls = ((jobs i).calls namespaceName).drop (k + 1) ∧ (s.abs namespaceName).calls i = k ∧
      5 - calls.length = k + 1 := by
  obtain ⟨k, hk, hdrop⟩ := (hok i).resolve_left fun hnil => by rw [hnil] at hi; cases hi
  have hcalls : calls = ((jobs i).calls namespaceName).drop (k + 1) := by
    rw [← List.tail_drop, ← hdrop, hi, List.tail_cons]
  have hlength : (s.left i).length = 5 - k := by rw [hdrop, List.length_drop, length_calls]
  have hlength' : calls.length = 5 - (k + 1) := by rw [hcalls, List.length_drop, length_calls]
  refine ⟨k, hk, hdrop.symm.trans hi, hcalls, ?_, by omega⟩
  dsimp only [ApiSystem.abs]
  omega

theorem ApiSystem.Ok.step (hok : s.Ok namespaceName jobs) (h : ApiSystem.Step s s') :
    s'.Ok namespaceName jobs := by
  cases h with
  | stop i => exact hok.update s.server (.inl rfl)
  | call i c calls server' hi hc =>
    obtain ⟨k, hk, -, hcalls, -, -⟩ := hok.of_cons hi
    refine hok.update server' ?_
    rcases Nat.lt_or_ge (k + 1) 5 with hlt | hge
    · exact .inr ⟨k + 1, hlt, hcalls⟩
    · exact .inl (hcalls.trans (List.drop_eq_nil_of_le ((length_calls _).trans_le hge)))

omit [DecidableEq ι] in
theorem apply_create {server server' : ApiServer} {key : ObjectKey} {o : ApiObject} :
    (ApiCall.create key o).apply server = some server' ↔
      server key = none ∧ server' = Function.update server key (some o) := by
  rw [ApiCall.apply]
  cases server key <;> simp [eq_comm]

omit [DecidableEq ι] in
theorem apply_delete {server server' : ApiServer} {key : ObjectKey} :
    (ApiCall.delete key).apply server = some server' ↔
      server key ≠ none ∧ server' = Function.update server key none := by
  rw [ApiCall.apply]
  cases server key <;> simp [eq_comm]

/-- **Every call is one of a builder or of a wrecker.** -/
theorem ApiSystem.sim (hok : s.Ok namespaceName jobs) (h : ApiSystem.Step s s') :
    Gated.Step 4 (fun i => (jobs i).role) (fun i m => (jobs i).object namespaceName m)
      (s.abs namespaceName) (s'.abs namespaceName) := by
  cases h with
  | stop i =>
    rw [abs_stop]
    exact .stop i
  | call i c calls server' hi hc =>
    obtain ⟨k, hk, hdrop, -, hat, hnext⟩ := hok.of_cons hi
    cases hjob : jobs i with
    | deploy o =>
      rw [hjob, WebhookJob.calls, drop_deployCalls o hk] at hdrop
      obtain ⟨rfl, -⟩ := List.cons.inj hdrop
      obtain ⟨hfree, rfl⟩ := apply_create.mp hc
      have hobject : deployedObject namespaceName o k = (jobs i).object namespaceName k := by
        rw [hjob]
        rfl
      have hstep : Gated.Step 4 (fun i => (jobs i).role)
          (fun i m => (jobs i).object namespaceName m) (s.abs namespaceName) _ :=
        .create i (by rw [hjob]; rfl) (by omega) (by rwa [hat, store_abs (by omega)])
      rw [left_abs_update (by omega) _ i hnext, hobject]
      rw [hat] at hstep
      exact hstep
    | remove =>
      have hrole : (jobs i).role = .wrecker := by rw [hjob]; rfl
      rw [hjob, WebhookJob.calls] at hdrop
      cases k with
      | zero =>
        obtain ⟨rfl, -⟩ := List.cons.inj hdrop
        obtain ⟨hthere, rfl⟩ := apply_delete.mp hc
        rw [left_abs_update le_rfl _ i hnext]
        exact .unlock i hrole hat (by rwa [store_abs le_rfl])
      | succ k =>
        rw [drop_removeCalls (by omega)] at hdrop
        obtain ⟨rfl, -⟩ := List.cons.inj hdrop
        obtain ⟨hthere, rfl⟩ := apply_delete.mp hc
        rw [left_abs_update (by omega) _ i hnext]
        exact .delete i k hrole hat (by omega) (by rwa [store_abs (by omega)])

omit [DecidableEq ι] in
/-- A run that is not at its end has a call before it. -/
theorem exists_call (hok : s.Ok namespaceName jobs) {i : ι}
    (h : (s.abs namespaceName).calls i ≤ 4) :
    ∃ c calls, s.left i = c :: calls ∧
      ((jobs i).calls namespaceName).drop ((s.abs namespaceName).calls i) = c :: calls ∧
      5 - calls.length = (s.abs namespaceName).calls i + 1 := by
  have hon : s.left i ≠ [] := fun hnil => by simp [ApiSystem.abs, hnil] at h
  obtain ⟨c, calls, hi⟩ := List.exists_cons_of_ne_nil hon
  obtain ⟨k, -, hdrop, -, hat, hnext⟩ := hok.of_cons hi
  exact ⟨c, calls, hi, hat ▸ hdrop, hat ▸ hnext⟩

/-- **Whatever a builder or a wrecker can do** is a call that goes through. -/
theorem ApiSystem.lift (hok : s.Ok namespaceName jobs) {a : Gated.State ι ApiObject}
    (h : Gated.Step 4 (fun i => (jobs i).role) (fun i m => (jobs i).object namespaceName m)
      (s.abs namespaceName) a) : ∃ s', ApiSystem.Step s s' ∧ s'.abs namespaceName = a := by
  cases h with
  | stop i => exact ⟨_, .stop i, abs_stop i⟩
  | create i hi hle hfree =>
    obtain ⟨c, calls, hleft, hdrop, hnext⟩ := exists_call hok hle
    cases hjob : jobs i with
    | remove =>
      rw [hjob] at hi
      cases hi
    | deploy o =>
      rw [hjob, WebhookJob.calls, drop_deployCalls o (by omega)] at hdrop
      obtain ⟨rfl, -⟩ := List.cons.inj hdrop
      rw [store_abs hle] at hfree
      refine ⟨_, .call i _ calls _ hleft (apply_create.mpr ⟨hfree, rfl⟩), ?_⟩
      rw [left_abs_update hle _ i hnext]
      rfl
  | unlock i hi hstart hgate =>
    obtain ⟨c, calls, hleft, hdrop, hnext⟩ := exists_call hok (hstart.trans_le (by omega))
    cases hjob : jobs i with
    | deploy o =>
      rw [hjob] at hi
      cases hi
    | remove =>
      rw [hjob, WebhookJob.calls, hstart] at hdrop
      obtain ⟨rfl, -⟩ := List.cons.inj hdrop
      rw [store_abs le_rfl] at hgate
      refine ⟨_, .call i _ calls _ hleft (apply_delete.mpr ⟨hgate, rfl⟩), ?_⟩
      rw [left_abs_update le_rfl _ i (hnext.trans (congrArg (· + 1) hstart))]
  | delete i k hi hk hlt hthere =>
    obtain ⟨c, calls, hleft, hdrop, hnext⟩ := exists_call hok (hk.trans_le (by omega))
    cases hjob : jobs i with
    | deploy o =>
      rw [hjob] at hi
      cases hi
    | remove =>
      rw [hjob, WebhookJob.calls, hk, drop_removeCalls hlt] at hdrop
      obtain ⟨rfl, -⟩ := List.cons.inj hdrop
      rw [store_abs (by omega)] at hthere
      refine ⟨_, .call i _ calls _ hleft (apply_delete.mpr ⟨hthere, rfl⟩), ?_⟩
      rw [left_abs_update (by omega) _ i (hnext.trans (congrArg (· + 1) hk))]

/-- **The invariant of every run**, from an API server without the five objects. -/
theorem ApiSystem.run_inv {server : ApiServer} (hstart : NoWebhook namespaceName server)
    (h : Relation.ReflTransGen ApiSystem.Step (ApiSystem.start namespaceName jobs server) s) :
    s.Ok namespaceName jobs ∧ Gated.Inv 4 (fun i => (jobs i).role)
      (fun i m => (jobs i).object namespaceName m) (s.abs namespaceName) := by
  induction h with
  | refl =>
    refine ⟨fun i => .inr ⟨0, by omega, rfl⟩, ?_⟩
    have habs : (ApiSystem.start namespaceName jobs server).abs namespaceName =
        ⟨fun _ => none, fun _ => 0⟩ := by
      refine congrArg₂ Gated.State.mk (funext fun m => ?_) (funext fun i => ?_)
      · exact ite_eq_right_iff.mpr (hstart m)
      · exact Nat.sub_eq_zero_of_le (length_calls _).ge
    rw [habs]
    exact Gated.Inv.init
  | tail _ hstep ih => exact ⟨ih.1.step hstep, ih.2.step (ApiSystem.sim ih.1 hstep)⟩

/-- A run of builders and wreckers is one of the commands. -/
theorem ApiSystem.lift_run (hok : s.Ok namespaceName jobs) {a : Gated.State ι ApiObject}
    (h : Relation.ReflTransGen (Gated.Step 4 (fun i => (jobs i).role)
      (fun i m => (jobs i).object namespaceName m)) (s.abs namespaceName) a) :
    ∃ s', Relation.ReflTransGen ApiSystem.Step s s' ∧ s'.abs namespaceName = a := by
  suffices hrun : ∃ s' : ApiSystem ι, s'.Ok namespaceName jobs ∧ _ from
    hrun.imp fun _ => And.right
  induction h with
  | refl => exact ⟨s, hok, .refl, rfl⟩
  | tail _ hstep ih =>
    obtain ⟨s₁, hok₁, hrun, rfl⟩ := ih
    obtain ⟨s₂, hstep₂, rfl⟩ := ApiSystem.lift hok₁ hstep
    exact ⟨s₂, hok₁.step hstep₂, hrun.tail hstep₂, rfl⟩

/-- A run of the commands is a run of builders and wreckers. -/
theorem ApiSystem.sim_run (hok : s.Ok namespaceName jobs)
    (h : Relation.ReflTransGen ApiSystem.Step s s') :
    Relation.ReflTransGen (Gated.Step 4 (fun i => (jobs i).role)
      (fun i m => (jobs i).object namespaceName m)) (s.abs namespaceName)
        (s'.abs namespaceName) := by
  suffices hrun : s'.Ok namespaceName jobs ∧ _ from hrun.2
  induction h with
  | refl => exact ⟨hok, .refl⟩
  | tail _ hstep ih => exact ⟨ih.1.step hstep, ih.2.tail (ApiSystem.sim ih.1 hstep)⟩

/-! ## What is behind a webhook that is registered -/

/-- **The registration leads to a server that can answer**: its service is there and selects the
pods of the deployment, on the port of their configuration; they mount the secret whose certificate
the registration trusts, and every volume they mount is of an object that is there. -/
structure Wired (namespaceName : String) (server : ApiServer) (yamlDump : JsonValue → String)
    (registration : MutatingWebhookConfiguration) (deployment : Deployment) : Prop where
  deployed : server (webhookKey namespaceName 3) = some (.deployment deployment)
  service : ∃ service, server ⟨.service, some registration.serviceNamespace,
      registration.serviceName⟩ = some (.service service) ∧
    service.selector = deployment.templateLabels ∧
    getDefaultWebhookServerConfig.get? ["server", "port"] = some (.num service.targetPort)
  selects : deployment.matchLabels = deployment.templateLabels
  mounted : ∀ container ∈ deployment.spec.containers, ∀ mount ∈ container.volumeMounts,
    ∃ volume ∈ deployment.spec.volumes, volume.name = mount.name
  certificate : ∃ volume ∈ deployment.spec.volumes, ∃ secretName secret,
    volume.source = .secret secretName ∧
      server ⟨.secret, some namespaceName, secretName⟩ = some (.secret secret) ∧
      secret.data.lookup "cert.pem" = some registration.caBundle
  configured : ∃ volume ∈ deployment.spec.volumes, ∃ configmapName configMap,
    volume.source = .configMap configmapName ∧
      server ⟨.configMap, some namespaceName, configmapName⟩ = some (.configMap configMap) ∧
      configMap.data.lookup "server.yaml" = some (yamlDump getDefaultWebhookServerConfig) ∧
      configMap.data.lookup "mutations.yaml" = some (yamlDump getDefaultWebhookMutationsConfig)

omit [DecidableEq ι] in
/-- What one deployment creates is wired. -/
theorem wired_of_deployed {server : ApiServer} (o : DeployOptions)
    (h : ∀ m ≤ 4, server (webhookKey namespaceName m) =
      some (deployedObject namespaceName o m)) :
    ∃ registration, server (webhookKey namespaceName 4) = some (.registration registration) ∧
      Wired namespaceName server o.yamlDump registration (webhookDeployment o) := by
  refine ⟨_, h 4 le_rfl, h 3 (by omega), ⟨_, h 2 (by omega), rfl, rfl⟩, rfl, ?_, ?_, ?_⟩
  · intro container hcontainer mount hmount
    obtain rfl := List.mem_singleton.mp hcontainer
    simp only [hostProc, List.mem_cons, List.not_mem_nil, or_false] at hmount
    rcases hmount with rfl | rfl | rfl | rfl <;> simp [webhookDeployment]
  · exact ⟨⟨"certs", .secret "cmk-webhook-certs", true⟩, by simp [webhookDeployment], _, _, rfl,
      h 0 (by omega), rfl⟩
  · exact ⟨⟨"configmap", .configMap "cmk-webhook-configmap", true⟩, by simp [webhookDeployment], _,
      _, rfl, h 1 (by omega), rfl, rfl⟩

/-- Options of a deployment. -/
def someOptions : DeployOptions where
  installDir := "/opt/bin"
  saname := "cmk-serviceaccount"
  cmkImg := "cmk:v1.5.2"
  cafile := "/etc/ssl/ca.pem"
  insecure := "False"
  generateSecrets service namespaceName := (service ++ "." ++ namespaceName, "key")
  yamlDump := JsonValue.dumps

/-- A deployment and a removal. -/
def deployAndRemove (b : Bool) : WebhookJob := if b then .deploy someOptions else .remove

/-- An object is stranded: it is there without the registration, and nobody is going to delete it
before a deployment needs its place. -/
structure ApiSystem.Stranded (namespaceName : String) (jobs : ι → WebhookJob) (s : ApiSystem ι)
    (m : ℕ) : Prop where
  lt : m < 4
  there : s.server (webhookKey namespaceName m) ≠ none
  unregistered : s.server (webhookKey namespaceName 4) = none
  /-- Every deployment that is not at its end has still to create it. -/
  deployments : ∀ i o, jobs i = .deploy o → s.left i ≠ [] →
    .create (webhookKey namespaceName m) (deployedObject namespaceName o m) ∈ s.left i
  /-- No removal that has begun is going to delete it. -/
  removals : ∀ i, jobs i = .remove → s.left i ≠ removeCalls namespaceName →
    .delete (webhookKey namespaceName m) ∉ s.left i

theorem mem_drop_range {k m : ℕ} (n : ℕ) : m ∈ (List.range n).drop k ↔ k ≤ m ∧ m < n := by
  rw [List.range_eq_range', List.drop_range', List.mem_range']
  constructor
  · rintro ⟨i, hi, rfl⟩
    omega
  · rintro ⟨hk, hm⟩
    exact ⟨m - k, by omega, by omega⟩

theorem mem_drop_deployCalls (o : DeployOptions) {k m : ℕ} (hm : m < 5) :
    .create (webhookKey namespaceName m) (deployedObject namespaceName o m) ∈
      (deployCalls namespaceName o).drop k ↔ k ≤ m := by
  rw [deployCalls, ← List.map_drop, List.mem_map]
  constructor
  · rintro ⟨m', hm', heq⟩
    rw [mem_drop_range] at hm'
    obtain rfl := webhookKey_inj (by omega) (by omega) (ApiCall.create.inj heq).1
    exact hm'.1
  · intro hk
    exact ⟨m, (mem_drop_range 5).mpr ⟨hk, hm⟩, rfl⟩

theorem mem_drop_removeCalls {k m : ℕ} (hm : m < 4) :
    .delete (webhookKey namespaceName m) ∈ (removeCalls namespaceName).drop (k + 1) ↔ k ≤ m := by
  rw [removeCalls, List.drop_succ_cons, ← List.map_drop, List.mem_map]
  constructor
  · rintro ⟨m', hm', heq⟩
    rw [mem_drop_range] at hm'
    obtain rfl := webhookKey_inj (by omega) (by omega) (ApiCall.delete.inj heq)
    exact hm'.1
  · intro hk
    exact ⟨m, (mem_drop_range 4).mpr ⟨hk, hm⟩, rfl⟩

omit [DecidableEq ι] in
theorem ApiSystem.stranded_abs (hok : s.Ok namespaceName jobs) {m : ℕ} :
    Gated.Stranded 4 (fun i => (jobs i).role) (s.abs namespaceName) m ↔
      s.Stranded namespaceName jobs m := by
  constructor
  · rintro ⟨hlt, hthere, hgate, hbuilders, hwreckers⟩
    rw [store_abs (by omega)] at hthere
    rw [store_abs le_rfl] at hgate
    refine ⟨hlt, hthere, hgate, fun i o hjob hon => ?_, fun i hjob hbegun hmem => ?_⟩
    · obtain ⟨c, calls, hi⟩ := List.exists_cons_of_ne_nil hon
      obtain ⟨k, hk, hdrop, -, hat, -⟩ := hok.of_cons hi
      rw [hi, ← hdrop, hjob, WebhookJob.calls, mem_drop_deployCalls o (by omega)]
      rcases Nat.eq_zero_or_pos k with rfl | hpos
      · exact Nat.zero_le m
      · exact hat ▸ hbuilders i (by rw [hjob]; rfl) ⟨by omega, by omega⟩
    · obtain ⟨c, calls, hi⟩ := List.exists_cons_of_ne_nil (List.ne_nil_of_mem hmem)
      obtain ⟨k, hk, hdrop, -, hat, -⟩ := hok.of_cons hi
      rw [hjob, WebhookJob.calls] at hdrop
      cases k with
      | zero => exact hbegun (hi.trans hdrop.symm)
      | succ k =>
        rw [hi, ← hdrop, mem_drop_removeCalls hlt] at hmem
        have := hwreckers i (by rw [hjob]; rfl) ⟨by omega, by omega⟩
        omega
  · rintro ⟨hlt, hthere, hgate, hdeployments, hremovals⟩
    refine ⟨hlt, by rwa [store_abs (by omega)], by rwa [store_abs le_rfl],
      fun i hrole hactive => ?_, fun i hrole hactive => ?_⟩
    · have hon : s.left i ≠ [] := fun hnil => by simp [ApiSystem.abs, hnil, Gated.Active] at hactive
      obtain ⟨c, calls, hi⟩ := List.exists_cons_of_ne_nil hon
      obtain ⟨k, hk, hdrop, -, hat, -⟩ := hok.of_cons hi
      cases hjob : jobs i with
      | remove =>
        rw [hjob] at hrole
        cases hrole
      | deploy o =>
        have hmem := hdeployments i o hjob hon
        rw [hi, ← hdrop, hjob, WebhookJob.calls, mem_drop_deployCalls o (by omega)] at hmem
        exact hat ▸ hmem
    · have hon : s.left i ≠ [] := fun hnil => by simp [ApiSystem.abs, hnil, Gated.Active] at hactive
      obtain ⟨c, calls, hi⟩ := List.exists_cons_of_ne_nil hon
      obtain ⟨k, hk, hdrop, -, hat, -⟩ := hok.of_cons hi
      cases hjob : jobs i with
      | deploy o =>
        rw [hjob] at hrole
        cases hrole
      | remove =>
        rw [hjob, WebhookJob.calls] at hdrop
        cases k with
        | zero => exact absurd hactive.1 (by omega)
        | succ k =>
          have hbegun : s.left i ≠ removeCalls namespaceName := fun heq => by
            have hlength := congrArg List.length heq
            rw [hi, ← hdrop, List.length_drop] at hlength
            have hfive : (removeCalls namespaceName).length = 5 := rfl
            omega
          have hmem := hremovals i hjob hbegun
          rw [hi, ← hdrop, mem_drop_removeCalls hlt] at hmem
          omega

end Cmk
