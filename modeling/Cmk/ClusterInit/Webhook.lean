import Cmk.ClusterInit.Templates
import Cmk.Webhook.Idempotent

/-!
# ClusterInit/Webhook — the webhook as `cluster-init` deploys it and `uninstall` removes it

`deploy_webhook` creates a secret, a configmap, a service and a deployment, and the registration of
the webhook last; `remove_webhook_resources` deletes the registration first and then the others in
the order in which they were created.  Both stop at the first call that is refused
(`deployWebhook_eq`, `removeWebhookResources_eq`).
-/

open Machinery

namespace Cmk

/-! ## The objects -/

structure Secret where
  data : List (String × String)
  type : String
deriving DecidableEq

structure WebhookConfigMap where
  annotations : List (String × String)
  data : List (String × String)
deriving DecidableEq

structure Service where
  labels : List (String × String)
  selector : List (String × String)
  port : ℕ
  targetPort : ℕ
deriving DecidableEq

structure WebhookRule where
  apiGroups : List String
  apiVersions : List String
  operations : List String
  resources : List String
deriving DecidableEq

structure MutatingWebhookConfiguration where
  labels : List (String × String)
  webhookName : String
  caBundle : String
  serviceName : String
  serviceNamespace : String
  path : String
  failurePolicy : String
  rules : List WebhookRule
deriving DecidableEq

inductive ApiObject
  | secret (o : Secret)
  | configMap (o : WebhookConfigMap)
  | service (o : Service)
  | deployment (o : Deployment)
  | registration (o : MutatingWebhookConfiguration)

inductive ObjectKind
  | secret
  | configMap
  | service
  | deployment
  | registration
deriving DecidableEq

/-- A registration is in no namespace. -/
structure ObjectKey where
  kind : ObjectKind
  namespaceName : Option String
  name : String
deriving DecidableEq

/-! ## The calls -/

abbrev ApiServer := ObjectKey → Option ApiObject

inductive ApiCall
  | create (key : ObjectKey) (o : ApiObject)
  | delete (key : ObjectKey)

/-- The API server refuses to create what is there and to delete what is not. -/
def ApiCall.apply (server : ApiServer) : ApiCall → Option ApiServer
  | .create key o =>
    if (server key).isSome then none else some (Function.update server key (some o))
  | .delete key => if (server key).isSome then some (Function.update server key none) else none

def ApiCall.key : ApiCall → ObjectKey
  | .create key _ => key
  | .delete key => key

/-- A command at work on the API server. -/
abbrev ApiM := ExceptT PyErr (StateM ApiServer)

/-- A call in `try … except K8sApiException: sys.exit(1)`; it may be refused for other reasons. -/
def ApiCall.run (refuses : ObjectKey → Bool) (c : ApiCall) : ApiM Unit :=
  ExceptT.mk fun server =>
    match if refuses c.key then none else c.apply server with
    | none => (.error (.systemExit 1), server)
    | some server' => (.ok (), server')

def runCalls (refuses : ObjectKey → Bool) : List ApiCall → ApiM Unit
  | [] => pure ()
  | c :: calls => do
    c.run refuses
    runCalls refuses calls

/-! ## `deploy_webhook` -/

/-- What `deploy_webhook` is given beside the namespace, `generate_secrets` and `yaml.dump` with it.
-/
structure DeployOptions where
  installDir : String
  saname : String
  cmkImg : String
  cafile : String
  insecure : String
  generateSecrets : String → String → String × String
  yamlDump : JsonValue → String

def getDefaultWebhookServerConfig : JsonValue :=
  .obj [("server", .obj [("binding-address", .str "0.0.0.0"), ("port", .num 8443),
    ("cert", .str "/etc/ssl/cert.pem"), ("key", .str "/etc/ssl/key.pem"),
    ("mutations", .str "/etc/webhook/mutations.yaml")])]

def updateService (app : String) (port : ℕ) : Service :=
  ⟨[("app", app)], [("app", app)], 443, port⟩

def updateMutatingwebhookconfiguration (app webhookName cert service path namespaceName
    failurePolicy : String) : MutatingWebhookConfiguration :=
  ⟨[("app", app)], webhookName, cert, service, namespaceName, path, failurePolicy,
    [⟨[""], ["v1"], ["CREATE"], ["pods"]⟩]⟩

def PodTemplate.updatePodWithWebhookContainer (pod : PodTemplate)
    (cmkImg configmapName secretName cafile insecure : String) : Except PyErr PodTemplate := do
  let container ← getContainerTemplate "webhook"
  let args := "/cmk/cmk.py webhook --conf-file /etc/webhook/server.yaml --cafile " ++ cafile ++
    " --insecure " ++ insecure
  let container := { container with
    args := [args], image := cmkImg, name := "cmk-webhook",
    volumeMounts := container.volumeMounts ++
      [⟨"/etc/webhook", "configmap", false⟩, ⟨"/etc/ssl", "certs", true⟩] }
  return { pod with spec := { pod.spec with
    volumes := pod.spec.volumes ++ [⟨"configmap", .configMap configmapName, true⟩,
      ⟨"certs", .secret secretName, true⟩],
    tolerations := [("operator", "Exists")],
    containers := pod.spec.containers ++ [container],
    nodeName := none } }

def deployWebhook (refuses : ObjectKey → Bool) (namespaceName : String) (o : DeployOptions) :
    ApiM Unit := do
  let create (key : ObjectKey) (object : ApiObject) : ApiM Unit :=
    (ApiCall.create key object).run refuses
  let serviceName := "cmk-webhook-service"
  let (cert, key) := o.generateSecrets serviceName namespaceName
  let appName := "cmk-webhook-app"
  let secretName := "cmk-webhook-certs"
  create ⟨.secret, some namespaceName, secretName⟩
    (.secret ⟨[("cert.pem", cert), ("key.pem", key)], "Opaque"⟩)
  let configmapName := "cmk-webhook-configmap"
  create ⟨.configMap, some namespaceName, configmapName⟩
    (.configMap ⟨[("Owner", "")], [("server.yaml", o.yamlDump getDefaultWebhookServerConfig),
      ("mutations.yaml", o.yamlDump getDefaultWebhookMutationsConfig)]⟩)
  create ⟨.service, some namespaceName, serviceName⟩ (.service (updateService appName 8443))
  let pod := (getPodTemplate "cmk-serviceaccount").updatePodWithMetadata "cmk-webhook-pod" appName
  let deployment ← liftExcept <|
    pod.updatePodWithWebhookContainer o.cmkImg configmapName secretName o.cafile o.insecure >>=
      fun pod => deploymentFrom (pod.updatePodWithRestartPolicy "Always")
  create ⟨.deployment, some namespaceName, deployment.name⟩ (.deployment deployment)
  create ⟨.registration, none, "cmk-webhook-config"⟩
    (.registration (updateMutatingwebhookconfiguration appName "cmk.intel.com" cert serviceName
      "/mutate" namespaceName "Ignore"))

def removeWebhookResources (refuses : ObjectKey → Bool) (kubeVersion : Except PyErr (List ℕ))
    (namespaceName : String) : ApiM Unit := do
  let delete (key : ObjectKey) : ApiM Unit := (ApiCall.delete key).run refuses
  let version ← liftExcept kubeVersion
  if [1, 9] ≤ version then
    delete ⟨.registration, none, "cmk-webhook-config"⟩
    delete ⟨.secret, some namespaceName, "cmk-webhook-certs"⟩
    delete ⟨.configMap, some namespaceName, "cmk-webhook-configmap"⟩
    delete ⟨.service, some namespaceName, "cmk-webhook-service"⟩
    delete ⟨.deployment, some namespaceName, "cmk-webhook-deployment"⟩

/-! ## The commands as lists of calls -/

/-- The keys of the five objects, in the order in which they are created. -/
def webhookKey (namespaceName : String) : ℕ → ObjectKey
  | 0 => ⟨.secret, some namespaceName, "cmk-webhook-certs"⟩
  | 1 => ⟨.configMap, some namespaceName, "cmk-webhook-configmap"⟩
  | 2 => ⟨.service, some namespaceName, "cmk-webhook-service"⟩
  | 3 => ⟨.deployment, some namespaceName, "cmk-webhook-deployment"⟩
  | _ => ⟨.registration, none, "cmk-webhook-config"⟩

def webhookDeployment (o : DeployOptions) : Deployment where
  name := "cmk-webhook-deployment"
  labels := [("app", "cmk-webhook-app")]
  replicas := 1
  matchLabels := [("app", "cmk-webhook-app")]
  templateLabels := [("app", "cmk-webhook-app")]
  spec :=
    { serviceAccount := "cmk-serviceaccount", serviceAccountName := none, nodeName := none,
      containers := [{
        args := ["/cmk/cmk.py webhook --conf-file /etc/webhook/server.yaml --cafile " ++ o.cafile ++
          " --insecure " ++ o.insecure],
        command := ["/bin/bash", "-c"], env := containerEnv, image := o.cmkImg,
        name := "cmk-webhook", securityContext := unprivileged false,
        volumeMounts := [hostProc, ⟨"/opt/bin", "cmk-install-dir", true⟩,
          ⟨"/etc/webhook", "configmap", false⟩, ⟨"/etc/ssl", "certs", true⟩],
        imagePullPolicy := "Never" }],
      initContainers := [], restartPolicy := "Always",
      volumes := [⟨"host-proc", .hostPath "/proc", false⟩,
        ⟨"cmk-install-dir", .hostPath "/opt/bin", false⟩,
        ⟨"configmap", .configMap "cmk-webhook-configmap", true⟩,
        ⟨"certs", .secret "cmk-webhook-certs", true⟩],
      tolerations := [("operator", "Exists")], imagePullSecrets := [] }

/-- What a deployment creates under each of them. -/
def deployedObject (namespaceName : String) (o : DeployOptions) : ℕ → ApiObject
  | 0 => .secret ⟨[("cert.pem", (o.generateSecrets "cmk-webhook-service" namespaceName).1),
      ("key.pem", (o.generateSecrets "cmk-webhook-service" namespaceName).2)], "Opaque"⟩
  | 1 => .configMap ⟨[("Owner", "")], [("server.yaml", o.yamlDump getDefaultWebhookServerConfig),
      ("mutations.yaml", o.yamlDump getDefaultWebhookMutationsConfig)]⟩
  | 2 => .service (updateService "cmk-webhook-app" 8443)
  | 3 => .deployment (webhookDeployment o)
  | _ => .registration (updateMutatingwebhookconfiguration "cmk-webhook-app" "cmk.intel.com"
      (o.generateSecrets "cmk-webhook-service" namespaceName).1 "cmk-webhook-service" "/mutate"
      namespaceName "Ignore")

def deployCalls (namespaceName : String) (o : DeployOptions) : List ApiCall :=
  (List.range 5).map fun m =>
    .create (webhookKey namespaceName m) (deployedObject namespaceName o m)

def removeCalls (namespaceName : String) : List ApiCall :=
  .delete (webhookKey namespaceName 4) ::
    (List.range 4).map fun m => .delete (webhookKey namespaceName m)

theorem lookup_webhook : containerVolumeMounts.lookup "webhook" =
    some ([hostProc, ⟨"/opt/bin", "cmk-install-dir", true⟩], unprivileged false) := by
  rfl

theorem webhookDeployment_eq (o : DeployOptions) :
    (((getPodTemplate "cmk-serviceaccount").updatePodWithMetadata "cmk-webhook-pod"
      "cmk-webhook-app").updatePodWithWebhookContainer o.cmkImg "cmk-webhook-configmap"
        "cmk-webhook-certs" o.cafile o.insecure >>= fun pod =>
          deploymentFrom (pod.updatePodWithRestartPolicy "Always")) =
      .ok (webhookDeployment o) := by
  have hname : String.ofList (deploymentName "cmk-webhook-pod".toList) =
      "cmk-webhook-deployment" := by decide
  simp only [PodTemplate.updatePodWithWebhookContainer, getContainerTemplate, lookup_webhook,
    PodTemplate.updatePodWithMetadata, getPodTemplate, deploymentFrom,
    PodTemplate.updatePodWithRestartPolicy, webhookDeployment, hname, bind, Except.bind, pure,
    Except.pure]
  rfl

/-- **`deploy_webhook` is its five calls**, one after another. -/
theorem deployWebhook_eq (refuses : ObjectKey → Bool) (namespaceName : String)
    (o : DeployOptions) :
    deployWebhook refuses namespaceName o =
      runCalls refuses (deployCalls namespaceName o) := by
  have hcalls : deployCalls namespaceName o = [0, 1, 2, 3, 4].map fun m =>
      .create (webhookKey namespaceName m) (deployedObject namespaceName o m) := rfl
  have hlift : (liftExcept (.ok (webhookDeployment o) : Except PyErr _) : ApiM Deployment) =
      pure (webhookDeployment o) := rfl
  simp only [hcalls, List.map_cons, List.map_nil, runCalls, bind_pure_unit,
    deployWebhook, webhookDeployment_eq, hlift, pure_bind]
  rfl

theorem removeWebhookResources_eq (refuses : ObjectKey → Bool) (namespaceName : String)
    {kubeVersion : Except PyErr (List ℕ)} {version : List ℕ} (h : kubeVersion = .ok version)
    (hv : [1, 9] ≤ version) :
    removeWebhookResources refuses kubeVersion namespaceName =
      runCalls refuses (removeCalls namespaceName) := by
  have hcalls : removeCalls namespaceName =
      [4, 0, 1, 2, 3].map fun m => .delete (webhookKey namespaceName m) := rfl
  have hlift : (liftExcept (.ok version : Except PyErr _) : ApiM (List ℕ)) = pure version := rfl
  simp only [hcalls, List.map_cons, List.map_nil, runCalls, bind_pure_unit,
    removeWebhookResources, h, hlift, pure_bind, if_pos hv]
  rfl

end Cmk
