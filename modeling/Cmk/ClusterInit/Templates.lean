import Cmk.ClusterInit.Names
import Cmk.Machinery.JsonText

/-!
# ClusterInit/Templates — the pods, DaemonSets and Deployments that are sent to the API server

A pod starts as the template of `get_pod_template` and is updated field by field; a container starts
as the template of its command, with the mounts and the security context of
`CONTAINER_VOLUME_MOUNTS`.  `ds_from` and `deployment_from` wrap the pod's `spec` under a name of
their own, and under the labels by which the pods of a DaemonSet are found again.
-/

open Machinery

namespace Cmk

/-! ## Containers -/

/-- `readOnly` is left out where it is not set. -/
structure VolumeMount where
  mountPath : String
  name : String
  readOnly : Bool
deriving DecidableEq

structure ContainerTemplate where
  args : List String
  command : List String
  env : JsonValue
  image : String
  name : String
  securityContext : JsonValue
  volumeMounts : List VolumeMount
  imagePullPolicy : String

/-- The security context of the commands that do not write to the host. -/
def unprivileged (readOnlyRoot : Bool) : JsonValue :=
  .obj ((if readOnlyRoot then [("readOnlyRootFilesystem", .bool true)] else []) ++
    [("runAsNonRoot", .bool true), ("runAsUser", .num 1000), ("runAsGroup", .num 3000),
      ("fsGroup", .num 2000)])

def hostProc : VolumeMount := ⟨"/host/proc", "host-proc", true⟩

/-- `CONTAINER_VOLUME_MOUNTS`: the mounts and the security context of a command. -/
def containerVolumeMounts : List (String × List VolumeMount × JsonValue) :=
  [("init", [hostProc], unprivileged true),
    ("install", [⟨"/opt/bin", "cmk-install-dir", false⟩], .obj [("privileged", .bool true)]),
    ("discover", [], unprivileged true),
    ("reconcile", [hostProc, ⟨"/opt/bin", "cmk-install-dir", true⟩], unprivileged true),
    ("nodereport", [hostProc, ⟨"/opt/bin", "cmk-install-dir", true⟩], unprivileged true),
    ("webhook", [hostProc, ⟨"/opt/bin", "cmk-install-dir", true⟩], unprivileged false),
    ("reconfigure", [hostProc], unprivileged true)]

/-- The environment of every container. -/
def containerEnv : JsonValue :=
  .arr [.obj [("name", .str "CMK_PROC_FS"), ("value", .str "/host/proc")],
    .obj [("name", .str "NODE_NAME"), ("valueFrom", .obj [("fieldRef",
      .obj [("fieldPath", .str "spec.nodeName")])])]]

def getContainerTemplate (cmd : String) : Except PyErr ContainerTemplate :=
  match containerVolumeMounts.lookup cmd with
  | none => .error (.keyError none)
  | some (mounts, context) => .ok
    { args := ["ARGS"], command := ["/bin/bash", "-c"], env := containerEnv, image := "IMAGENAME",
      name := "NAME", securityContext := context, volumeMounts := mounts,
      imagePullPolicy := "Never" }

def VolumeMount.toJson (m : VolumeMount) : JsonValue :=
  .obj ([("mountPath", .str m.mountPath), ("name", .str m.name)] ++
    if m.readOnly then [("readOnly", .bool true)] else [])

/-- The container as the dictionary it is. -/
def ContainerTemplate.toJson (c : ContainerTemplate) : JsonValue :=
  .obj [("args", .arr (c.args.map .str)), ("command", .arr (c.command.map .str)), ("env", c.env),
    ("image", .str c.image), ("name", .str c.name), ("securityContext", c.securityContext),
    ("volumeMounts", .arr (c.volumeMounts.map VolumeMount.toJson)),
    ("imagePullPolicy", .str c.imagePullPolicy)]

/-! ## Pods -/

inductive VolumeSource
  | hostPath (path : String)
  | configMap (name : String)
  | secret (secretName : String)
deriving DecidableEq

structure Volume where
  name : String
  source : VolumeSource
  readOnly : Bool
deriving DecidableEq

/-- What is not in the template is `none` or empty until it is set. -/
structure PodSpec where
  serviceAccount : String
  serviceAccountName : Option String
  nodeName : Option String
  containers : List ContainerTemplate
  initContainers : List ContainerTemplate
  restartPolicy : String
  volumes : List Volume
  tolerations : List (String × String)
  imagePullSecrets : List String

structure PodTemplate where
  name : String
  annotations : List (String × String)
  labels : Option (List (String × String))
  spec : PodSpec

def getPodTemplate (saname : String) : PodTemplate where
  name := "PODNAME"
  annotations := []
  labels := none
  spec :=
    { serviceAccount := saname, serviceAccountName := none, nodeName := some "NODENAME",
      containers := [], initContainers := [], restartPolicy := "Never",
      volumes := [⟨"host-proc", .hostPath "/proc", false⟩,
        ⟨"cmk-install-dir", .hostPath "/opt/bin", false⟩],
      tolerations := [], imagePullSecrets := [] }

namespace PodTemplate

variable (pod : PodTemplate)

def updatePod (restartPol installDir serviceaccount : String) : PodTemplate :=
  { pod with spec := { pod.spec with
      serviceAccountName := some serviceaccount, restartPolicy := restartPol,
      volumes := pod.spec.volumes.modify 1 fun v => { v with source := .hostPath installDir } } }

def updatePodWithNodeDetails (nodeName : String) (cmdList : List String) : PodTemplate :=
  { pod with name := podName cmdList nodeName, spec := { pod.spec with nodeName := some nodeName } }

def updatePodWithPullSecret (pullSecret : String) : PodTemplate :=
  { pod with spec := { pod.spec with imagePullSecrets := [pullSecret] } }

def updatePodWithMetadata (name app : String) : PodTemplate :=
  { pod with name := name, labels := some [("app", app)] }

def updatePodWithRestartPolicy (restartPol : String) : PodTemplate :=
  { pod with spec := { pod.spec with restartPolicy := restartPol } }

end PodTemplate

/-- The template of a command with its image and its arguments. -/
def containerOf (cmd cmkImg cmkImgPol args : String) : Except PyErr ContainerTemplate := do
  let container ← getContainerTemplate cmd
  return { container with
    image := cmkImg, imagePullPolicy := cmkImgPol, args := container.args.set 0 args, name := cmd }

def PodTemplate.updatePodWithContainer (pod : PodTemplate) (cmd cmkImg cmkImgPol args : String) :
    Except PyErr PodTemplate := do
  let container ← containerOf cmd cmkImg cmkImgPol args
  return { pod with spec := { pod.spec with containers := pod.spec.containers ++ [container] } }

def initContainersKey : String := "pod.beta.kubernetes.io/init-containers"

/-- The annotation that init containers are in before they have a field of their own. -/
def annotatedContainers (annotations : List (String × String)) :
    Except PyErr (List JsonValue) :=
  match annotations.lookup initContainersKey with
  | none => .ok []
  | some text =>
    match JsonValue.loads? text with
    | none => .error (.valueError none)
    | some (.arr containers) => .ok containers
    | some _ => .error .attributeError

/-- `annotations[key] = text`. -/
def annotate (annotations : List (String × String)) (key text : String) :
    List (String × String) :=
  if annotations.any fun a => a.1 = key then
    annotations.map fun a => if a.1 = key then (key, text) else a
  else annotations ++ [(key, text)]

def PodTemplate.updatePodWithInitContainer (pod : PodTemplate) (version : List ℕ)
    (cmd cmkImg cmkImgPol args : String) : Except PyErr PodTemplate := do
  let container ← containerOf cmd cmkImg cmkImgPol args
  if [1, 7] ≤ version then
    return { pod with spec := { pod.spec with initContainers := [container] } }
  else do
    let containers ← annotatedContainers pod.annotations
    let text := JsonValue.dumps (.arr (containers ++ [container.toJson]))
    return { pod with annotations := annotate pod.annotations initContainersKey text }

/-! ## DaemonSets and Deployments -/

structure DaemonSet where
  apiVersion : String
  name : String
  selector : Option (List (String × String))
  labels : List (String × String)
  spec : PodSpec

def dsFrom (pod : PodTemplate) (version : List ℕ) : DaemonSet :=
  let name := String.ofList (replacePod pod.name.toList)
  if [1, 9] ≤ version then ⟨"apps/v1", name, some [("app", name)], [("app", name)], pod.spec⟩
  else ⟨"extensions/v1beta1", name, none, [("app", name)], pod.spec⟩

structure Deployment where
  name : String
  labels : List (String × String)
  replicas : ℕ
  matchLabels : List (String × String)
  templateLabels : List (String × String)
  spec : PodSpec

/-- `name.replace("pod", "deployment")`. -/
def deploymentName : List Char → List Char
  | 'p' :: 'o' :: 'd' :: cs => "deployment".toList ++ deploymentName cs
  | c :: cs => c :: deploymentName cs
  | [] => []

/-- A pod without labels misses a key. -/
def deploymentFrom (pod : PodTemplate) : Except PyErr Deployment :=
  match pod.labels with
  | none => .error (.keyError none)
  | some labels => .ok ⟨String.ofList (deploymentName pod.name.toList), labels, 1, labels, labels,
      pod.spec⟩

end Cmk
