import Cmk.Machinery.JsonText
import Cmk.Machinery.Merge
import Cmk.Python.Json

/-!
# Webhook — the pods that the admission webhook changes

`mutate` asks whether a container of the pod wants exclusive cores, merges the part of the mutations
for pods into the pod and the part for containers into each container, and adds the number of cores
to the environment of those that ask for some.  The file of mutations is read once more for each
container; a key that is missing ends the loop over the init containers, and what is done stays.
-/

open Machinery

namespace Cmk

/-- How JSON trees are merged; `none` is a `YamlReaderError`. -/
abbrev Merge := JsonValue → JsonValue → Option JsonValue

/-- What `merge(x, y)` leaves of `x`: its value is discarded, and a scalar does not change. -/
def mergeInPlace (merge : Merge) (x y : JsonValue) : Option JsonValue :=
  (merge x y).map fun merged => if x.isScalar then x else merged

def cmkErName : List String :=
  ["cmk.intel.com/exclusive-cores", "cmk.intel.com/exclusive-non-isolcpus-cores"]

def cmkMutateAnnotation : String := "cmk.intel.com/mutate"

def envNumCores : String := "CMK_NUM_CORES"

/-! ## Is it required? -/

/-- `container['resources'][part][er]`. -/
def resourceAt (container : JsonValue) (part er : String) : Except PyErr JsonValue := do
  let resources ← itemAt container "resources"
  let amounts ← itemAt resources part
  itemAt amounts er

/-- The two parts for the one name, then for the other. -/
def asksFor (container : JsonValue) : List (String × String) → Except PyErr Bool
  | [] => .ok false
  | (part, er) :: places => do
    let amount ← exceptKeyError (resourceAt container part er) (.ok .null)
    if isNone amount then asksFor container places else .ok true

def isContainerMutationRequired (container : JsonValue) : Except PyErr Bool :=
  asksFor container (cmkErName.flatMap fun er => [("requests", er), ("limits", er)])

/-- The first container that asks. -/
def anyRequired : List JsonValue → Except PyErr Bool
  | [] => .ok false
  | container :: containers => do
    if ← isContainerMutationRequired container then .ok true else anyRequired containers

/-- Whether the annotation is there with an accepted value. -/
def isAnnotated (pod : JsonValue) : Except PyErr Bool :=
  exceptKeyError (do
    let metadata ← itemAt pod "metadata"
    let annotations ← itemAt metadata "annotations"
    let value ← itemAt annotations cmkMutateAnnotation
    return ["true", "True", "1"].any fun text => isText text value) (.ok false)

def isMutationRequired (pod : JsonValue) : Except PyErr Bool := do
  let spec ← itemAt pod "spec"
  let containers ← itemAt spec "containers" >>= itemsOf
  if ← anyRequired containers then .ok true else isAnnotated pod

/-! ## Mutating a container -/

/-- The file as `yaml_load` reads it; `none` is a `YamlReaderError`. -/
def loadMutations (file : Option JsonValue) : Except PyErr JsonValue :=
  match file with
  | none => .error (.systemExit 1)
  | some config => getOr config "mutations" (.obj [])

/-- A container after a step, and the outcome. -/
abbrev ContainerStep := Except PyErr Unit × JsonValue

/-- The names of the entries of an environment. -/
def envNames : List JsonValue → Except PyErr (List JsonValue)
  | [] => .ok []
  | env :: envs => do
    let name ← itemAt env "name"
    let names ← envNames envs
    return name :: names

def envEntry (name : String) (value : JsonValue) : JsonValue :=
  .obj [("name", .str name), ("value", value)]

/-- `container['env'].append(entry)`. -/
def appendEnv (container env entry : JsonValue) : ContainerStep :=
  match env with
  | .arr envs =>
    match putAt "env" (.arr (envs ++ [entry])) container with
    | .ok container => (.ok (), container)
    | .error e => (.error e, container)
  | _ => (.error .attributeError, container)

def injectEnv (container : JsonValue) (name : String) (value : JsonValue) : ContainerStep :=
  match exceptKeyError ((itemAt container "env").map some) (.ok none) with
  | .error e => (.error e, container)
  | .ok none => appendEnv container (.arr []) (envEntry name value)
  | .ok (some env) =>
    match itemsOf env >>= envNames with
    | .error e => (.error e, container)
    | .ok names =>
      if names.any (isText name) then (.ok (), container)
      else appendEnv container env (envEntry name value)

/-- The number of cores of the first resource that is requested or limited; what is not is logged
with the name of the container. -/
def numCores (container : JsonValue) : List String → Except PyErr JsonValue
  | [] => .ok .null
  | er :: ers => do
    let amount ← exceptKeyError (resourceAt container "requests" er) (do
      let _ ← itemAt container "name"
      exceptKeyError (resourceAt container "limits" er) (do
        let _ ← itemAt container "name"
        return .null))
    if isNone amount then numCores container ers else .ok amount

def applyMutation (merge : Merge) (container mutations : JsonValue) : ContainerStep :=
  match getOr mutations "perContainer" (.obj []) with
  | .error e => (.error e, container)
  | .ok perContainer =>
    match mergeInPlace merge container perContainer with
    | none => (.error .mutationError, container)
    | some container =>
      match numCores container cmkErName with
      | .error e => (.error e, container)
      | .ok amount =>
        if isNone amount then (.ok (), container) else injectEnv container envNumCores amount

/-- One round of the loops over the containers. -/
def mutateContainer (merge : Merge) (file : Option JsonValue) (container : JsonValue) :
    ContainerStep :=
  match loadMutations file with
  | .error e => (.error e, container)
  | .ok mutations => applyMutation merge container mutations

/-! ## Mutating a pod -/

/-- The containers after the rounds up to the first that raises. -/
def mutateAll (merge : Merge) (file : Option JsonValue) :
    List JsonValue → Except PyErr Unit × List JsonValue
  | [] => (.ok (), [])
  | container :: containers =>
    match mutateContainer merge file container with
    | (.error e, container) => (.error e, container :: containers)
    | (.ok (), container) =>
      ((mutateAll merge file containers).1, container :: (mutateAll merge file containers).2)

/-- `pod['spec'][key]`, where it is a list. -/
def containersAt (pod : JsonValue) (key : String) : Except PyErr (List JsonValue) := do
  let spec ← itemAt pod "spec"
  match ← itemAt spec key with
  | .arr containers => .ok containers
  | .obj (_ :: _) => .error (.keyError none)
  | .obj [] => .ok []
  | .str "" => .ok []
  | _ => .error .typeError

/-- The pod with these containers in place of those it has. -/
def withContainers (pod : JsonValue) (key : String) (containers : List JsonValue) : JsonValue :=
  (JsonValue.add ["spec", key] (.arr containers) pod).getD pod

def mutateContainers (merge : Merge) (file : Option JsonValue) (pod : JsonValue) :
    Except PyErr JsonValue := do
  let containers ← containersAt pod "containers"
  match mutateAll merge file containers with
  | (.error e, _) => .error e
  | (.ok (), containers) => .ok (withContainers pod "containers" containers)

/-- A key that is missing ends the loop, and the pod stays as it is by then. -/
def mutateInitContainers (merge : Merge) (file : Option JsonValue) (pod : JsonValue) :
    Except PyErr JsonValue :=
  match containersAt pod "initContainers" with
  | .error (.keyError _) => .ok pod
  | .error e => .error e
  | .ok containers =>
    match mutateAll merge file containers with
    | (.error (.keyError _), containers) => .ok (withContainers pod "initContainers" containers)
    | (.error e, _) => .error e
    | (.ok (), containers) => .ok (withContainers pod "initContainers" containers)

def mutatePod (merge : Merge) (file : Option JsonValue) (pod : JsonValue) :
    Except PyErr JsonValue := do
  let mutations ← loadMutations file
  let perPod ← getOr mutations "perPod" (.obj [])
  match mergeInPlace merge pod perPod with
  | none => .error .mutationError
  | some pod => mutateContainers merge file pod >>= mutateInitContainers merge file

/-! ## Answering a review -/

def replacement (path : String) (value : JsonValue) : JsonValue :=
  .obj [("op", .str "replace"), ("path", .str path), ("value", value)]

def generatePatch (pod : JsonValue) : Except PyErr JsonValue := do
  let metadata ← itemAt pod "metadata"
  let spec ← itemAt pod "spec"
  return .arr [replacement "/metadata" metadata, replacement "/spec" spec]

def base64Digit (n : ℕ) : Char :=
  "ABCDEFGHIJKLMNOPQRSTUVWXYZabcdefghijklmnopqrstuvwxyz0123456789+/".toList.getD n '='

/-- `base64.b64encode`, three bytes at a time. -/
def b64encode : List ℕ → List Char
  | [] => []
  | [a] => [base64Digit (a / 4), base64Digit (a % 4 * 16), '=', '=']
  | [a, b] =>
    [base64Digit (a / 4), base64Digit (a % 4 * 16 + b / 16), base64Digit (b % 16 * 4), '=']
  | a :: b :: c :: bytes => base64Digit (a / 4) :: base64Digit (a % 4 * 16 + b / 16) ::
      base64Digit (b % 16 * 4 + c / 64) :: base64Digit (c % 64) :: b64encode bytes

/-- A patch is written in ASCII, so its bytes are its characters. -/
def encodePatch (patch : JsonValue) : String :=
  String.ofList (b64encode (patch.text.map Char.toNat))

/-- The pod of a review. -/
def podOf (review : JsonValue) : Except PyErr JsonValue := do
  let request ← itemAt review "request"
  let kind ← itemAt request "kind"
  let kind ← itemAt kind "kind"
  if isText "Pod" kind then itemAt request "object" else .error (.keyError none)

def uidOf (review : JsonValue) : Except PyErr JsonValue := do
  let request ← itemAt review "request"
  itemAt request "uid"

/-- The review with the response in place of the request. -/
def answer (review : JsonValue) (resp : List (String × JsonValue)) : Except PyErr JsonValue :=
  match review with
  | .obj members => putAt "response" (.obj resp) (.obj (members.filter fun m => m.1 ≠ "request"))
  | _ => .error .attributeError

def mutate (merge : Merge) (file : Option JsonValue) (review : JsonValue) :
    Except PyErr JsonValue := do
  let pod ← exceptKeyError (podOf review) (.error .mutationError)
  if ← isMutationRequired pod then
    let pod ← mutatePod merge file pod
    let patch ← generatePatch pod
    let uid ← uidOf review
    answer review [("allowed", .bool true), ("uid", uid), ("patch", .str (encodePatch patch))]
  else
    let uid ← uidOf review
    answer review [("allowed", .bool true), ("uid", uid)]

end Cmk
