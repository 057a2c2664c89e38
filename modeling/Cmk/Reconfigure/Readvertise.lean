import Cmk.Discover
import Cmk.Reconfigure.Session

/-!
# Reconfigure/Readvertise — the patch of the node's resources inside `reconfigure_directory`

The earlier modules take this step to return.  As it is written it never does: `add_node_er` and
`add_node_oir` are called without their argument, so no reconfiguration readvertises its pools
(`never_readvertises`).  With the argument the call would not return either, since it waits for the
lock its caller holds (`waits_for_its_caller`).
-/

open Machinery Machinery.Seating Cmk.Topology

namespace Cmk

section Repatch

variable {V : Type} [DecidableEq V] (codec : Codec String (Conf Scalar Yaml))
  (cmName podName : String) (v : Visit V String) (api : NodeApi) (args : List String)
  (node : JsonValue)

/-- The call `add_node_er(*args)`: the interpreter checks the number of arguments. -/
def callAddNodeEr : NodeRun V :=
  match args with
  | [cmNamespace] => addNodeEr codec (.init cmName podName cmNamespace) v api node
  | _ => some (v.stored, .error .typeError, node)

/-- The call `add_node_oir(*args)`. -/
def callAddNodeOir : NodeRun V :=
  match args with
  | [cmNamespace] => addNodeOir codec (.init cmName podName cmNamespace) v api node
  | _ => some (v.stored, .error .typeError, node)

/-- The patch of the node, with the arguments the two functions are given. -/
def repatchWith : NodeRun V :=
  match api.kubeVersion >>= parseVersion with
  | .error e => some (v.stored, .error e, node)
  | .ok version =>
    if version = [1, 8] then some (v.stored, .error (.systemExit 1), node)
    else if [1, 8, 1] ≤ version then callAddNodeEr codec cmName podName v api args node
    else callAddNodeOir codec cmName podName v api args node

/-- As `reconfigure_directory` has it. -/
def repatch : NodeRun V := repatchWith codec cmName podName v api [] node

end Repatch

/-! ## The reconfiguration with that step -/

/-- `reconfigure_directory`, given what the patch of the node comes to. -/
def reconfigureDirectoryRepatching (patched : Except PyErr Unit) (host : Host) (req : Request)
    (procInfo : List (ProcessInfo String)) (procs : Procs String) :
    Except PyErr (Conf String String × Procs String) := do
  let (platform, pools) ← req.configure host
  let conf ← buildConfig (newConfig platform pools req.exclNonIsolcpus)
  patched
  matching conf procInfo procs

/-- The `try` block up to the assignment to `c_data`. -/
def newDataRepatching (patched : Except PyErr Unit) (host : Host) (req : Request)
    (conf : Conf String String) : Except PyErr (Conf String String × Procs String) := do
  let (procInfo, procs) ← buildProcInfo conf
  req.check procInfo
  reconfigureDirectoryRepatching patched host req procInfo procs

/-- The block, and the deletion after `unlock`. -/
def reconfigureSectionRepatching (patched : Except PyErr Unit) (host : Host) (req : Request)
    (calls : Calls) (conf : Conf String String) : Except PyErr Unit × Conf String String :=
  match newDataRepatching patched host req conf with
  | .error _ => (.error .unboundLocalError, conf)
  | .ok (new, procs) =>
    (match exitOnApiException calls.deleteConfigMap with
      | .error e => .error e
      | .ok () => do
        publishProcs calls procs
        calls.executeReconfigure, new)

section Outcome

variable {V T : Type} [DecidableEq V]

def reconfigureRepatching (yaml : YamlText T) (self : Config V T (Conf String String))
    (v : Visit V T) (patched : Except PyErr Unit) (host : Host) (req : Request) (calls : Calls) :
    Option (ConfigMap V T × Except PyErr Unit) :=
  self.guardedSection yaml.codec v (reconfigureSectionRepatching patched host req calls)

/-- **The new pools are readvertised**: the patch of the node returns, and after a reconfiguration
that succeeds with it the capacity follows the new configuration. -/
structure Readvertises (codec : Codec String (Conf Scalar Yaml)) (cmName podName : String)
    (w : Visit V String) (api : NodeApi) (node : JsonValue) (yaml : YamlText T)
    (self : Config V T (Conf String String)) (v : Visit V T) (host : Host) (req : Request)
    (calls : Calls) : Prop where
  completes : ∃ cm node', repatch codec cmName podName w api node = some (cm, .ok (), node')
  follows : ∀ cm patched node',
    repatch codec cmName podName w api node = some (cm, patched, node') →
    ∀ cm', reconfigureRepatching yaml self v patched host req calls = some (cm', .ok ()) →
      ∀ version p pools new, api.kubeVersion >>= parseVersion = .ok version →
        req.configure host = .ok (p, pools) →
          buildConfig (newConfig p pools req.exclNonIsolcpus) = .ok new →
            CapacityFollows (resourceNames version) new node'

/-- Where the patch returns, the step makes no difference to the configuration. -/
theorem reconfigureSectionRepatching_ok (host : Host) (req : Request) (calls : Calls)
    (conf : Conf String String) : reconfigureSectionRepatching (.ok ()) host req calls conf =
      reconfigureSection host req calls conf := rfl

/-- Where it raises, the block leaves the configuration as it was, and the reconfiguration raises.
-/
theorem reconfigureSectionRepatching_error (e : PyErr) (host : Host) (req : Request) (calls : Calls)
    (conf : Conf String String) : reconfigureSectionRepatching (.error e) host req calls conf =
      (.error .unboundLocalError, conf) := by
  have hnot : ∀ new, newDataRepatching (.error e) host req conf ≠ .ok new := by
    intro new h
    obtain ⟨⟨infos, procs⟩, -, h⟩ := bind_eq_ok.mp h
    obtain ⟨u, -, h⟩ := bind_eq_ok.mp h
    obtain ⟨⟨p, pools⟩, -, h⟩ := bind_eq_ok.mp h
    obtain ⟨built, -, h⟩ := bind_eq_ok.mp h
    obtain ⟨u, h, -⟩ := bind_eq_ok.mp h
    nomatch h
  rw [reconfigureSectionRepatching]
  cases h : newDataRepatching (.error e) host req conf with
  | error e' => rfl
  | ok new => exact absurd h (hnot new)

variable (codec : Codec String (Conf Scalar Yaml)) (cmName podName : String) (w : Visit V String)
  (api : NodeApi) (node : JsonValue)

/-- **The step raises**, on every version that is supported a `TypeError`. -/
theorem repatch_typeError {version : List ℕ}
    (hversion : api.kubeVersion >>= parseVersion = .ok version) (hsupported : version ≠ [1, 8]) :
    repatch codec cmName podName w api node = some (w.stored, .error .typeError, node) := by
  rw [repatch, repatchWith, hversion]
  dsimp only
  rw [if_neg hsupported]
  split <;> rfl

theorem repatch_ne_ok (cm : ConfigMap V String) (node' : JsonValue) :
    repatch codec cmName podName w api node ≠ some (cm, .ok (), node') := by
  cases hversion : api.kubeVersion >>= parseVersion with
  | error e => simp [repatch, repatchWith, hversion]
  | ok version =>
    by_cases hsupported : version = [1, 8]
    · simp [repatch, repatchWith, hversion, hsupported]
    · simp [repatch_typeError codec cmName podName w api node hversion hsupported]

/-- **With the argument** the step waits: the lock it asks for is held by its caller. -/
theorem waits_for_its_caller (hheld : w.read.owner = some podName) (hpod : podName ≠ "")
    (cmNamespace : String) {version : List ℕ}
    (hversion : api.kubeVersion >>= parseVersion = .ok version) (hsupported : version ≠ [1, 8]) :
    repatchWith codec cmName podName w api [cmNamespace] node = none := by
  have hlock : Config.lock codec (.init cmName podName cmNamespace) w = none := by
    rw [Config.lock, Config.claim?, hheld]
    dsimp only
    rw [if_pos hpod]
  have hread :
      Config.reading codec (.init cmName podName cmNamespace) w discoverSection = none := by
    rw [Config.reading, hlock]
  rw [repatchWith, hversion]
  dsimp only
  rw [if_neg hsupported]
  split
  · rw [callAddNodeEr, addNodeEr, addNode, hread, Option.map_none]
  · rw [callAddNodeOir, addNodeOir, addNode, hread, Option.map_none]

/-- A session does not return if its section never does. -/
theorem guardedSection_ne_ok {C : Type} {textCodec : Codec T C} {self : Config V T C}
    {v : Visit V T} {body : C → Except PyErr Unit × C} (h : ∀ c, (body c).1 ≠ .ok ())
    (cm : ConfigMap V T) : self.guardedSection textCodec v body ≠ some (cm, .ok ()) := by
  have hsection : ∀ config : Config V T C, (config.runSection body).1 ≠ .ok () := by
    intro config
    rw [Config.runSection]
    cases config.cData with
    | none => simp
    | some c => exact h c
  have hunlock : ∀ (config : Config V T C) cm' version outcome, outcome ≠ .ok () →
      (config.unlock textCodec cm' version outcome).2 ≠ .ok () := by
    intro config cm' version outcome hne
    rw [Config.unlock]
    cases config.unlockPatch textCodec with
    | error e => simp
    | ok patch =>
      dsimp only
      cases cm'.patch patch version with
      | error e => simp
      | ok cm'' => exact hne
  intro hok
  rw [Config.guardedSection] at hok
  cases hlock : self.lock textCodec v with
  | none => simp [hlock] at hok
  | some x =>
    obtain ⟨cm', config, r⟩ := x
    cases r with
    | error e => simp [hlock] at hok
    | ok u =>
      simp only [hlock, Option.some.injEq] at hok
      exact hunlock _ _ _ _ (hsection config) (congrArg Prod.snd hok)

/-- **No reconfiguration readvertises its pools**, whatever the request, the configuration and the
version, and none succeeds. -/
theorem never_readvertises (yaml : YamlText T) (self : Config V T (Conf String String))
    (v : Visit V T) (host : Host) (req : Request) (calls : Calls) :
    ¬ Readvertises codec cmName podName w api node yaml self v host req calls ∧
      ∀ cm patched node', repatch codec cmName podName w api node = some (cm, patched, node') →
        ∀ cm', reconfigureRepatching yaml self v patched host req calls ≠ some (cm', .ok ()) := by
  refine ⟨?_, fun cm patched node' h => ?_⟩
  · rintro ⟨⟨cm, node', h⟩, -⟩
    exact repatch_ne_ok codec cmName podName w api node cm node' h
  · cases patched with
    | ok u => exact absurd h (repatch_ne_ok codec cmName podName w api node cm node')
    | error e =>
      refine guardedSection_ne_ok fun c => ?_
      rw [reconfigureSectionRepatching_error]
      simp

end Outcome

/-- The configmap of the packed node while its reconfiguration holds it. -/
def heldVisit : Visit ℕ String where
  read := ⟨some "cmk-reconfigure-pod", some "text", 1⟩
  stored := ⟨some "cmk-reconfigure-pod", some "text", 1⟩
  lockVersion := 2
  unlockVersion := 3

/-- The packed node is reconfigured as it is, with every later call returning. -/
theorem packed_node_not_readvertised : IsOk (packedRequest.check (procInfo packedConf)) ∧
    IsOk (packedRequest.configure twoSockets) ∧
    ¬ Readvertises (yamlCodec (fun _ => .ok exclusiveOnly) fun _ => "") "cmk-config-node"
      "cmk-reconfigure-pod" heldVisit openApi (nodeWith .null) plainYaml reconfigurePod packedVisit
      twoSockets packedRequest
      ⟨fun _ => .ok (), .ok (), .ok (), .ok ()⟩ := by
  refine ⟨⟨(), rfl⟩, by decide, ?_⟩
  rintro ⟨⟨cm, node', h⟩, -⟩
  exact repatch_ne_ok _ _ _ _ _ _ cm node' h

end Cmk
