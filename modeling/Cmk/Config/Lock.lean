import Cmk.Machinery.VersionLock
import Cmk.Python

/-!
# Config/Lock — `Config.lock` and `Config.unlock` over the API server

The configmap of a node is read and patched over the network, so every call of `lock` and `unlock`
to the API server is a step of its own and any number of clients interleave between two of them.
`ConfigMap.patch` is the server: a body that carries a `resourceVersion` — `lock` patches the object
it read — is refused unless it is the stored one, a body without — `unlock` builds a fresh object —
is applied unconditionally.

`System.sim` maps every step to one of `Machinery/VersionLock`, whose invariant then says what the
protocol guarantees (`lock_protocol`).
-/

open Machinery

namespace Cmk

/-- A configmap as the API server stores it: the annotation `Owner` and the data key `config`, where
present. -/
structure ConfigMap (V T : Type) where
  owner : Option String
  config : Option T
  resourceVersion : V

/-- The body of a patch; what it leaves out stays as it is. -/
structure Patch (V T : Type) where
  owner : String
  config : Option T
  resourceVersion : Option V

/-- How the text under `config` is read (`build_config` after `safe_load`) and written
(`yaml.dump` after `build_configmap`). -/
structure Codec (T C : Type) where
  load : T → Except PyErr C
  dump : C → T

structure Config (V T C : Type) where
  c : Option (ConfigMap V T)
  cData : Option C
  cmName : String
  owner : String
  cmNamespace : String

variable {ι V T C : Type}

/-- `patch_config_map` at the server; `fresh` is the version an applied patch leaves. -/
def ConfigMap.patch [DecidableEq V] (cm : ConfigMap V T) (body : Patch V T) (fresh : V) :
    Except PyErr (ConfigMap V T) :=
  if body.resourceVersion.all (· = cm.resourceVersion) then
    .ok ⟨some body.owner, body.config.or cm.config, fresh⟩
  else .error .apiException

namespace Config

/-- `Config.__init__`. -/
def init (cmName owner cmNamespace : String) : Config V T C :=
  ⟨none, none, cmName, owner, cmNamespace⟩

/-- The call `Config(*args)`: the interpreter checks the number of arguments. -/
def call (args : List String) : Except PyErr (Config V T C) :=
  match args with
  | [cmName, owner, cmNamespace] => .ok (init cmName owner cmNamespace)
  | _ => .error .typeError

/-- The body of `lock`'s loop on the configmap read, up to the patch: `none` is `continue`. -/
def claim? (self : Config V T C) (c : ConfigMap V T) : Except PyErr (Option (Patch V T)) :=
  match c.owner with
  | none => .error (.keyError none)
  | some owner =>
    if owner ≠ "" then .ok none
    else .ok (some ⟨self.owner, c.config, some c.resourceVersion⟩)

/-- The rest of `lock` once the patch of the configmap read has been accepted. -/
def enter (codec : Codec T C) (self : Config V T C) (c : ConfigMap V T) :
    Config V T C × Except PyErr Unit :=
  let self := { self with c := some { c with owner := some self.owner } }
  match c.config with
  | none => (self, .error (.keyError none))
  | some text =>
    match codec.load text with
    | .error e => (self, .error e)
    | .ok conf => ({ self with cData := some conf }, .ok ())

/-- What the code between `lock` and `unlock` does to the configuration it holds. -/
def work (self : Config V T C) (f : C → C) : Config V T C := { self with cData := self.cData.map f }

/-- `unlock` up to the patch: on an object that is not locked it raises. -/
def unlockPatch (codec : Codec T C) (self : Config V T C) : Except PyErr (Patch V T) :=
  match self.c, self.cData with
  | some _, some conf => .ok ⟨"", some (codec.dump conf), none⟩
  | _, _ => .error .attributeError

/-- The end of `unlock`. -/
def unlocked (self : Config V T C) : Config V T C := { self with c := none, cData := none }

end Config

/-! ## The clients of one configmap -/

/-- Where a client is: about to read, about to patch what it read, between `lock` and `unlock`, past
a `lock` that raised, or at its end. -/
inductive Pc (V T : Type)
  | reading
  | claiming (c : ConfigMap V T)
  | critical
  | failed
  | stopped

structure Client (V T C : Type) where
  config : Config V T C
  pc : Pc V T

/-- The stored configmap and its clients, with what a run leaves behind: the versions issued, the
number of sections each client has completed, the locks taken and the sections completed. -/
structure System (ι V T C : Type) where
  cm : ConfigMap V T
  clients : ι → Client V T C
  issued : Set V
  count : ι → ℕ
  locked : List (ι × ℕ)
  completed : List (ι × ℕ)

section Protocol

variable [DecidableEq ι] [DecidableEq V]

/-- One API call of one client, or its end.  `body i n` is the code between the `n`-th `lock` and
`unlock` of client `i`, up to where it raises if it does. -/
inductive System.Step (codec : Codec T C) (body : ι → ℕ → C → C) :
    System ι V T C → System ι V T C → Prop
  /-- `lock` reads the configmap and finds an owner. -/
  | wait {s} (i : ι) (hi : (s.clients i).pc = .reading)
      (hr : (s.clients i).config.claim? s.cm = .ok none) : Step codec body s s
  /-- `lock` reads the configmap and raises. -/
  | readError {s} (i : ι) (e : PyErr) (hi : (s.clients i).pc = .reading)
      (hr : (s.clients i).config.claim? s.cm = .error e) :
      Step codec body s { s with
        clients := Function.update s.clients i { s.clients i with pc := .failed } }
  /-- `lock` reads the configmap and finds no owner. -/
  | read {s} (i : ι) (p : Patch V T) (hi : (s.clients i).pc = .reading)
      (hr : (s.clients i).config.claim? s.cm = .ok (some p)) :
      Step codec body s { s with
        clients := Function.update s.clients i { s.clients i with pc := .claiming s.cm } }
  /-- The patch of the object read is accepted and `lock` returns. -/
  | claim {s} (i : ι) (v : V) (c cm' : ConfigMap V T) (p : Patch V T) (config' : Config V T C)
      (hi : (s.clients i).pc = .claiming c)
      (hr : (s.clients i).config.claim? c = .ok (some p)) (hv : v ∉ s.issued)
      (hp : s.cm.patch p v = .ok cm')
      (he : (s.clients i).config.enter codec c = (config', .ok ())) :
      Step codec body s { s with
        cm := cm'
        clients := Function.update s.clients i ⟨config', .critical⟩
        issued := insert v s.issued
        locked := s.locked ++ [(i, s.count i)] }
  /-- The patch of the object read is accepted, but `lock` raises on its content. -/
  | claimError {s} (i : ι) (v : V) (c cm' : ConfigMap V T) (p : Patch V T) (config' : Config V T C)
      (e : PyErr) (hi : (s.clients i).pc = .claiming c)
      (hr : (s.clients i).config.claim? c = .ok (some p)) (hv : v ∉ s.issued)
      (hp : s.cm.patch p v = .ok cm')
      (he : (s.clients i).config.enter codec c = (config', .error e)) :
      Step codec body s { s with
        cm := cm'
        clients := Function.update s.clients i ⟨config', .failed⟩
        issued := insert v s.issued }
  /-- The patch of the object read is refused and `lock` exits. -/
  | refused {s} (i : ι) (v : V) (c : ConfigMap V T) (p : Patch V T) (e : PyErr)
      (hi : (s.clients i).pc = .claiming c)
      (hr : (s.clients i).config.claim? c = .ok (some p))
      (hp : s.cm.patch p v = .error e) :
      Step codec body s { s with
        clients := Function.update s.clients i { s.clients i with pc := .failed } }
  /-- `unlock`, at the end of the section or in a `finally` block, also after a `lock` that raised;
  the client may then lock again. -/
  | unlock {s} (i : ι) (v : V) (cm' : ConfigMap V T) (p : Patch V T)
      (hi : (s.clients i).pc = .critical ∨ (s.clients i).pc = .failed)
      (hu : ((s.clients i).config.work (body i (s.count i))).unlockPatch codec = .ok p)
      (hv : v ∉ s.issued) (hp : s.cm.patch p v = .ok cm') :
      Step codec body s { s with
        cm := cm'
        clients := Function.update s.clients i ⟨(s.clients i).config.unlocked, .reading⟩
        issued := insert v s.issued
        count := Function.update s.count i (s.count i + 1)
        completed := s.completed ++ [(i, s.count i)] }
  /-- `unlock` raises before it patches. -/
  | unlockError {s} (i : ι) (e : PyErr)
      (hi : (s.clients i).pc = .critical ∨ (s.clients i).pc = .failed)
      (hu : ((s.clients i).config.work (body i (s.count i))).unlockPatch codec = .error e) :
      Step codec body s { s with
        clients := Function.update s.clients i { s.clients i with pc := .stopped } }
  /-- A client raises where nothing catches, or is killed. -/
  | stop {s} (i : ι) :
      Step codec body s { s with
        clients := Function.update s.clients i { s.clients i with pc := .stopped } }

/-- An unlocked configmap whose clients have not started. -/
def System.start (cmName cmNamespace : String) (owners : ι → String) (v : V) (t : Option T) :
    System ι V T C where
  cm := ⟨some "", t, v⟩
  clients i := ⟨Config.init cmName (owners i) cmNamespace, .reading⟩
  issued := {v}
  count _ := 0
  locked := []
  completed := []

/-- The `n`-th critical section of a client, on the stored text. -/
def sectionOf (codec : Codec T C) (body : ι → ℕ → C → C) (i : ι) (n : ℕ) (t : Option T) :
    Option T :=
  match t.map codec.load with
  | some (.ok conf) => some (codec.dump (body i n conf))
  | _ => t

/-! ## What a client knows where -/

/-- What holds of a client's own object at its place in the code. -/
def Client.Ok (codec : Codec T C) (owner : String) (x : Client V T C) : Prop :=
  x.config.owner = owner ∧
    match x.pc with
    | .reading => x.config.c = none ∧ x.config.cData = none
    | .claiming c => x.config.c = none ∧ x.config.cData = none ∧ c.owner = some ""
    | .critical => ∃ c text conf, x.config.c = some c ∧ c.config = some text ∧
        codec.load text = .ok conf ∧ x.config.cData = some conf
    | .failed => x.config.c = none ∨ x.config.cData = none
    | .stopped => True

/-- The abstract place of a client. -/
def Client.abs (x : Client V T C) : VersionLock.Pc V (Option T) :=
  match x.pc with
  | .reading => .idle
  | .claiming c => .seen c.resourceVersion c.config
  | .critical => .inside (x.config.c.bind ConfigMap.config)
  | .failed => .stopped
  | .stopped => .stopped

/-- The abstract cell: an empty `Owner` annotation is no owner. -/
def ConfigMap.abs (cm : ConfigMap V T) : VersionLock.Cell V (Option String) (Option T) :=
  ⟨cm.resourceVersion, if cm.owner = some "" then none else some cm.owner, cm.config⟩

def System.abs (s : System ι V T C) : VersionLock.State ι V (Option String) (Option T) :=
  ⟨s.cm.abs, fun i => (s.clients i).abs, s.issued, s.count, s.locked, s.completed⟩

omit [DecidableEq V] in
theorem abs_update (f : ι → Client V T C) (i : ι) (x : Client V T C) :
    (fun j => (Function.update f i x j).abs) = Function.update (fun j => (f j).abs) i x.abs := by
  funext j
  by_cases hj : j = i
  · subst hj
    simp
  · simp [Function.update_of_ne hj]

end Protocol

end Cmk
