import Cmk.Config.LockProtocol
import Cmk.Config.Yaml
import Cmk.Reconcile

/-!
# Commands — the locked sessions of the five commands and who gives the lock back

A session is one `lock`, the code after it and one `unlock`.  The commands differ in how much of it
a `try … finally` covers: all of it in `isolate`, the section in `reconfigure`, nothing in
`reconcile`, `add_node_er` and `add_node_oir`.  `command_gives_back` says for every content of the
configmap whether a command that has ended still owns it.
-/

open Machinery

namespace Cmk

variable {V T C : Type} [DecidableEq V]

/-! ## `lock` and `unlock` in one go -/

/-- What a session meets at the server: the configmap `lock` reads, the one stored when it patches,
and the versions its two patches leave. -/
structure Visit (V T : Type) where
  read : ConfigMap V T
  stored : ConfigMap V T
  lockVersion : V
  unlockVersion : V

namespace Config

/-- `lock`; `none` is waiting for an owner. -/
def lock (codec : Codec T C) (self : Config V T C) (v : Visit V T) :
    Option (ConfigMap V T × Config V T C × Except PyErr Unit) :=
  match self.claim? v.read with
  | .error e => some (v.stored, self, .error e)
  | .ok none => none
  | .ok (some body) =>
    match v.stored.patch body v.lockVersion with
    | .error _ => some (v.stored, self, .error (.systemExit 1))
    | .ok cm => some (cm, self.enter codec v.read)

/-- `unlock` after an outcome, as a `finally` clause or as the next statement. -/
def unlock (codec : Codec T C) (self : Config V T C) (cm : ConfigMap V T) (version : V)
    (outcome : Except PyErr Unit) : ConfigMap V T × Except PyErr Unit :=
  match self.unlockPatch codec with
  | .error e => (cm, .error e)
  | .ok body =>
    match cm.patch body version with
    | .error _ => (cm, .error (.systemExit 1))
    | .ok cm' => (cm', outcome)

/-- The code after `lock` on the configuration the object holds. -/
def runSection (self : Config V T C) (body : C → Except PyErr Unit × C) :
    Except PyErr Unit × Config V T C :=
  match self.cData with
  | none => (.error .attributeError, self)
  | some c => ((body c).1, { self with cData := some (body c).2 })

/-- `try: lock; section finally: unlock`. -/
def guardedLock (codec : Codec T C) (self : Config V T C) (v : Visit V T)
    (body : C → Except PyErr Unit × C) : Option (ConfigMap V T × Except PyErr Unit) :=
  match self.lock codec v with
  | none => none
  | some (cm, self, .error e) => some (self.unlock codec cm v.unlockVersion (.error e))
  | some (cm, self, .ok ()) =>
    some ((self.runSection body).2.unlock codec cm v.unlockVersion (self.runSection body).1)

/-- `lock; try: section finally: unlock`. -/
def guardedSection (codec : Codec T C) (self : Config V T C) (v : Visit V T)
    (body : C → Except PyErr Unit × C) : Option (ConfigMap V T × Except PyErr Unit) :=
  match self.lock codec v with
  | none => none
  | some (cm, _, .error e) => some (cm, .error e)
  | some (cm, self, .ok ()) =>
    some ((self.runSection body).2.unlock codec cm v.unlockVersion (self.runSection body).1)

/-- `lock; section; unlock`. -/
def unguarded (codec : Codec T C) (self : Config V T C) (v : Visit V T)
    (body : C → Except PyErr Unit × C) : Option (ConfigMap V T × Except PyErr Unit) :=
  match self.lock codec v with
  | none => none
  | some (cm, _, .error e) => some (cm, .error e)
  | some (cm, self, .ok ()) =>
    match self.runSection body with
    | (.error e, _) => some (cm, .error e)
    | (.ok (), self) => some (self.unlock codec cm v.unlockVersion (.ok ()))

end Config

/-! ## When the lock is given back -/

/-- `lock` gets its owner patch accepted. -/
def Visit.Acquired (v : Visit V T) : Prop :=
  v.read.owner = some "" ∧ v.read.resourceVersion = v.stored.resourceVersion

/-- The content read is built into this configuration. -/
def Visit.Loads (codec : Codec T C) (v : Visit V T) (c : C) : Prop :=
  ∃ text, v.read.config = some text ∧ codec.load text = .ok c

section Owner

variable {codec : Codec T C} {self : Config V T C} {v : Visit V T}
  {body : C → Except PyErr Unit × C} {cm : ConfigMap V T} {r : Except PyErr Unit}

/-- **What `lock` can come to**: it did not get the configmap, it got it and raised on the content,
or it returned. -/
theorem lock_cases {config : Config V T C} (h : self.lock codec v = some (cm, config, r)) :
    (¬ v.Acquired ∧ cm = v.stored ∧ config = self ∧ ∃ e, r = .error e) ∨
      (v.Acquired ∧ cm.owner = some self.owner ∧ (∀ c, ¬ v.Loads codec c) ∧
        config.cData = self.cData ∧ ∃ e, r = .error e) ∨
      (v.Acquired ∧ cm.owner = some self.owner ∧ r = .ok () ∧
        ∃ c, v.Loads codec c ∧ config.c ≠ none ∧ config.cData = some c) := by
  rw [Config.lock] at h
  cases hc : self.claim? v.read with
  | error e =>
    obtain ⟨rfl, rfl, rfl⟩ := by simpa [hc] using h
    refine .inl ⟨fun ha => ?_, rfl, rfl, e, rfl⟩
    simp [Config.claim?, ha.1] at hc
  | ok body? =>
    cases body? with
    | none => simp [hc] at h
    | some body =>
      obtain ⟨hfree, rfl⟩ := claim?_eq_some.mp hc
      cases hp : v.stored.patch ⟨self.owner, v.read.config, some v.read.resourceVersion⟩
          v.lockVersion with
      | error e =>
        obtain ⟨rfl, rfl, rfl⟩ := by simpa [hc, hp] using h
        refine .inl ⟨fun ha => ?_, rfl, rfl, _, rfl⟩
        rw [(patch_versioned.mpr ⟨ha.2, rfl⟩)] at hp
        simp at hp
      | ok cm' =>
        obtain ⟨rfl, he⟩ := by simpa [hc, hp] using h
        obtain ⟨hver, rfl⟩ := patch_versioned.mp hp
        cases r with
        | error e =>
          refine .inr (.inl ⟨⟨hfree, hver⟩, rfl, ?_, (enter_error he).2, e, rfl⟩)
          rintro c ⟨text, ht, hl⟩
          simp [Config.enter, ht, hl] at he
        | ok u =>
          obtain ⟨text, conf, ht, hl, rfl⟩ := enter_ok he
          exact .inr (.inr ⟨⟨hfree, hver⟩, rfl, rfl, conf, ⟨text, ht, hl⟩, by simp, rfl⟩)

omit [DecidableEq V] in
theorem Visit.Loads.unique {c c' : C} (h : v.Loads codec c) (h' : v.Loads codec c') : c = c' := by
  obtain ⟨text, ht, hl⟩ := h
  obtain ⟨text', ht', hl'⟩ := h'
  obtain rfl := Option.some.inj (ht.symm.trans ht')
  exact Except.ok.inj (hl.symm.trans hl')

/-- `unlock` on an object that is locked gives the configmap back. -/
theorem unlock_locked {config : Config V T C} {c : C} {cm' : ConfigMap V T} {version : V}
    {outcome : Except PyErr Unit} (h : config.unlock codec cm' version outcome = (cm, r))
    (hc : config.c ≠ none) (hd : config.cData = some c) : cm.owner = some "" := by
  obtain ⟨x, hx⟩ := Option.ne_none_iff_exists'.mp hc
  simp only [Config.unlock, Config.unlockPatch, hx, hd, ConfigMap.patch, Option.all_none, if_true,
    Prod.mk.injEq] at h
  rw [← h.1]

/-- On one that is not, it leaves it as it is. -/
theorem unlock_not_locked {config : Config V T C} {cm' : ConfigMap V T} {version : V}
    {outcome : Except PyErr Unit} (hn : config.c = none ∨ config.cData = none)
    (h : config.unlock codec cm' version outcome = (cm, r)) : cm = cm' := by
  have hu : (config.work id).unlockPatch codec = _ := unlockPatch_of_not_locked id hn
  have hw : config.work id = config := by simp [Config.work]
  rw [hw] at hu
  simp only [Config.unlock, hu, Prod.mk.injEq] at h
  exact h.1.symm

omit [DecidableEq V] in
theorem runSection_locked {config : Config V T C} {c : C} (hd : config.cData = some c) :
    config.runSection body = ((body c).1, { config with cData := some (body c).2 }) := by
  simp [Config.runSection, hd]

omit [DecidableEq V] in
theorem kept_iff {Q : Prop} (hacq : v.Acquired) (ho : cm.owner = some self.owner) (hq : ¬ Q) :
    cm.owner ≠ some self.owner ↔ (v.Acquired → Q) :=
  ⟨fun hne => absurd ho hne, fun h => absurd (h hacq) hq⟩

omit [DecidableEq V] in
theorem given_back_iff {Q : Prop} (howner : self.owner ≠ "") (ho : cm.owner = some "") (hq : Q) :
    cm.owner ≠ some self.owner ↔ (v.Acquired → Q) :=
  ⟨fun _ _ => hq, fun _ hcon => howner (Option.some.inj (ho.symm.trans hcon)).symm⟩

variable (hinit : self.c = none ∧ self.cData = none) (howner : self.owner ≠ "")
  (hstored : v.stored.owner ≠ some self.owner)

omit [DecidableEq V] in
include hstored in
theorem untouched_iff {Q : Prop} (hacq : ¬ v.Acquired) (ho : cm = v.stored) :
    cm.owner ≠ some self.owner ↔ (v.Acquired → Q) :=
  ⟨fun _ ha => absurd ha hacq, fun _ => ho ▸ hstored⟩

include howner hstored

include hinit in
/-- **A session whose `finally` covers `lock`** gives the configmap back exactly when its content
can be built. -/
theorem guardedLock_owner (h : self.guardedLock codec v body = some (cm, r)) :
    cm.owner ≠ some self.owner ↔ (v.Acquired → ∃ c, v.Loads codec c) := by
  rw [Config.guardedLock] at h
  cases hl : self.lock codec v with
  | none => simp [hl] at h
  | some x =>
    obtain ⟨cm', config, r'⟩ := x
    rcases lock_cases hl with ⟨hacq, rfl, rfl, e, rfl⟩ | ⟨hacq, ho, hno, hd, e, rfl⟩ |
        ⟨hacq, ho, rfl, c, hload, hc, hd⟩ <;> simp only [hl, Option.some.injEq] at h
    · exact untouched_iff hstored hacq (unlock_not_locked (.inl hinit.1) h)
    · have hcm := unlock_not_locked (.inr (hd.trans hinit.2)) h
      exact kept_iff hacq (hcm ▸ ho) (not_exists.mpr hno)
    · rw [runSection_locked hd] at h
      exact given_back_iff howner (unlock_locked h hc rfl) ⟨c, hload⟩

/-- **A session whose `finally` covers the section** gives it back in the same cases. -/
theorem guardedSection_owner (h : self.guardedSection codec v body = some (cm, r)) :
    cm.owner ≠ some self.owner ↔ (v.Acquired → ∃ c, v.Loads codec c) := by
  rw [Config.guardedSection] at h
  cases hl : self.lock codec v with
  | none => simp [hl] at h
  | some x =>
    obtain ⟨cm', config, r'⟩ := x
    rcases lock_cases hl with ⟨hacq, rfl, rfl, e, rfl⟩ | ⟨hacq, ho, hno, hd, e, rfl⟩ |
        ⟨hacq, ho, rfl, c, hload, hc, hd⟩ <;> simp only [hl, Option.some.injEq] at h
    · exact untouched_iff hstored hacq (congrArg Prod.fst h).symm
    · have hcm : cm' = cm := congrArg Prod.fst h
      exact kept_iff hacq (hcm ▸ ho) (not_exists.mpr hno)
    · rw [runSection_locked hd] at h
      exact given_back_iff howner (unlock_locked h hc rfl) ⟨c, hload⟩

/-- **A session without a `finally`** also keeps it whenever its section raises. -/
theorem unguarded_owner (h : self.unguarded codec v body = some (cm, r)) :
    cm.owner ≠ some self.owner ↔ (v.Acquired → ∃ c, v.Loads codec c ∧ (body c).1 = .ok ()) := by
  rw [Config.unguarded] at h
  cases hl : self.lock codec v with
  | none => simp [hl] at h
  | some x =>
    obtain ⟨cm', config, r'⟩ := x
    rcases lock_cases hl with ⟨hacq, rfl, rfl, e, rfl⟩ | ⟨hacq, ho, hno, hd, e, rfl⟩ |
        ⟨hacq, ho, rfl, c, hload, hc, hd⟩ <;> simp only [hl, Option.some.injEq] at h
    · exact untouched_iff hstored hacq (congrArg Prod.fst h).symm
    · have hcm : cm' = cm := congrArg Prod.fst h
      exact kept_iff hacq (hcm ▸ ho) fun ⟨c, hload, _⟩ => hno c hload
    · rw [runSection_locked hd] at h
      cases hb : (body c).1 with
      | error e =>
        simp only [hb, Option.some.injEq] at h
        have hcm : cm' = cm := congrArg Prod.fst h
        refine kept_iff hacq (hcm ▸ ho) fun ⟨c', hload', hok⟩ => ?_
        rw [← hload.unique hload', hb] at hok
        simp at hok
      | ok u =>
        simp only [hb, Option.some.injEq] at h
        exact given_back_iff howner (unlock_locked h hc rfl) ⟨c, hload, hb⟩

omit howner hstored in
/-- Where it returns, `lock` and the section did. -/
theorem unguarded_ok (h : self.unguarded codec v body = some (cm, .ok ())) :
    ∃ c, v.Loads codec c ∧ (body c).1 = .ok () := by
  rw [Config.unguarded] at h
  cases hl : self.lock codec v with
  | none => simp [hl] at h
  | some x =>
    obtain ⟨cm', config, r'⟩ := x
    rcases lock_cases hl with ⟨-, -, -, e, rfl⟩ | ⟨-, -, -, -, e, rfl⟩ |
        ⟨-, -, rfl, c, hload, -, hd⟩ <;> simp only [hl, Option.some.injEq] at h
    · simp at h
    · simp at h
    · rw [runSection_locked hd] at h
      cases hb : (body c).1 with
      | error e => simp [hb] at h
      | ok u => exact ⟨c, hload, hb⟩

end Owner

/-! ## The commands -/

/-- The part of `add_node_er` and `add_node_oir` between `lock` and `unlock`: the numbers of slots
they go on to patch into the node. -/
def discoverSection (c : Conf Scalar Yaml) : Except PyErr (ℕ × Option ℕ) :=
  if "exclusive" ∉ c.getPools then .error (.keyError (some "Exclusive pool does not exist"))
  else do
    let pool ← c.getPool "exclusive"
    let slots ← pool.getCoreLists none
    if "exclusive-non-isolcpus" ∈ c.getPools then
      let pool ← c.getPool "exclusive-non-isolcpus"
      let exclNonIsolcpus ← pool.getCoreLists none
      return (slots.length, some exclNonIsolcpus.length)
    else return (slots.length, none)

/-- A section that leaves the configuration alone. -/
def readOnly {α : Type} (f : C → Except PyErr α) (c : C) : Except PyErr Unit × C :=
  ((f c).map fun _ => (), c)

/-- A section that returns the configuration it changed. -/
def updating (f : C → Except PyErr C) (c : C) : Except PyErr Unit × C :=
  match f c with
  | .ok c' => (.ok (), c')
  | .error e => (.error e, c)

/-- The commands that lock the configmap, with what their sections read elsewhere; what
`reconfigure` does between `lock` and `unlock` is arbitrary. -/
inductive Command
  | isolate (args : IsolateArgs) (env : IsolateEnv)
  | reconcile (procfs : Option (ℕ → ℤ → Bool))
  | addNodeEr
  | addNodeOir
  | reconfigure (body : Conf Scalar Yaml → Except PyErr Unit × Conf Scalar Yaml)

/-- How the text of a configmap is read and written, given the YAML library. -/
def yamlCodec (safeLoad : String → Except PyErr Document) (dump : Conf Scalar Yaml → String) :
    Codec String (Conf Scalar Yaml) where
  load text := do
    let doc ← safeLoad text
    Conf.ofYaml doc.root
  dump := dump

section Sessions

variable (codec : Codec String (Conf Scalar Yaml)) (self : Config V String (Conf Scalar Yaml))
  (v : Visit V String)

def isolateSession (args : IsolateArgs) (env : IsolateEnv) :=
  self.guardedLock codec v fun c =>
    ((isolateSection args env c).1.map fun _ => (), (isolateSection args env c).2)

def reconcileSession (procfs : Option (ℕ → ℤ → Bool)) :=
  self.unguarded codec v (updating (reconcileSection (procExistsIn procfs)))

def addNodeErSession := self.unguarded codec v (readOnly discoverSection)

def addNodeOirSession := self.unguarded codec v (readOnly discoverSection)

def reconfigureSession (body : Conf Scalar Yaml → Except PyErr Unit × Conf Scalar Yaml) :=
  self.guardedSection codec v body

def Command.session (cmd : Command) : Option (ConfigMap V String × Except PyErr Unit) :=
  match cmd with
  | .isolate args env => isolateSession codec self v args env
  | .reconcile procfs => reconcileSession codec self v procfs
  | .addNodeEr => addNodeErSession codec self v
  | .addNodeOir => addNodeOirSession codec self v
  | .reconfigure body => reconfigureSession codec self v body

end Sessions

/-- A command to its end: one session, or as many as `reconcile` runs until one raises or the
command ends in between; `none` if it does not end after these visits. -/
def Command.run (codec : Codec String (Conf Scalar Yaml))
    (self : Config V String (Conf Scalar Yaml))
    (cmd : Command) : List (Visit V String) → Option (ConfigMap V String × Except PyErr Unit)
  | [] => none
  | [v] => cmd.session codec self v
  | v :: visits =>
    match cmd, cmd.session codec self v with
    | .reconcile _, some (_, .ok ()) => cmd.run codec self visits
    | _, _ => none

/-! ## No command exits holding the lock, but for these contents -/

/-- What a section needs of the document, where it is not covered by a `finally`. -/
def Command.Accepts (cmd : Command) (doc : Yaml) : Prop :=
  match cmd with
  | .isolate _ _ => True
  | .reconcile procfs => ∀ q ∈ doc.visited.zipIdx, Reportable (procExistsIn procfs) q.2 q.1.1 q.1.2
  | .addNodeEr => Scalar.str "exclusive" ∈ doc.rows.map Prod.fst
  | .addNodeOir => Scalar.str "exclusive" ∈ doc.rows.map Prod.fst
  | .reconfigure _ => True

/-- If `lock` gets the configmap, its text is a buildable document that the command accepts. -/
def Visit.Good (safeLoad : String → Except PyErr Document) (cmd : Command) (v : Visit V String) :
    Prop :=
  v.Acquired → ∃ text doc, v.read.config = some text ∧ safeLoad text = .ok doc ∧
    doc.root.Buildable ∧ cmd.Accepts doc.root

omit [DecidableEq V] in
theorem yamlCodec_load {safeLoad : String → Except PyErr Document}
    {dump : Conf Scalar Yaml → String} {v : Visit V String} {c : Conf Scalar Yaml} :
    v.Loads (yamlCodec safeLoad dump) c ↔
      ∃ text doc, v.read.config = some text ∧ safeLoad text = .ok doc ∧
        Conf.ofYaml doc.root = .ok c := by
  refine exists_congr fun text => ?_
  rw [exists_and_left, yamlCodec, bind_eq_ok]

theorem isOk_discoverSection {c : Conf Scalar Yaml} :
    IsOk (discoverSection c) ↔ "exclusive" ∈ c.pools.keys := by
  rw [discoverSection, Conf.getPools]
  split
  · rename_i h
    simpa [IsOk] using h
  · rename_i h
    rw [not_not] at h
    obtain ⟨pool, hpool⟩ := Option.isSome_iff_exists.mp (Table.isSome_get?.mpr h)
    refine iff_of_true
      (isOk_bind.mpr ⟨pool, by rw [Conf.getPool, hpool], isOk_bind.mpr ⟨_, rfl, ?_⟩⟩) h
    split
    · rename_i h'
      obtain ⟨pool', hpool'⟩ := Option.isSome_iff_exists.mp (Table.isSome_get?.mpr h')
      exact isOk_bind.mpr ⟨pool', by rw [Conf.getPool, hpool'], isOk_bind.mpr ⟨_, rfl, isOk_pure _⟩⟩
    · exact isOk_pure _

theorem readOnly_eq_ok {α : Type} {f : C → Except PyErr α} {c : C} :
    (readOnly f c).1 = .ok () ↔ IsOk (f c) := by
  cases h : f c <;> simp [readOnly, IsOk, h, Except.map]

theorem updating_eq_ok {f : C → Except PyErr C} {c : C} :
    (updating f c).1 = .ok () ↔ IsOk (f c) := by
  cases h : f c <;> simp [updating, IsOk, h]

section Leak

variable {safeLoad : String → Except PyErr Document} {dump : Conf Scalar Yaml → String}
  {v : Visit V String}

omit [DecidableEq V] in
/-- A document is built exactly when it is buildable. -/
theorem exists_loads (p : Yaml → Prop) (q : Conf Scalar Yaml → Prop)
    (hpq : ∀ (doc : Document) c, Conf.ofYaml doc.root = .ok c → (q c ↔ p doc.root)) :
    (∃ c, v.Loads (yamlCodec safeLoad dump) c ∧ q c) ↔
      ∃ text doc, v.read.config = some text ∧ safeLoad text = .ok doc ∧ doc.root.Buildable ∧
        p doc.root := by
  constructor
  · rintro ⟨c, hload, hq⟩
    obtain ⟨text, doc, ht, hs, hc⟩ := yamlCodec_load.mp hload
    exact ⟨text, doc, ht, hs, isOk_ofYaml.mp ⟨c, hc⟩, (hpq doc c hc).mp hq⟩
  · rintro ⟨text, doc, ht, hs, hb, hp⟩
    obtain ⟨c, hc⟩ := isOk_ofYaml.mpr hb
    exact ⟨c, yamlCodec_load.mpr ⟨text, doc, ht, hs, hc⟩, (hpq doc c hc).mpr hp⟩

theorem accepts_exclusive (doc : Document) (c : Conf Scalar Yaml)
    (h : Conf.ofYaml doc.root = .ok c) :
    (readOnly discoverSection c).1 = .ok () ↔
      Scalar.str "exclusive" ∈ doc.root.rows.map Prod.fst := by
  rw [readOnly_eq_ok, isOk_discoverSection, mem_keys_ofYaml h doc.unique.1]

theorem accepts_reconcile (procfs : Option (ℕ → ℤ → Bool)) (doc : Document)
    (c : Conf Scalar Yaml) (h : Conf.ofYaml doc.root = .ok c) :
    (updating (reconcileSection (procExistsIn procfs)) c).1 = .ok () ↔
      (Command.reconcile procfs).Accepts doc.root := by
  rw [updating_eq_ok, isOk_reconcileSection, Command.Accepts, ← visited_ofYaml h doc.unique,
    List.zipIdx_map, List.forall_mem_map]
  rfl

/-- **One session.**  A command owns the configmap after it exactly when the content is not good for
it. -/
theorem session_owner {self : Config V String (Conf Scalar Yaml)}
    (hinit : self.c = none ∧ self.cData = none) (howner : self.owner ≠ "")
    (hstored : v.stored.owner ≠ some self.owner) {cmd : Command} {cm : ConfigMap V String}
    {r : Except PyErr Unit} (h : cmd.session (yamlCodec safeLoad dump) self v = some (cm, r)) :
    cm.owner ≠ some self.owner ↔ v.Good safeLoad cmd := by
  have hloads : (∃ c, v.Loads (yamlCodec safeLoad dump) c ∧ True) ↔ ∃ text doc,
      v.read.config = some text ∧ safeLoad text = .ok doc ∧ doc.root.Buildable ∧ True :=
    exists_loads (fun _ => True) (fun _ => True) fun _ _ _ => .rfl
  have hall : (∃ c, v.Loads (yamlCodec safeLoad dump) c) ↔ _ :=
    (exists_congr fun c => (and_true _).symm.to_iff).trans hloads
  cases cmd with
  | isolate args env =>
    exact (guardedLock_owner hinit howner hstored h).trans (imp_congr_right fun _ => hall)
  | reconcile procfs =>
    exact (unguarded_owner howner hstored h).trans
      (imp_congr_right fun _ => exists_loads _ _ (accepts_reconcile procfs))
  | addNodeEr =>
    exact (unguarded_owner howner hstored h).trans
      (imp_congr_right fun _ => exists_loads _ _ accepts_exclusive)
  | addNodeOir =>
    exact (unguarded_owner howner hstored h).trans
      (imp_congr_right fun _ => exists_loads _ _ accepts_exclusive)
  | reconfigure body =>
    exact (guardedSection_owner howner hstored h).trans (imp_congr_right fun _ => hall)

/-- **No command exits holding the lock**, unless a content it locked was not good for it. -/
theorem command_gives_back (safeLoad : String → Except PyErr Document)
    (dump : Conf Scalar Yaml → String) (cmName podName cmNamespace : String) (hpod : podName ≠ "")
    (cmd : Command) (visits : List (Visit V String))
    (hstored : ∀ v ∈ visits, v.stored.owner ≠ some podName) (cm : ConfigMap V String)
    (r : Except PyErr Unit)
    (h : cmd.run (yamlCodec safeLoad dump) (.init cmName podName cmNamespace) visits =
      some (cm, r)) :
    cm.owner ≠ some podName ↔ ∀ v ∈ visits, v.Good safeLoad cmd := by
  induction visits with
  | nil => simp [Command.run] at h
  | cons v visits ih =>
    obtain ⟨hv, hrest⟩ := List.forall_mem_cons.mp hstored
    cases visits with
    | nil =>
      rw [List.forall_mem_singleton]
      have hinit : (Config.init cmName podName cmNamespace : Config V String (Conf Scalar Yaml)).c
          = none := rfl
      exact session_owner ⟨hinit, rfl⟩ hpod hv h
    | cons w visits =>
      unfold Command.run at h
      split at h
      · rename_i procfs cm' hs
        have hgood : v.Good safeLoad (.reconcile procfs) := fun _ =>
          (exists_loads _ _ (accepts_reconcile procfs)).mp (unguarded_ok hs)
        rw [List.forall_mem_cons, ← ih hrest h]
        exact (and_iff_right hgood).symm
      · simp at h

end Leak

/-- A configmap whose only pool is the shared one. -/
def sharedOnly : Document where
  root := .map [(.str "shared", .map [(.int 0, .map [(.str "0", .seq [])])])]
  unique := by decide

/-- One visit to an unlocked configmap with some text. -/
def freeVisit : Visit ℕ String where
  read := ⟨some "", some "text", 0⟩
  stored := ⟨some "", some "text", 0⟩
  lockVersion := 1
  unlockVersion := 2

/-- `add_node_er` finds no exclusive pool and ends as the owner. -/
theorem addNodeEr_keeps_lock :
    ¬ ∀ (cmd : Command) (cm : ConfigMap ℕ String) (r : Except PyErr Unit),
      cmd.run (yamlCodec (fun _ => .ok sharedOnly) fun _ => "")
        (.init "cmk-config-node" "pod" "default") [freeVisit] = some (cm, r) →
      cm.owner ≠ some "pod" := by
  intro h
  exact h .addNodeEr ⟨some "pod", some "text", 1⟩
    (.error (.keyError (some "Exclusive pool does not exist"))) rfl rfl

/-- `isolate` gives the same configmap back. -/
theorem command_gives_back_isolate :
    (⟨some "", some "", 2⟩ : ConfigMap ℕ String).owner ≠ some "pod" ↔
      ∀ v ∈ [freeVisit], v.Good (fun _ => .ok sharedOnly)
        (.isolate ⟨"exclusive", none⟩ ⟨none, 0, fun _ => .ok 7⟩) :=
  command_gives_back (fun _ => .ok sharedOnly) (fun _ => "") "cmk-config-node" "pod" "default"
    (by decide) _ _ (by simp [freeVisit]) _
    (.error (.keyError (some "Requested pool exclusive does not exist"))) rfl

end Cmk
