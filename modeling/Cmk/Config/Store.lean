import Cmk.Config.Entries

/-!
# Config/Store — `build_config` and `build_configmap`

The configmap holds a nested dictionary pool → socket → CPU list → tasks; a command works on the
objects built from it.  The two directions are inverse to each other
(`buildConfigmap_of_buildConfig`, `buildConfig_buildConfigmap`).

`yaml.dump` writes the keys of a mapping sorted, so what a command reads is what the last one wrote
up to the order of keys: `SameData`.
-/

open Machinery

namespace Cmk

/-- The dictionary a configmap holds. -/
abbrev ConfDict (κ τ : Type) := Dict String (Dict Scalar (Dict κ (List τ)))

variable {κ τ : Type}

namespace ConfDict

/-- The CPU lists of the dictionary, with the place of each. -/
def entries (d : ConfDict κ τ) : List (Entry κ τ) :=
  d.rows.flatMap fun p => p.2.rows.flatMap fun s => s.2.rows.map fun cl => ⟨p.1, s.1, cl.1, cl.2⟩

/-- The sockets of the dictionary, also those without a CPU list. -/
def socketKeys (d : ConfDict κ τ) : List (String × Scalar) :=
  d.rows.flatMap fun p => p.2.keys.map fun s => (p.1, s)

/-- Equal as dictionaries: the same pools, sockets and CPU lists with the same tasks, in any order
of keys. -/
structure SameData (d d' : ConfDict κ τ) : Prop where
  pools : d.keys.Perm d'.keys
  sockets : d.socketKeys.Perm d'.socketKeys
  entries : d.entries.Perm d'.entries

theorem SameData.refl (d : ConfDict κ τ) : d.SameData d := ⟨.refl _, .refl _, .refl _⟩

theorem SameData.symm {d d' : ConfDict κ τ} (h : d.SameData d') : d'.SameData d :=
  ⟨h.pools.symm, h.sockets.symm, h.entries.symm⟩

theorem SameData.trans {d d' d'' : ConfDict κ τ} (h : d.SameData d') (h' : d'.SameData d'') :
    d.SameData d'' :=
  ⟨h.pools.trans h'.pools, h.sockets.trans h'.sockets, h.entries.trans h'.entries⟩

end ConfDict

/-! ## Dictionary to objects and back -/

def buildCoreList (cl : κ × List τ) : CoreList κ τ := ⟨cl.1, cl.2⟩

@[simp] theorem coreId_buildCoreList (cl : κ × List τ) : (buildCoreList cl).coreId = cl.1 := rfl

def buildSocket (s : Scalar × Dict κ (List τ)) : Socket κ τ :=
  ⟨s.1, s.2.map buildCoreList coreId_buildCoreList⟩

@[simp] theorem socketId_buildSocket (s : Scalar × Dict κ (List τ)) :
    (buildSocket s).socketId = s.1 := rfl

def buildPool (p : String × Dict Scalar (Dict κ (List τ))) : Pool κ τ :=
  ⟨(exclusivity p.1).getD false, p.1, p.2.map buildSocket socketId_buildSocket⟩

@[simp] theorem name_buildPool (p : String × Dict Scalar (Dict κ (List τ))) :
    (buildPool p).name = p.1 := rfl

/-- `build_config`: `exclusivity[pool]` raises for a pool it does not know. -/
def buildConfig (d : ConfDict κ τ) : Except PyErr (Conf κ τ) :=
  if ∀ pool ∈ d.keys, (exclusivity pool).isSome then .ok ⟨d.map buildPool name_buildPool⟩
  else .error (.keyError none)

def CoreList.toDict (cl : CoreList κ τ) : κ × List τ := (cl.coreId, cl.tasks)

@[simp] theorem CoreList.fst_toDict (cl : CoreList κ τ) : cl.toDict.1 = cl.coreId := rfl

def Socket.toDict (s : Socket κ τ) : Scalar × Dict κ (List τ) :=
  (s.socketId, s.coreLists.map CoreList.toDict CoreList.fst_toDict)

@[simp] theorem Socket.fst_toDict (s : Socket κ τ) : s.toDict.1 = s.socketId := rfl

def Pool.toDict (p : Pool κ τ) : String × Dict Scalar (Dict κ (List τ)) :=
  (p.name, p.sockets.map Socket.toDict Socket.fst_toDict)

@[simp] theorem Pool.fst_toDict (p : Pool κ τ) : p.toDict.1 = p.name := rfl

def buildConfigmap (c : Conf κ τ) : ConfDict κ τ := c.pools.map Pool.toDict Pool.fst_toDict

/-- Every pool has the exclusivity its name stands for. -/
def Conf.Known (c : Conf κ τ) : Prop :=
  ∀ p ∈ c.pools.rows, exclusivity p.name = some p.exclusive

theorem toDict_buildCoreList (cl : κ × List τ) : (buildCoreList cl).toDict = cl := rfl

theorem buildCoreList_toDict (cl : CoreList κ τ) : buildCoreList cl.toDict = cl := rfl

theorem toDict_buildSocket (s : Scalar × Dict κ (List τ)) : (buildSocket s).toDict = s :=
  Prod.ext rfl (s.2.map_map_cancel coreId_buildCoreList CoreList.fst_toDict
    fun cl _ => toDict_buildCoreList cl)

theorem buildSocket_toDict (s : Socket κ τ) : buildSocket s.toDict = s := by
  have h := s.coreLists.map_map_cancel CoreList.fst_toDict coreId_buildCoreList
    fun cl _ => buildCoreList_toDict cl
  cases s
  simpa [buildSocket, Socket.toDict] using h

theorem toDict_buildPool (p : String × Dict Scalar (Dict κ (List τ))) : (buildPool p).toDict = p :=
  Prod.ext rfl (p.2.map_map_cancel socketId_buildSocket Socket.fst_toDict
    fun s _ => toDict_buildSocket s)

theorem buildPool_toDict {p : Pool κ τ} (h : exclusivity p.name = some p.exclusive) :
    buildPool p.toDict = p := by
  have hs := p.sockets.map_map_cancel Socket.fst_toDict socketId_buildSocket
    fun s _ => buildSocket_toDict s
  cases p
  simpa [buildPool, Pool.toDict, h] using hs

theorem buildConfig_ok {d : ConfDict κ τ} {c : Conf κ τ} (h : buildConfig d = .ok c) :
    (∀ pool ∈ d.keys, (exclusivity pool).isSome) ∧ c = ⟨d.map buildPool name_buildPool⟩ := by
  rw [buildConfig] at h
  split at h
  · rename_i hk
    exact ⟨hk, (Except.ok.inj h).symm⟩
  · simp at h

/-- **Writing undoes reading.** -/
theorem buildConfigmap_of_buildConfig {d : ConfDict κ τ} {c : Conf κ τ}
    (h : buildConfig d = .ok c) : buildConfigmap c = d := by
  obtain ⟨-, rfl⟩ := buildConfig_ok h
  exact d.map_map_cancel name_buildPool Pool.fst_toDict fun p _ => toDict_buildPool p

/-- What is read has the exclusivities the pool names stand for. -/
theorem Conf.Known.of_buildConfig {d : ConfDict κ τ} {c : Conf κ τ} (h : buildConfig d = .ok c) :
    c.Known := by
  obtain ⟨hk, rfl⟩ := buildConfig_ok h
  intro p hp
  obtain ⟨x, hx, rfl⟩ := List.mem_map.mp hp
  obtain ⟨b, hb⟩ := Option.isSome_iff_exists.mp (hk x.1 (Table.key_mem_keys hx))
  simp [buildPool, hb]

/-- **Reading undoes writing**, for pools with the exclusivity of their names. -/
theorem buildConfig_buildConfigmap {c : Conf κ τ} (h : c.Known) :
    buildConfig (buildConfigmap c) = .ok c := by
  have hk : ∀ pool ∈ (buildConfigmap c).keys, (exclusivity pool).isSome := by
    intro pool hpool
    rw [buildConfigmap, Table.keys_map] at hpool
    obtain ⟨p, hp, rfl⟩ := Table.mem_keys.mp hpool
    simp [h p hp]
  have hmap := c.pools.map_map_cancel Pool.fst_toDict name_buildPool
    fun p hp => buildPool_toDict (h p hp)
  rw [buildConfig, if_pos hk]
  cases c
  simpa [buildConfigmap] using hmap

/-! ## Entries on both sides -/

theorem entries_buildConfigmap (c : Conf κ τ) : (buildConfigmap c).entries = c.entries := by
  simp only [ConfDict.entries, Conf.entries, buildConfigmap, Table.rows_map, List.flatMap_map,
    Pool.toDict, Socket.toDict, List.map_map]
  rfl

/-- No two CPU lists of a dictionary share a place. -/
theorem ConfDict.nodup_loc (d : ConfDict κ τ) : (d.entries.map Entry.loc).Nodup := by
  have h : (⟨d.map buildPool name_buildPool⟩ : Conf κ τ).entries = d.entries := by
    rw [← entries_buildConfigmap]
    exact congrArg ConfDict.entries
      (d.map_map_cancel name_buildPool Pool.fst_toDict fun p _ => toDict_buildPool p)
  exact h ▸ Conf.nodup_loc _

theorem entries_of_buildConfig {d : ConfDict κ τ} {c : Conf κ τ} (h : buildConfig d = .ok c) :
    c.entries = d.entries := by
  rw [← entries_buildConfigmap, buildConfigmap_of_buildConfig h]

variable [DecidableEq κ]

theorem Conf.Known.mapTasks {c : Conf κ τ} (h : c.Known) (pool : String) (s : Scalar) (cl : κ)
    (f : List τ → List τ) : (c.mapTasks pool s cl f).Known := by
  intro p hp
  simp only [Conf.mapTasks, Table.mem_rows_modify] at hp
  obtain ⟨hp, -⟩ | ⟨q, hq, -, rfl⟩ := hp
  · exact h p hp
  · exact h q hq

theorem Conf.Known.mapFirst {c : Conf κ τ} (h : c.Known) (pool : String) (cl : κ)
    (f : List τ → List τ) : (c.mapFirst pool cl f).Known := by
  rw [Conf.mapFirst_eq]
  split
  · exact h.mapTasks pool _ cl f
  · exact h

/-! ## Dictionaries as `new` writes them -/

/-- The CPUs a CPU-list name stands for. -/
def cpusOf (name : String) : List ℤ := (splitText ',' name).filterMap intOfText?

/-- The two names have no CPU in common. -/
def CpuDisjoint (cl cl' : String) : Prop := ∀ z ∈ cpusOf cl, z ∉ cpusOf cl'

instance (cl cl' : String) : Decidable (CpuDisjoint cl cl') :=
  inferInstanceAs (Decidable (∀ z ∈ cpusOf cl, z ∉ cpusOf cl'))

/-- A dictionary as `new` writes it: no tasks, names unique inside a pool, CPU lists disjoint. -/
structure ConfDict.Fresh (d : ConfDict String String) : Prop where
  empty : ∀ e ∈ d.entries, e.tasks = []
  unique : UniqueNames d.entries
  disjoint : ∀ e ∈ d.entries, ∀ e' ∈ d.entries, e.loc ≠ e'.loc →
    CpuDisjoint e.coreId e'.coreId

end Cmk
