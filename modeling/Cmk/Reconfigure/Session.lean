import Cmk.Commands
import Cmk.Reconfigure.Fits

/-!
# Reconfigure/Session — the locked session of `reconfigure`

`c_data` is replaced before the map for the pods is created, and the `finally` block publishes
whatever `c_data` then holds.  A run that fails later has published the new configuration, so the
stored data is what it was exactly when the request asked for the lists already there
(`reconfigure_keeps_data_iff`).
-/

open Machinery Machinery.Seating Cmk.Topology

namespace Cmk

/-! ## Equal data -/

/-- Equal as stored, whatever the order of keys. -/
def Conf.Same (c c' : Conf String String) : Prop := (buildConfigmap c).SameData (buildConfigmap c')

/-- The configuration has the lists of the dictionary, tasks aside. -/
structure SameLists (c : Conf String String) (d : ConfDict String String) : Prop where
  pools : c.getPools.Perm d.keys
  sockets : c.socketKeys.Perm d.socketKeys
  places : c.seats.Perm (d.entries.map Entry.loc)

instance (c : Conf String String) (d : ConfDict String String) : Decidable (SameLists c d) :=
  decidable_of_iff (c.getPools.Perm d.keys ∧ c.socketKeys.Perm d.socketKeys ∧
    c.seats.Perm (d.entries.map Entry.loc))
    ⟨fun h => ⟨h.1, h.2.1, h.2.2⟩, fun h => ⟨h.pools, h.sockets, h.places⟩⟩

/-- How YAML text is read as a dictionary and written from one. -/
structure YamlText (T : Type) where
  safeLoad : T → Except PyErr (ConfDict String String)
  dump : ConfDict String String → T

variable {V T : Type} [DecidableEq V]

def YamlText.codec (yaml : YamlText T) : Codec T (Conf String String) where
  load text := yaml.safeLoad text >>= buildConfig
  dump c := yaml.dump (buildConfigmap c)

/-- The two texts are one, or hold the same data. -/
def YamlText.SameText (yaml : YamlText T) (t t' : Option T) : Prop :=
  t = t' ∨ ∃ text text' c c', t = some text ∧ t' = some text' ∧
    yaml.codec.load text = .ok c ∧ yaml.codec.load text' = .ok c' ∧ c.Same c'

/-! ## The session -/

/-- The outcomes of the calls after `c_data` has been replaced. -/
structure Calls where
  createConfigMap : Procs String → Except PyErr Unit
  getPods : Except PyErr Unit
  executeReconfigure : Except PyErr Unit
  deleteConfigMap : Except PyErr Unit

/-- The `try` block up to the assignment to `c_data`. -/
def newData (host : Host) (req : Request) (conf : Conf String String) :
    Except PyErr (Conf String String × Procs String) := do
  let (procInfo, procs) ← buildProcInfo conf
  req.check procInfo
  reconfigureDirectory host req procInfo procs

/-- The `try` block from there to `execute_reconfigure`. -/
def publishProcs (calls : Calls) (procs : Procs String) : Except PyErr Unit := do
  exitOnApiException (calls.createConfigMap procs)
  calls.getPods

/-- The block, and the deletion after `unlock`, which needs a name assigned only after `c_data`. -/
def reconfigureSection (host : Host) (req : Request) (calls : Calls) (conf : Conf String String) :
    Except PyErr Unit × Conf String String :=
  match newData host req conf with
  | .error _ => (.error .unboundLocalError, conf)
  | .ok (new, procs) =>
    (match exitOnApiException calls.deleteConfigMap with
      | .error e => .error e
      | .ok () => do
        publishProcs calls procs
        calls.executeReconfigure, new)

/-- `reconfigure`, on the configmap it meets at the server. -/
def reconfigure (yaml : YamlText T) (self : Config V T (Conf String String)) (v : Visit V T)
    (host : Host) (req : Request) (calls : Calls) : Option (ConfigMap V T × Except PyErr Unit) :=
  self.guardedSection yaml.codec v (reconfigureSection host req calls)

/-- The run fails before `execute_reconfigure`. -/
def FailsBefore (yaml : YamlText T) (v : Visit V T) (host : Host) (req : Request) (calls : Calls) :
    Prop :=
  v.Acquired → ∀ c, v.Loads yaml.codec c → ∀ new procs, newData host req c = .ok (new, procs) →
    ¬ IsOk (publishProcs calls procs)

/-- The run gets to the assignment: the pools are known, the check passes, and the old lists fit. -/
structure Feasible (host : Host) (req : Request) (conf : Conf String String) (p : Platform)
    (pools : Pools) : Prop where
  known : IsOk (buildProcInfo conf)
  checked : IsOk (req.check (procInfo conf))
  configured : req.configure host = .ok (p, pools)
  fits : Fits conf (newConfig p pools req.exclNonIsolcpus)

/-! ## What the new configuration holds -/

variable {host : Host} {req : Request} {calls : Calls} {p : Platform} {pools : Pools}
  {old new' : Conf String String} {procs' : Procs String}

theorem socketKeys_buildConfigmap (c : Conf String String) :
    (buildConfigmap c).socketKeys = c.socketKeys := by
  rw [ConfDict.socketKeys, Conf.socketKeys, buildConfigmap, Table.rows_map, List.flatMap_map]
  refine List.flatMap_congr fun p _ => ?_
  rw [Pool.toDict, Table.keys_map]

theorem keys_buildConfigmap (c : Conf String String) : (buildConfigmap c).keys = c.getPools :=
  c.pools.keys_map _ _

/-- **The run gets to the assignment exactly when the request is feasible.** -/
theorem isOk_newData_iff
    (hd : ∀ lscpuOutput, host.lscpu = .ok lscpuOutput → DistinctCpus lscpuOutput) :
    IsOk (newData host req old) ↔ ∃ p pools, Feasible host req old p pools := by
  constructor
  · rintro ⟨x, h⟩
    obtain ⟨⟨infos, procs⟩, hinfo, h⟩ := bind_eq_ok.mp h
    obtain ⟨u, hcheck, h⟩ := bind_eq_ok.mp h
    obtain ⟨⟨p, pools⟩, hconf, hrest⟩ := bind_eq_ok.mp h
    obtain ⟨rfl, rfl⟩ := buildProcInfo_ok hinfo
    exact ⟨p, pools, ⟨_, hinfo⟩, ⟨u, hcheck⟩, hconf,
      (isOk_reconfigureDirectory_iff hd hconf hinfo).mp ⟨x, h⟩⟩
  · rintro ⟨p, pools, ⟨⟨infos, procs⟩, hinfo⟩, ⟨u, hcheck⟩, hconf, hfits⟩
    obtain ⟨x, hx⟩ := (isOk_reconfigureDirectory_iff hd hconf hinfo).mpr hfits
    obtain ⟨rfl, rfl⟩ := buildProcInfo_ok hinfo
    exact ⟨x, bind_eq_ok.mpr ⟨_, hinfo, bind_eq_ok.mpr ⟨u, hcheck, hx⟩⟩⟩

section SamePlaces

variable {infos : List (ProcessInfo String)} {new : Conf String String} {st : Matching String}
  {e : Entry String String}

/-- With the same lists, every group stays. -/
theorem placeIn_self (hst : Seated old new infos (seatingOf new infos).1 st)
    (hplaces : old.seats.Perm new.seats) (he : e ∈ old.occupied) :
    placeIn (seatingOf new infos).1 e = e := by
  have hloc : e.loc ∈ old.seats := List.mem_map_of_mem (mem_occupied.mp he).1
  obtain ⟨-, -, htasks⟩ := hst.placed he
  exact Entry.eq_of_loc_eq (hst.stays he (hplaces.mem_iff.mp hloc)) htasks

/-- With the same lists, every list has its tasks again. -/
theorem mem_entries_of_places (hst : Seated old new infos (seatingOf new infos).1 st)
    (hplaces : old.seats.Perm new.seats) (he : e ∈ old.entries) : e ∈ st.conf.entries := by
  have hloc : e.loc ∈ st.conf.seats :=
    hst.follows.seats ▸ hplaces.mem_iff.mp (List.mem_map_of_mem he)
  obtain ⟨y, hy, hloc⟩ := List.mem_map.mp hloc
  by_cases hocc : e ∈ old.occupied
  · have hplaced := hst.placed hocc
    rw [placeIn_self hst hplaces hocc] at hplaced
    exact (mem_occupied.mp hplaced.1).1
  · -- A list that is free is not where a group stays.
    have hfree : y.tasks = [] := by
      by_contra hne
      obtain ⟨e', he', rfl⟩ := hst.surjective (mem_occupied.mpr ⟨hy, hne⟩)
      rw [placeIn_self hst hplaces he'] at hloc
      exact hocc (Conf.eq_of_loc_eq (mem_occupied.mp he').1 he hloc ▸ he')
    have htasks : e.tasks = [] := by
      by_contra hne
      exact hocc (mem_occupied.mpr ⟨he, hne⟩)
    exact Entry.eq_of_loc_eq hloc (hfree.trans htasks.symm) ▸ hy

/-- **With the same lists, the new configuration has the same tasks.** -/
theorem entries_perm_of_places (hst : Seated old new infos (seatingOf new infos).1 st)
    (hplaces : old.seats.Perm new.seats) : old.entries.Perm st.conf.entries := by
  have hsub : old.entries ⊆ st.conf.entries := fun e he => mem_entries_of_places hst hplaces he
  refine (List.subperm_of_subset old.nodup_loc.of_map hsub).perm_of_length_le ?_
  have hlen := hplaces.length_eq
  rw [← hst.follows.seats, Conf.seats, Conf.seats, List.length_map, List.length_map] at hlen
  omega

end SamePlaces

/-- **What replaces the data is the new configuration with everybody seated.** -/
theorem seated_of_newData
    (hd : ∀ lscpuOutput, host.lscpu = .ok lscpuOutput → DistinctCpus lscpuOutput)
    (hconf : req.configure host = .ok (p, pools)) (h : newData host req old = .ok (new', procs')) :
    ∃ new st, buildConfig (newConfig p pools req.exclNonIsolcpus) = .ok new ∧
      Seated old new (procInfo old) (seatingOf new (procInfo old)).1 st ∧ st.conf = new' := by
  obtain ⟨⟨infos, procs⟩, hinfo, h⟩ := bind_eq_ok.mp h
  obtain ⟨-, -, h⟩ := bind_eq_ok.mp h
  obtain ⟨rfl, rfl⟩ := buildProcInfo_ok hinfo
  obtain ⟨new, hnew, -, hempty, hu⟩ :=
    buildConfig_newConfig (configure_ok hd hconf).1 pools req.exclNonIsolcpus
  rw [reconfigureDirectory_eq hconf hnew] at h
  obtain ⟨st, hst, hconf', -⟩ := seated_of_matching hempty hu (.refl _) h
  exact ⟨new, st, hnew, hst, hconf'⟩

/-- Its pools are those of the new configuration. -/
theorem getPools_newData
    (hd : ∀ lscpuOutput, host.lscpu = .ok lscpuOutput → DistinctCpus lscpuOutput)
    (hconf : req.configure host = .ok (p, pools)) (h : newData host req old = .ok (new', procs')) :
    new'.getPools = (newConfig p pools req.exclNonIsolcpus).keys := by
  obtain ⟨new, st, hnew, hst, rfl⟩ := seated_of_newData hd hconf h
  rw [hst.follows.pools, ← keys_buildConfigmap, buildConfigmap_of_buildConfig hnew]

/-- **What replaces the data is the same exactly when the request asks for the lists there are.** -/
theorem same_iff_sameLists
    (hd : ∀ lscpuOutput, host.lscpu = .ok lscpuOutput → DistinctCpus lscpuOutput)
    (hconf : req.configure host = .ok (p, pools)) (h : newData host req old = .ok (new', procs')) :
    old.Same new' ↔ SameLists old (newConfig p pools req.exclNonIsolcpus) := by
  have hpools := getPools_newData hd hconf h
  obtain ⟨new, st, hnew, hst, rfl⟩ := seated_of_newData hd hconf h
  have hd' := buildConfigmap_of_buildConfig hnew
  have hsockets : st.conf.socketKeys = (newConfig p pools req.exclNonIsolcpus).socketKeys := by
    rw [hst.follows.sockets, ← hd', socketKeys_buildConfigmap]
  have hseats : st.conf.seats = (newConfig p pools req.exclNonIsolcpus).entries.map Entry.loc := by
    rw [hst.follows.seats, Conf.seats, entries_of_buildConfig hnew]
  constructor
  · rintro ⟨h₁, h₂, h₃⟩
    rw [keys_buildConfigmap, keys_buildConfigmap, hpools] at h₁
    rw [socketKeys_buildConfigmap, socketKeys_buildConfigmap, hsockets] at h₂
    rw [entries_buildConfigmap, entries_buildConfigmap] at h₃
    exact ⟨h₁, h₂, (h₃.map Entry.loc).trans (.of_eq hseats)⟩
  · rintro ⟨h₁, h₂, h₃⟩
    refine ⟨?_, ?_, ?_⟩
    · rwa [keys_buildConfigmap, keys_buildConfigmap, hpools]
    · rwa [socketKeys_buildConfigmap, socketKeys_buildConfigmap, hsockets]
    · rw [entries_buildConfigmap, entries_buildConfigmap]
      exact entries_perm_of_places hst (h₃.trans (.of_eq (hseats.symm.trans hst.follows.seats)))

/-! ## What a session publishes -/

section Published

variable {C : Type} {codec : Codec T C} {self config : Config V T C} {v : Visit V T}
  {body : C → Except PyErr Unit × C} {cm cm' : ConfigMap V T} {r : Except PyErr Unit}

/-- `lock` leaves the data as it is stored. -/
theorem lock_config (hversion : v.Acquired → v.read = v.stored)
    (h : self.lock codec v = some (cm, config, r)) : cm.config = v.stored.config := by
  rw [Config.lock] at h
  cases hc : self.claim? v.read with
  | error e =>
    obtain ⟨rfl, -⟩ := by simpa [hc] using h
    rfl
  | ok body? =>
    cases body? with
    | none => simp [hc] at h
    | some patch =>
      obtain ⟨hfree, rfl⟩ := claim?_eq_some.mp hc
      cases hp : v.stored.patch ⟨self.owner, v.read.config, some v.read.resourceVersion⟩
          v.lockVersion with
      | error e =>
        obtain ⟨rfl, -⟩ := by simpa [hc, hp] using h
        rfl
      | ok cm' =>
        obtain ⟨rfl, -⟩ := by simpa [hc, hp] using h
        obtain ⟨hver, rfl⟩ := patch_versioned.mp hp
        rw [hversion ⟨hfree, hver⟩, Option.or_self]

/-- A session that gets the configmap and can build its content. -/
theorem guardedSection_of_acquired {c : C} (hacq : v.Acquired) (hload : v.Loads codec c) :
    self.guardedSection codec v body =
      some (⟨some "", some (codec.dump (body c).2), v.unlockVersion⟩, (body c).1) := by
  obtain ⟨text, htext, hc⟩ := hload
  have hclaim : self.claim? v.read = .ok (some ⟨self.owner, v.read.config, some _⟩) :=
    claim?_eq_some.mpr ⟨hacq.1, rfl⟩
  simp [Config.guardedSection, Config.lock, hclaim, hacq.2, Config.enter, htext, hc,
    Config.runSection, Config.unlock, Config.unlockPatch, ConfigMap.patch]

/-- **A session whose `finally` covers the section** publishes what the section leaves, however it
ends, and nothing if there is none. -/
theorem guardedSection_config (hversion : v.Acquired → v.read = v.stored)
    (h : self.guardedSection codec v body = some (cm, r)) :
    (¬ (v.Acquired ∧ ∃ c, v.Loads codec c) ∧ cm.config = v.stored.config) ∨
      ∃ c, v.Acquired ∧ v.Loads codec c ∧ cm.config = some (codec.dump (body c).2) := by
  by_cases hboth : v.Acquired ∧ ∃ c, v.Loads codec c
  · obtain ⟨hacq, c, hload⟩ := hboth
    rw [guardedSection_of_acquired hacq hload] at h
    exact .inr ⟨c, hacq, hload, congrArg (fun x => x.1.config) (Option.some.inj h).symm⟩
  · refine .inl ⟨hboth, ?_⟩
    rw [Config.guardedSection] at h
    cases hl : self.lock codec v with
    | none => simp [hl] at h
    | some x =>
      obtain ⟨cm', config, r'⟩ := x
      have hdata := lock_config hversion hl
      rcases lock_cases hl with ⟨-, -, -, e, rfl⟩ | ⟨-, -, -, -, e, rfl⟩ |
          ⟨hacq, -, rfl, c, hload, -, -⟩
      · simp only [hl, Option.some.injEq] at h
        obtain rfl : cm' = cm := congrArg Prod.fst h
        exact hdata
      · simp only [hl, Option.some.injEq] at h
        obtain rfl : cm' = cm := congrArg Prod.fst h
        exact hdata
      · exact absurd ⟨hacq, c, hload⟩ hboth

end Published

/-! ## All or nothing -/

variable {yaml : YamlText T} {self : Config V T (Conf String String)} {v : Visit V T}
  {cm : ConfigMap V T} {r : Except PyErr Unit}

/-- What is dumped is read as the same data. -/
theorem exists_load_dump (hyaml : ∀ d, ∃ d', yaml.safeLoad (yaml.dump d) = .ok d' ∧ d.SameData d')
    {c : Conf String String} (hknown : ∀ pool ∈ c.getPools, (exclusivity pool).isSome) :
    ∃ c', yaml.codec.load (yaml.codec.dump c) = .ok c' ∧ c.Same c' := by
  obtain ⟨d, hload, hsame⟩ := hyaml (buildConfigmap c)
  have hd : ∀ pool ∈ d.keys, (exclusivity pool).isSome := by
    intro pool hpool
    have hmem := hsame.pools.mem_iff.mpr hpool
    rw [keys_buildConfigmap] at hmem
    exact hknown pool hmem
  have hbuild : buildConfig d = .ok _ := if_pos hd
  refine ⟨_, bind_eq_ok.mpr ⟨d, hload, hbuild⟩, ?_⟩
  rw [Conf.Same, buildConfigmap_of_buildConfig hbuild]
  exact hsame

/-- A text is the same as a dump exactly when the data is. -/
theorem sameText_dump_iff
    (hyaml : ∀ d, ∃ d', yaml.safeLoad (yaml.dump d) = .ok d' ∧ d.SameData d')
    {text : T} {c c' : Conf String String} (hload : yaml.codec.load text = .ok c)
    (hknown : ∀ pool ∈ c'.getPools, (exclusivity pool).isSome) :
    yaml.SameText (some text) (some (yaml.codec.dump c')) ↔ c.Same c' := by
  obtain ⟨c'', hload', hsame⟩ := exists_load_dump hyaml hknown
  constructor
  · rintro (heq | ⟨_, _, c₁, c₂, htext, htext', h₁, h₂, h⟩)
    · obtain rfl := Option.some.inj heq
      obtain rfl := Except.ok.inj (hload.symm.trans hload')
      exact hsame.symm
    · obtain rfl := Option.some.inj htext
      obtain rfl := Option.some.inj htext'
      obtain rfl := Except.ok.inj (hload.symm.trans h₁)
      obtain rfl := Except.ok.inj (hload'.symm.trans h₂)
      exact h.trans hsame.symm
  · exact fun h => .inr ⟨_, _, c, c'', rfl, rfl, hload, hload', h.trans hsame⟩

/-- The pools of what is read are known. -/
theorem known_of_load {text : T} {c : Conf String String} (h : yaml.codec.load text = .ok c) :
    ∀ pool ∈ c.getPools, (exclusivity pool).isSome := by
  obtain ⟨d, -, h⟩ := bind_eq_ok.mp h
  rw [← keys_buildConfigmap, buildConfigmap_of_buildConfig h]
  exact (buildConfig_ok h).1

/-- **The data is kept exactly when the request asks for the lists there are**, if it gets that far:
what the run publishes does not depend on the calls made later. -/
theorem sameText_reconfigure_iff
    (hyaml : ∀ d, ∃ d', yaml.safeLoad (yaml.dump d) = .ok d' ∧ d.SameData d')
    (hd : ∀ lscpuOutput, host.lscpu = .ok lscpuOutput → DistinctCpus lscpuOutput)
    (hversion : v.Acquired → v.read = v.stored)
    (h : reconfigure yaml self v host req calls = some (cm, r)) :
    yaml.SameText v.stored.config cm.config ↔ (v.Acquired → ∀ c, v.Loads yaml.codec c →
      ∀ p pools, Feasible host req c p pools →
        SameLists c (newConfig p pools req.exclNonIsolcpus)) := by
  obtain ⟨hnone, hcm⟩ | ⟨c, hacq, hload, hcm⟩ := guardedSection_config hversion h
  · exact ⟨fun _ hacq c hload => absurd ⟨hacq, c, hload⟩ hnone, fun _ => .inl hcm.symm⟩
  · obtain ⟨text, htext, hc⟩ := hload
    have hall : (v.Acquired → ∀ c, v.Loads yaml.codec c → ∀ p pools, Feasible host req c p pools →
        SameLists c (newConfig p pools req.exclNonIsolcpus)) ↔
        ∀ p pools, Feasible host req c p pools →
          SameLists c (newConfig p pools req.exclNonIsolcpus) :=
      ⟨fun hs => hs hacq c ⟨text, htext, hc⟩, fun hs _ c' hc' =>
        hc'.unique ⟨text, htext, hc⟩ ▸ hs⟩
    rw [hall, hcm, ← hversion hacq, htext, reconfigureSection]
    cases hnew : newData host req c with
    | error e =>
      refine iff_of_true ((sameText_dump_iff hyaml hc (known_of_load hc)).mpr (.refl _)) ?_
      intro p pools hfeas
      obtain ⟨x, hx⟩ := (isOk_newData_iff hd).mpr ⟨p, pools, hfeas⟩
      nomatch hnew.symm.trans hx
    | ok x =>
      obtain ⟨p, pools, hfeas⟩ := (isOk_newData_iff hd).mp ⟨x, hnew⟩
      obtain ⟨_, hbuild, -⟩ :=
        buildConfig_newConfig (configure_ok hd hfeas.configured).1 pools req.exclNonIsolcpus
      have hknown : ∀ pool ∈ x.1.getPools, (exclusivity pool).isSome :=
        getPools_newData hd hfeas.configured hnew ▸ (buildConfig_ok hbuild).1
      rw [sameText_dump_iff hyaml hc hknown, same_iff_sameLists hd hfeas.configured hnew]
      refine ⟨fun hs p' pools' hfeas' => ?_, fun hs => hs p pools hfeas⟩
      obtain ⟨rfl, rfl⟩ :=
        Prod.mk.inj (Except.ok.inj (hfeas.configured.symm.trans hfeas'.configured))
      exact hs

/-- **A run that fails early keeps the data exactly when** it fails before the assignment to
`c_data` or asks for the pools, sockets and CPU lists the node has. -/
theorem reconfigure_keeps_data_iff (yaml : YamlText T)
    (hyaml : ∀ d, ∃ d', yaml.safeLoad (yaml.dump d) = .ok d' ∧ d.SameData d')
    (self : Config V T (Conf String String)) (v : Visit V T)
    (hversion : v.Acquired → v.read = v.stored) (host : Host)
    (hd : ∀ lscpuOutput, host.lscpu = .ok lscpuOutput → DistinctCpus lscpuOutput) (req : Request)
    (calls : Calls) (cm : ConfigMap V T) (r : Except PyErr Unit)
    (h : reconfigure yaml self v host req calls = some (cm, r)) :
    (FailsBefore yaml v host req calls → yaml.SameText v.stored.config cm.config) ↔
      (FailsBefore yaml v host req calls → v.Acquired → ∀ c, v.Loads yaml.codec c →
        ∀ p pools, Feasible host req c p pools →
          SameLists c (newConfig p pools req.exclNonIsolcpus)) :=
  imp_congr_right fun _ => sameText_reconfigure_iff hyaml hd hversion h

/-! ## A map left over -/

/-- Texts that are the dictionaries they stand for. -/
def plainYaml : YamlText (ConfDict String String) := ⟨.ok, id⟩

/-- The packed node, read and locked by nobody else. -/
def packedVisit : Visit ℕ (ConfDict String String) where
  read := ⟨some "", some (buildConfigmap packedConf), 0⟩
  stored := ⟨some "", some (buildConfigmap packedConf), 0⟩
  lockVersion := 1
  unlockVersion := 2

def reconfigurePod : Config ℕ (ConfDict String String) (Conf String String) :=
  .init "cmk-config-node" "cmk-reconfigure-pod" "default"

/-- The map of the last run is still there. -/
def mapLeftOver : Calls where
  createConfigMap _ := .error .apiException
  getPods := .ok ()
  executeReconfigure := .ok ()
  deleteConfigMap := .ok ()

/-- The packed node with one shared core more. -/
def sharedRequest : Request := { packedRequest with numSharedCores := 2 }

omit [DecidableEq V] in
theorem mapLeftOver_fails (yaml : YamlText T) (v : Visit V T) (host : Host) (req : Request) :
    FailsBefore yaml v host req mapLeftOver := by
  rintro - c - new procs - ⟨u, hu⟩
  nomatch hu

/-- Wherever it fails, it ends with an error. -/
theorem mapLeftOver_error (host : Host) (req : Request) (c : Conf String String) :
    ∃ e, (reconfigureSection host req mapLeftOver c).1 = .error e := by
  unfold reconfigureSection
  split
  · exact ⟨_, rfl⟩
  · exact ⟨_, rfl⟩

theorem packedVisit_acquired : packedVisit.Acquired := ⟨rfl, rfl⟩

theorem packedVisit_loads : packedVisit.Loads plainYaml.codec packedConf := by
  have hknown : packedConf.Known := by
    unfold Conf.Known
    decide
  exact ⟨_, rfl, bind_eq_ok.mpr ⟨_, rfl, buildConfig_buildConfigmap hknown⟩⟩

/-- What the run comes to on the packed node. -/
theorem packed_run (req : Request) :
    reconfigure plainYaml reconfigurePod packedVisit twoSockets req mapLeftOver = some
      (⟨some "", some (plainYaml.codec.dump
        (reconfigureSection twoSockets req mapLeftOver packedConf).2), 2⟩,
        (reconfigureSection twoSockets req mapLeftOver packedConf).1) :=
  guardedSection_of_acquired packedVisit_acquired packedVisit_loads

/-- The packed node reconfigured as it is. -/
theorem reconfigure_keeps_data_packed : ∃ cm r,
    reconfigure plainYaml reconfigurePod packedVisit twoSockets packedRequest mapLeftOver
        = some (cm, r) ∧ plainYaml.SameText packedVisit.stored.config cm.config := by
  have hsame : ((packedRequest.configure twoSockets).toOption.map fun x =>
      decide (SameLists packedConf (newConfig x.1 x.2 "-1"))) = some true := by decide
  have hrun := packed_run packedRequest
  refine ⟨_, _, hrun, (reconfigure_keeps_data_iff plainYaml (fun d => ⟨d, rfl, .refl d⟩)
    reconfigurePod packedVisit (fun _ => rfl) twoSockets twoSockets_distinct packedRequest
    mapLeftOver _ _ hrun).mpr ?_ (mapLeftOver_fails _ _ _ _)⟩
  rintro - - c hc p pools hfeas
  obtain rfl := hc.unique packedVisit_loads
  rw [hfeas.configured] at hsame
  exact of_decide_eq_true (Option.some.inj hsame)

/-- With a map left over the run fails, and the shared pool has changed. -/
theorem reconfigure_publishes_despite_failure : ∃ cm e,
    reconfigure plainYaml reconfigurePod packedVisit twoSockets sharedRequest mapLeftOver
        = some (cm, .error e) ∧
      FailsBefore plainYaml packedVisit twoSockets sharedRequest mapLeftOver ∧
      ¬ plainYaml.SameText packedVisit.stored.config cm.config := by
  have hfits : ((sharedRequest.configure twoSockets).toOption.map fun x =>
      (decide (Fits packedConf (newConfig x.1 x.2 "-1")),
        decide (SameLists packedConf (newConfig x.1 x.2 "-1")))) = some (true, false) := by decide
  have hrun := packed_run sharedRequest
  obtain ⟨e, he⟩ := mapLeftOver_error twoSockets sharedRequest packedConf
  refine ⟨_, e, he ▸ hrun, mapLeftOver_fails _ _ _ _, fun hkept => ?_⟩
  have hiff := sameText_reconfigure_iff (fun d => ⟨d, rfl, .refl d⟩) twoSockets_distinct
    (fun _ => rfl) hrun
  cases hconf : sharedRequest.configure twoSockets with
  | error err =>
    rw [hconf] at hfits
    nomatch hfits
  | ok x =>
    rw [hconf] at hfits
    obtain ⟨hfit, hsame⟩ := Prod.mk.inj (Option.some.inj hfits)
    exact of_decide_eq_false hsame (hiff.mp hkept packedVisit_acquired packedConf packedVisit_loads
      x.1 x.2 ⟨⟨_, rfl⟩, ⟨(), rfl⟩, hconf, of_decide_eq_true hfit⟩)

end Cmk
