import Cmk.Config.Store
import Cmk.Init.Configure

/-!
# Config/New — the configuration `init` writes

`newConfig` encodes the pools of a platform: a pool for single tasks gets one CPU list for each
core, any other pool one for each socket.  A CPU list is the text of the CPUs of a `Group` of cores
(`encodes_newConfig`); the groups share no core, which is where every property of the configuration
comes from.
-/

open Machinery Machinery.Deal Cmk.Topology

namespace Cmk

/-! ## The two encoders -/

/-- The names `update_configmap_exclusive` gives the CPU lists of a socket. -/
def exclusiveNames (pools : Pools) (poolName : String) (s : Topology.Socket) : List String :=
  (s.getCoresFromPool pools poolName).map fun core => encodeInts core.cpuIds

/-- The names `update_configmap_shared` gives them: one, or none for a socket without such cores. -/
def sharedNames (pools : Pools) (poolName : String) (s : Topology.Socket) : List String :=
  if (s.getCoresFromPool pools poolName).flatMap Core.cpuIds = [] then []
  else [encodeInts ((s.getCoresFromPool pools poolName).flatMap Core.cpuIds)]

/-- CPU lists without tasks. -/
def listDict (names : List String) : Dict String (List String) :=
  .ofList Prod.fst (names.map fun name => (name, []))

def socketDict (p : Platform) (names : Topology.Socket → List String) :
    Dict Scalar (Dict String (List String)) :=
  .ofList Prod.fst (p.sockets.rows.map fun s => (Scalar.int s.socketId, listDict (names s)))

/-- A pool with the CPU lists named, none of them with a task. -/
def addPool (poolName : String) (p : Platform) (names : Topology.Socket → List String)
    (config : ConfDict String String) : ConfDict String String :=
  config.insert (poolName, socketDict p names)

def updateConfigmapExclusive (poolName : String) (p : Platform) (pools : Pools) :
    ConfDict String String → ConfDict String String :=
  addPool poolName p (exclusiveNames pools poolName)

def updateConfigmapShared (poolName : String) (p : Platform) (pools : Pools) :
    ConfDict String String → ConfDict String String :=
  addPool poolName p (sharedNames pools poolName)

/-- The dictionary `new` builds. -/
def newConfig (p : Platform) (pools : Pools) (exclNonIsolcpus : String) : ConfDict String String :=
  let config := updateConfigmapShared "shared" p pools
    (updateConfigmapExclusive "exclusive" p pools .empty)
  updateConfigmapShared "infra" p pools
    (if exclNonIsolcpus ≠ "-1" ∧ p.hasIsolatedCores then
      updateConfigmapExclusive "exclusive-non-isolcpus" p pools config
    else config)

/-! ## Groups of cores -/

/-- The cores behind a CPU list, with the pool and the socket it is filed under. -/
structure Group where
  pool : String
  socketId : ℤ
  cores : List Core

namespace Group

def cpuIds (g : Group) : List ℤ := g.cores.flatMap Core.cpuIds

/-- The CPU list of a group. -/
def entry (g : Group) : Entry String String :=
  ⟨g.pool, .int g.socketId, encodeInts g.cpuIds, []⟩

end Group

/-- The groups of a pool on a socket. -/
def socketGroups (pools : Pools) (pool : String) (s : Topology.Socket) : List Group :=
  if exclusivity pool = some true then
    (s.getCoresFromPool pools pool).map fun core => ⟨pool, s.socketId, [core]⟩
  else if s.getCoresFromPool pools pool = [] then []
  else [⟨pool, s.socketId, s.getCoresFromPool pools pool⟩]

/-- The groups of a pool. -/
def poolGroups (p : Platform) (pools : Pools) (pool : String) : List Group :=
  p.sockets.rows.flatMap (socketGroups pools pool)

/-- The pools of the configuration, as they are added. -/
def newPools (p : Platform) (exclNonIsolcpus : String) : List String :=
  ["exclusive", "shared"] ++
    (if exclNonIsolcpus ≠ "-1" ∧ p.hasIsolatedCores then ["exclusive-non-isolcpus"] else []) ++
    ["infra"]

variable {p : Platform} {pools : Pools} {pool : String} {s : Topology.Socket} {gs : List Group}

theorem flatMap_socketGroups (pools : Pools) (pool : String) (s : Topology.Socket) :
    (socketGroups pools pool s).flatMap Group.cores = s.getCoresFromPool pools pool := by
  unfold socketGroups
  split
  · rw [List.flatMap_map]
    exact List.flatMap_singleton' _
  · split
    · rename_i hnil
      exact hnil.symm
    · exact List.flatMap_singleton _ _

/-- **The groups of a pool are made of its cores**, each used once. -/
theorem flatMap_poolGroups (p : Platform) (pools : Pools) (pool : String) :
    (poolGroups p pools pool).flatMap Group.cores = holders pools p.cores pool := by
  rw [poolGroups, List.flatMap_assoc, holders, Platform.cores, List.filter_flatMap]
  exact List.flatMap_congr fun s _ => flatMap_socketGroups pools pool s

theorem mem_socketGroups {g : Group} (h : g ∈ socketGroups pools pool s) :
    g.pool = pool ∧ g.socketId = s.socketId ∧ g.cores ≠ [] := by
  unfold socketGroups at h
  split at h
  · obtain ⟨core, -, rfl⟩ := List.mem_map.mp h
    exact ⟨rfl, rfl, List.cons_ne_nil _ _⟩
  · split at h
    · nomatch h
    · obtain rfl := List.mem_singleton.mp h
      exact ⟨rfl, rfl, ‹_›⟩

theorem mem_poolGroups {g : Group} (h : g ∈ poolGroups p pools pool) :
    g.pool = pool ∧ g.cores ≠ [] := by
  obtain ⟨s, -, hg⟩ := List.mem_flatMap.mp h
  exact ⟨(mem_socketGroups hg).1, (mem_socketGroups hg).2.2⟩

/-! ## Groups that share no core -/

/-- Groups of cores of a platform, none of them empty, no core used twice. -/
structure Groups (p : Platform) (gs : List Group) : Prop where
  nonempty : ∀ g ∈ gs, g.cores ≠ []
  nodup : (gs.flatMap Group.cores).Nodup
  subset : gs.flatMap Group.cores ⊆ p.cores

namespace Groups

theorem cpuIds_ne_nil (h : Groups p gs) (hok : p.Ok) {g : Group} (hg : g ∈ gs) :
    g.cpuIds ≠ [] := by
  obtain ⟨core, hc⟩ := List.exists_mem_of_ne_nil _ (h.nonempty g hg)
  have hin : core ∈ p.cores := h.subset (List.mem_flatMap.mpr ⟨g, hg, hc⟩)
  obtain ⟨z, hz⟩ := List.exists_mem_of_ne_nil _ (hok.nonempty core hin)
  exact List.ne_nil_of_mem (List.mem_flatMap.mpr ⟨core, hc, hz⟩)

/-- **No CPU is in two groups.** -/
theorem disjoint (h : Groups p gs) (hok : p.Ok) :
    gs.Pairwise fun g g' => ∀ z ∈ g.cpuIds, z ∉ g'.cpuIds := by
  have hpair := (List.nodup_flatMap.mp h.nodup).2
  refine hpair.imp_of_mem fun {g g'} hg hg' hdis z hz hz' => ?_
  obtain ⟨core, hc, hz⟩ := List.mem_flatMap.mp hz
  obtain ⟨core', hc', hz'⟩ := List.mem_flatMap.mp hz'
  have heq : core = core' := hok.disjoint core (h.subset (List.mem_flatMap.mpr ⟨g, hg, hc⟩)) core'
    (h.subset (List.mem_flatMap.mpr ⟨g', hg', hc'⟩)) z hz hz'
  exact hdis hc (heq ▸ hc')

theorem nodup_names (h : Groups p gs) (hok : p.Ok) :
    (gs.map fun g => encodeInts g.cpuIds).Nodup := by
  refine List.pairwise_map.mpr ((h.disjoint hok).imp_of_mem fun {g g'} hg hg' hdis heq => ?_)
  have hids : g.cpuIds = g'.cpuIds :=
    encodeInts_injective (h.cpuIds_ne_nil hok hg) (h.cpuIds_ne_nil hok hg') heq
  obtain ⟨z, hz⟩ := List.exists_mem_of_ne_nil _ (h.cpuIds_ne_nil hok hg)
  exact hdis z hz (hids ▸ hz)

end Groups

theorem groups_socketGroups (hs : s ∈ p.sockets.rows) :
    Groups p (socketGroups pools pool s) := by
  refine ⟨fun g hg => (mem_socketGroups hg).2.2, ?_, ?_⟩
  · rw [flatMap_socketGroups]
    exact s.cores.nodup_rows.filter _
  · rw [flatMap_socketGroups]
    exact fun c hc => mem_cores.mpr ⟨s, hs, List.mem_of_mem_filter hc⟩

/-- Pools share no core. -/
theorem groups_flatMap (pools : Pools) (hok : p.Ok) {ps : List String} (hps : ps.Nodup) :
    Groups p (ps.flatMap (poolGroups p pools)) := by
  have hcores : (ps.flatMap (poolGroups p pools)).flatMap Group.cores =
      ps.flatMap (holders pools p.cores) := by
    rw [List.flatMap_assoc]
    exact List.flatMap_congr fun pool _ => flatMap_poolGroups p pools pool
  refine ⟨fun g hg => ?_, ?_, ?_⟩
  · obtain ⟨pool, -, hg⟩ := List.mem_flatMap.mp hg
    exact (mem_poolGroups hg).2
  · rw [hcores, List.nodup_flatMap]
    refine ⟨fun pool _ => hok.nodup_cores.filter _, hps.imp fun {pool pool'} hne core hc hc' => ?_⟩
    exact hne (Option.some.inj ((mem_holders.mp hc).2.symm.trans (mem_holders.mp hc').2))
  · rw [hcores]
    intro core hc
    obtain ⟨pool, -, hc⟩ := List.mem_flatMap.mp hc
    exact (mem_holders.mp hc).1

/-! ## The configuration and its groups -/

theorem exclusiveNames_eq (h : exclusivity pool = some true) (s : Topology.Socket) :
    exclusiveNames pools pool s =
      (socketGroups pools pool s).map fun g => encodeInts g.cpuIds := by
  rw [socketGroups, if_pos h, List.map_map, exclusiveNames]
  exact List.map_congr_left fun core _ => by simp [Group.cpuIds]

theorem sharedNames_eq (hok : p.Ok) (h : exclusivity pool ≠ some true)
    (hs : s ∈ p.sockets.rows) :
    sharedNames pools pool s =
      (socketGroups pools pool s).map fun g => encodeInts g.cpuIds := by
  have hnil : (s.getCoresFromPool pools pool).flatMap Core.cpuIds = [] ↔
      s.getCoresFromPool pools pool = [] := by
    rw [List.flatMap_eq_nil_iff, List.eq_nil_iff_forall_not_mem]
    refine forall_congr' fun core => ⟨fun hc hin => ?_, fun hc hin => absurd hin hc⟩
    exact hok.nonempty core (mem_cores.mpr ⟨s, hs, List.mem_of_mem_filter hin⟩) (hc hin)
  rw [socketGroups, if_neg h, sharedNames]
  by_cases hc : s.getCoresFromPool pools pool = []
  · rw [if_pos (hnil.mpr hc), if_pos hc, List.map_nil]
  · rw [if_neg (mt hnil.mp hc), if_neg hc, List.map_singleton, Group.cpuIds]

theorem rows_listDict {names : List String} (h : names.Nodup) :
    (listDict names).rows = names.map fun name => (name, []) :=
  Table.rows_ofList (by simpa [Function.comp_def] using h)

theorem rows_socketDict (p : Platform) (names : Topology.Socket → List String) :
    (socketDict p names).rows =
      p.sockets.rows.map fun s => (Scalar.int s.socketId, listDict (names s)) := by
  refine Table.rows_ofList ?_
  rw [List.map_map]
  have hids := p.sockets.nodup.map fun _ _ h => Scalar.int.inj h
  rwa [List.map_map] at hids

/-- The configuration has these pools, and the CPU lists of their groups. -/
structure Encodes (p : Platform) (pools : Pools) (ps : List String)
    (config : ConfDict String String) : Prop where
  keys : config.keys = ps
  entries : config.entries = (ps.flatMap (poolGroups p pools)).map Group.entry

theorem encodes_empty (p : Platform) (pools : Pools) : Encodes p pools [] .empty := ⟨rfl, rfl⟩

/-- **A pool more.** -/
theorem Encodes.addPool {ps : List String} {config : ConfDict String String}
    (h : Encodes p pools ps config) (hok : p.Ok) (hpool : pool ∉ ps)
    {names : Topology.Socket → List String} (hnames : ∀ s ∈ p.sockets.rows,
      names s = (socketGroups pools pool s).map fun g => encodeInts g.cpuIds) :
    Encodes p pools (ps ++ [pool]) (addPool pool p names config) := by
  have hrows := Table.rows_insert_of_notMem (v := (pool, socketDict p names)) (h.keys ▸ hpool)
  refine ⟨?_, ?_⟩
  · rw [Cmk.addPool, Table.keys, hrows, List.map_append, ← Table.keys, h.keys]
    rfl
  · rw [Cmk.addPool, ConfDict.entries, hrows, List.flatMap_append, ← ConfDict.entries, h.entries,
      List.flatMap_append, List.map_append, List.flatMap_singleton, List.flatMap_singleton]
    refine congrArg _ ?_
    rw [rows_socketDict, poolGroups, List.map_flatMap, List.flatMap_map]
    refine List.flatMap_congr fun s hs => ?_
    have hnd : (names s).Nodup := hnames s hs ▸ (groups_socketGroups hs).nodup_names hok
    rw [rows_listDict hnd, hnames s hs, List.map_map, List.map_map]
    refine List.map_congr_left fun g hg => ?_
    obtain ⟨hpool, hsid, -⟩ := mem_socketGroups hg
    simp [Group.entry, hpool, hsid]

theorem nodup_newPools (p : Platform) (exclNonIsolcpus : String) :
    (newPools p exclNonIsolcpus).Nodup := by
  unfold newPools
  split <;> decide

/-- **The configuration `init` writes** has the pools in the order they are added. -/
theorem encodes_newConfig (hok : p.Ok) (pools : Pools) (exclNonIsolcpus : String) :
    Encodes p pools (newPools p exclNonIsolcpus) (newConfig p pools exclNonIsolcpus) := by
  have hexcl := (encodes_empty p pools).addPool hok List.not_mem_nil
    fun s _ => exclusiveNames_eq (by decide : exclusivity "exclusive" = some true) s
  have hshared := hexcl.addPool hok (by decide)
    fun s hs => sharedNames_eq hok (by decide : exclusivity "shared" ≠ some true) hs
  unfold newConfig newPools
  split
  · have hlisted := hshared.addPool hok (by decide)
      fun s _ => exclusiveNames_eq (by decide : exclusivity "exclusive-non-isolcpus" = some true) s
    exact hlisted.addPool hok (by decide) fun s hs => sharedNames_eq hok (by decide) hs
  · exact hshared.addPool hok (by decide) fun s hs => sharedNames_eq hok (by decide) hs

end Cmk
