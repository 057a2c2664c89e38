import Cmk.Config.New

/-!
# Init/Partition — the partition `init` writes

What `configure` leaves in the pools and what the encoders make of it, put together: the CPU lists
of a new configuration are disjoint, as many as were asked for, and made of whole cores.
-/

open Machinery Machinery.Deal Cmk.Topology

namespace Cmk

/-- The CPU lists of a pool. -/
def ConfDict.entriesIn (d : ConfDict String String) (pool : String) : List (Entry String String) :=
  d.entries.filter fun e => e.pool = pool

/-- The CPU list is the full set of CPUs of the core, filed under the socket of the core. -/
def IsListOf (e : Entry String String) (core : Core) : Prop :=
  e.socket = .int core.socketId ∧ cpusOf e.coreId = core.cpuIds

/-- What the configuration of an initialised platform satisfies. -/
structure Partition (p : Platform) (numExclusive numShared : ℕ) (exclNonIsolcpus : String)
    (d : ConfDict String String) : Prop where
  disjoint : d.entries.Pairwise fun e e' => CpuDisjoint e.coreId e'.coreId
  exclusive : ∃ chosen : List Core, chosen.Nodup ∧ chosen ⊆ p.cores ∧
    chosen.length = numExclusive ∧ List.Forall₂ IsListOf (d.entriesIn "exclusive") chosen
  shared : ∃ chosen : List Core, chosen.Nodup ∧ chosen ⊆ p.cores ∧ chosen.length = numShared ∧
    ∀ z, (∃ e ∈ d.entriesIn "shared", z ∈ cpusOf e.coreId) ↔ ∃ core ∈ chosen, z ∈ core.cpuIds
  infra : ∃ e ∈ d.entriesIn "infra", cpusOf e.coreId ≠ []
  listed_iff : "exclusive-non-isolcpus" ∈ d.keys ↔ exclNonIsolcpus ≠ "-1" ∧ p.hasIsolatedCores
  listed : "exclusive-non-isolcpus" ∈ d.keys → ∃ cpus chosen,
    parseCpusStr (splitText ',' exclNonIsolcpus) = .ok cpus ∧
      List.Perm chosen (p.cores.filter fun core => core.coreId ∈ cpus) ∧
      List.Forall₂ IsListOf (d.entriesIn "exclusive-non-isolcpus") chosen
  covered : p.hasIsolatedCores = false → ∀ core ∈ p.cores, ∀ z ∈ core.cpuIds,
    ∃! e, e ∈ d.entries ∧ z ∈ cpusOf e.coreId

/-! ## From groups to CPU lists -/

variable {p : Platform} {pools : Pools} {pool : String} {gs : List Group}
  {config : ConfDict String String} {ps : List String}

theorem cpusOf_encodeInts {zs : List ℤ} (h : zs ≠ []) : cpusOf (encodeInts zs) = zs := by
  rw [cpusOf, splitText_encodeInts h]
  induction zs with
  | nil => rfl
  | cons z zs ih =>
    rw [List.map_cons, List.filterMap_cons_some (intOfText?_toString z)]
    rcases zs with - | ⟨z', zs⟩
    · rfl
    · rw [ih (List.cons_ne_nil _ _)]

theorem cpusOf_entry (h : Groups p gs) (hok : p.Ok) {g : Group} (hg : g ∈ gs) :
    cpusOf g.entry.coreId = g.cpuIds := cpusOf_encodeInts (h.cpuIds_ne_nil hok hg)

theorem Encodes.entriesIn (h : Encodes p pools ps config) (hps : ps.Nodup) (hpool : pool ∈ ps) :
    config.entriesIn pool = (poolGroups p pools pool).map Group.entry := by
  have hpools : ∀ q, ((poolGroups p pools q).map Group.entry).filter (fun e => e.pool = pool) =
      if q = pool then (poolGroups p pools q).map Group.entry else [] := by
    intro q
    have hname : ∀ e ∈ (poolGroups p pools q).map Group.entry, e.pool = q := by
      intro e he
      obtain ⟨g, hg, rfl⟩ := List.mem_map.mp he
      exact (mem_poolGroups hg).1
    split
    · exact List.filter_eq_self.mpr fun e he => by simpa [hname e he]
    · exact List.filter_eq_nil_iff.mpr fun e he => by simpa [hname e he]
  rw [ConfDict.entriesIn, h.entries, List.map_flatMap, List.filter_flatMap,
    Table.flatMap_of_nodup hps hpool fun q _ hne => (hpools q).trans (if_neg hne), hpools,
    if_pos rfl]

/-- A pool for single tasks has a group for each of its cores. -/
theorem poolGroups_exclusive (hok : p.Ok) (h : exclusivity pool = some true) :
    poolGroups p pools pool =
      (holders pools p.cores pool).map fun core => ⟨pool, core.socketId, [core]⟩ := by
  rw [poolGroups, holders, Platform.cores, List.filter_flatMap, List.map_flatMap]
  refine List.flatMap_congr fun s hs => ?_
  rw [socketGroups, if_pos h]
  refine List.map_congr_left fun core hc => ?_
  rw [hok.placed s hs core (List.mem_of_mem_filter hc)]

/-- **A pool for single tasks has a CPU list for each of its cores.** -/
theorem Encodes.isListOf (h : Encodes p pools ps config) (hok : p.Ok) (hps : ps.Nodup)
    (hpool : pool ∈ ps) (hexcl : exclusivity pool = some true) :
    List.Forall₂ IsListOf (config.entriesIn pool) (holders pools p.cores pool) := by
  rw [h.entriesIn hps hpool, poolGroups_exclusive hok hexcl, List.map_map,
    List.forall₂_map_left_iff, List.forall₂_same]
  intro core hc
  have hids : ([core] : List Core).flatMap Core.cpuIds = core.cpuIds := List.flatMap_singleton _ _
  refine ⟨rfl, ?_⟩
  rw [Function.comp_apply, Group.entry, Group.cpuIds, hids]
  exact cpusOf_encodeInts (hok.nonempty core (mem_holders.mp hc).1)

/-- **The CPU lists of a pool hold the CPUs of its cores.** -/
theorem Encodes.mem_cpusOf (h : Encodes p pools ps config) (hok : p.Ok) (hps : ps.Nodup)
    (hpool : pool ∈ ps) {z : ℤ} :
    (∃ e ∈ config.entriesIn pool, z ∈ cpusOf e.coreId) ↔
      ∃ core ∈ holders pools p.cores pool, z ∈ core.cpuIds := by
  have hgroups : Groups p (poolGroups p pools pool) := by
    have hone := groups_flatMap pools hok (List.nodup_singleton pool)
    rwa [List.flatMap_singleton] at hone
  rw [h.entriesIn hps hpool, ← flatMap_poolGroups]
  constructor
  · rintro ⟨e, he, hz⟩
    obtain ⟨g, hg, rfl⟩ := List.mem_map.mp he
    rw [cpusOf_entry hgroups hok hg] at hz
    obtain ⟨core, hc, hz⟩ := List.mem_flatMap.mp hz
    exact ⟨core, List.mem_flatMap.mpr ⟨g, hg, hc⟩, hz⟩
  · rintro ⟨core, hc, hz⟩
    obtain ⟨g, hg, hc⟩ := List.mem_flatMap.mp hc
    refine ⟨_, List.mem_map_of_mem hg, ?_⟩
    rw [cpusOf_entry hgroups hok hg]
    exact List.mem_flatMap.mpr ⟨core, hc, hz⟩

/-- **No two CPU lists share a CPU.** -/
theorem Encodes.disjoint (h : Encodes p pools ps config) (hok : p.Ok) (hps : ps.Nodup) :
    config.entries.Pairwise fun e e' => CpuDisjoint e.coreId e'.coreId := by
  have hgroups := groups_flatMap pools hok hps
  rw [h.entries, List.pairwise_map]
  refine (hgroups.disjoint hok).imp_of_mem fun {g g'} hg hg' hdis => ?_
  rw [CpuDisjoint, cpusOf_entry hgroups hok hg, cpusOf_entry hgroups hok hg']
  exact hdis

/-- A CPU is in one CPU list at most. -/
theorem eq_of_mem_cpusOf {es : List (Entry String String)}
    (h : es.Pairwise fun e e' => CpuDisjoint e.coreId e'.coreId) {e e' : Entry String String}
    (he : e ∈ es) (he' : e' ∈ es) {z : ℤ} (hz : z ∈ cpusOf e.coreId) (hz' : z ∈ cpusOf e'.coreId) :
    e = e' := by
  have : Std.Symm fun e e' : Entry String String => CpuDisjoint e.coreId e'.coreId :=
    ⟨fun _ _ hd z hz hz' => hd z hz' hz⟩
  by_contra hne
  exact h.forall he he' hne z hz hz'

/-! ## The whole of it -/

/-- Every pool of an initialised platform is encoded as it should be. -/
theorem partition_newConfig (hok : p.Ok) {numExclusive numShared : ℕ} {exclNonIsolcpus : String}
    (h : Assigned p numExclusive numShared exclNonIsolcpus pools) :
    Partition p numExclusive numShared exclNonIsolcpus (newConfig p pools exclNonIsolcpus) := by
  have henc := encodes_newConfig hok pools exclNonIsolcpus
  have hps := nodup_newPools p exclNonIsolcpus
  have hin : ∀ {pool}, pool ∈ ["exclusive", "shared", "infra"] →
      pool ∈ newPools p exclNonIsolcpus := fun {pool} hm => by
    simp only [List.mem_cons, List.not_mem_nil, or_false] at hm
    rcases hm with rfl | rfl | rfl <;> simp [newPools]
  have hkey : "exclusive-non-isolcpus" ∈ newPools p exclNonIsolcpus ↔
      exclNonIsolcpus ≠ "-1" ∧ p.hasIsolatedCores := by
    unfold newPools
    split <;> simp_all
  have hheld : ∀ pool, (holders pools p.cores pool).Nodup ∧ holders pools p.cores pool ⊆ p.cores :=
    fun pool => ⟨hok.nodup_cores.filter _, fun _ hc => List.mem_of_mem_filter hc⟩
  refine ⟨henc.disjoint hok hps, ⟨_, (hheld _).1, (hheld _).2, h.exclusive,
    henc.isListOf hok hps (hin (by simp)) (by decide)⟩, ⟨_, (hheld _).1, (hheld _).2, h.shared,
    fun z => henc.mem_cpusOf hok hps (hin (by simp))⟩, ?_, ?_, fun hk => ?_, ?_⟩
  · obtain ⟨core, hc⟩ := List.exists_mem_of_ne_nil _ h.infra
    obtain ⟨z, hz⟩ := List.exists_mem_of_ne_nil _ (hok.nonempty core (mem_holders.mp hc).1)
    obtain ⟨e, he, hz⟩ := (henc.mem_cpusOf hok hps (hin (by simp))).mpr ⟨core, hc, hz⟩
    exact ⟨e, he, List.ne_nil_of_mem hz⟩
  · rw [henc.keys, hkey]
  · rw [henc.keys] at hk
    obtain ⟨cpus, hcpus, hperm⟩ := h.listed (hkey.mp hk).2 (hkey.mp hk).1
    exact ⟨cpus, _, hcpus, hperm, henc.isListOf hok hps hk (by decide)⟩
  · intro hisol core hc z hz
    obtain ⟨pool, hm, hpool⟩ := h.covered hisol core hc
    obtain ⟨e, he, hze⟩ := (henc.mem_cpusOf hok hps (hin hpool)).mpr
      ⟨core, mem_holders.mpr ⟨hc, hm⟩, hz⟩
    refine ⟨e, ⟨List.mem_of_mem_filter he, hze⟩, fun e' he' => ?_⟩
    exact eq_of_mem_cpusOf (henc.disjoint hok hps) he'.1 (List.mem_of_mem_filter he) he'.2 hze

/-- **What `init` writes is fresh**: the state every run of the node starts from. -/
theorem fresh_newConfig (hok : p.Ok) (pools : Pools) (exclNonIsolcpus : String) :
    (newConfig p pools exclNonIsolcpus).Fresh := by
  have henc := encodes_newConfig hok pools exclNonIsolcpus
  have hps := nodup_newPools p exclNonIsolcpus
  have hgroups := groups_flatMap pools hok hps
  have hdis := henc.disjoint hok hps
  refine ⟨fun e he => ?_, fun e he e' he' _ hname => ?_, fun e he e' he' hne z hz hz' => ?_⟩
  · rw [henc.entries] at he
    obtain ⟨g, -, rfl⟩ := List.mem_map.mp he
    rfl
  · have hcpu : ∃ z, z ∈ cpusOf e.coreId := by
      rw [henc.entries] at he
      obtain ⟨g, hg, rfl⟩ := List.mem_map.mp he
      rw [cpusOf_entry hgroups hok hg]
      exact List.exists_mem_of_ne_nil _ (hgroups.cpuIds_ne_nil hok hg)
    obtain ⟨z, hz⟩ := hcpu
    rw [eq_of_mem_cpusOf hdis he he' hz (hname ▸ hz)]
  · exact hne (congrArg Entry.loc (eq_of_mem_cpusOf hdis he he' hz hz'))

/-- **`init` partitions the node.**  Whatever the output of `lscpu`, as long as its CPU ids are
distinct, whatever the labels, the isolated CPUs, the modes and the numbers of cores: if `configure`
returns, the configuration made of what it returns is a partition of that kind. -/
theorem init_partition (host : Host) (numExclusive numShared : ℕ)
    (exclusiveMode sharedMode exclNonIsolcpus : String) (p : Platform) (pools : Pools)
    (hd : ∀ lscpuOutput, host.lscpu = .ok lscpuOutput → DistinctCpus lscpuOutput)
    (h : configure host numExclusive numShared exclusiveMode sharedMode exclNonIsolcpus =
      .ok (p, pools)) :
    Partition p numExclusive numShared exclNonIsolcpus (newConfig p pools exclNonIsolcpus) := by
  obtain ⟨hok, sstBf, sstCp, hconf⟩ := configure_ok hd h
  exact partition_newConfig hok (assigned_configurePlatform hok.nodup_cores hconf)

/-- Two sockets with four cores, two of them isolated, the first with two CPUs. -/
def fourCores : Host where
  nodeLabel _ := .error (.keyError none)
  cmdline := .ok "quiet isolcpus=1-2 nosmt"
  sstBfCpus := .ok []
  lscpu := .ok "# CPU,Core,Socket\n0,0,0\n1,1,0\n2,2,1\n3,3,1\n4,0,0\n"
  epp _ := .error .osError

theorem distinctCpus_fourCores :
    ∀ lscpuOutput, fourCores.lscpu = .ok lscpuOutput → DistinctCpus lscpuOutput := by
  intro lscpuOutput h rs hrs
  obtain rfl := Except.ok.inj h
  have hread : records "# CPU,Core,Socket\n0,0,0\n1,1,0\n2,2,1\n3,3,1\n4,0,0\n" =
      .ok [⟨0, 0, 0⟩, ⟨1, 1, 0⟩, ⟨2, 2, 1⟩, ⟨3, 3, 1⟩, ⟨4, 0, 0⟩] := by rfl
  obtain rfl := Except.ok.inj (hread.symm.trans hrs)
  decide

theorem init_partition_fourCores : ∃ p pools, Partition p 1 1 "3" (newConfig p pools "3") := by
  have hret : (configure fourCores 1 1 "spread" "packed" "3").toOption.isSome := by decide
  cases h : configure fourCores 1 1 "spread" "packed" "3" with
  | error err =>
    rw [h] at hret
    nomatch hret
  | ok result => exact ⟨_, _, init_partition fourCores 1 1 "spread" "packed" "3" _ _
    distinctCpus_fourCores h⟩

end Cmk
