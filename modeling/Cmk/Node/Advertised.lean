import Cmk.Discover
import Cmk.Init.Partition
import Cmk.Node.Capacity

/-!
# Node/Advertised — what a node advertises and what it can give

`init` writes the CPU lists, `discover` counts them into the capacity of the node, from which the
scheduler takes what pods ask for, and `isolate` gives them out.  `isolate` and `reconcile` add no
list and remove none, so whenever `discover` counts, the number it advertises is the one from which
every request is granted (`advertised_granted_iff`).
-/

open Machinery Cmk.Topology

namespace Cmk

/-! ## The text of a configmap -/

/-- The document that `yaml.dump` writes for a dictionary and `safe_load` reads back. -/
def ConfDict.toYaml (d : ConfDict String String) : Yaml :=
  .map (d.rows.map fun pool => (.str pool.1, .map (pool.2.rows.map fun socket =>
    (socket.1, .map (socket.2.rows.map fun cl =>
      (.str cl.1, .seq (cl.2.map fun task => .scalar (.str task))))))))

variable {ι : Type}

/-- `discover` may build this configuration from the stored dictionary. -/
def Node.Shows (s : Node ι) (c : Conf Scalar Yaml) : Prop :=
  ∃ d, s.config.SameData d ∧ Conf.ofYaml d.toYaml = .ok c

/-- **The pools of the CPU lists** that are built of a document. -/
theorem pools_ofYaml_toYaml {d : ConfDict String String} {c : Conf Scalar Yaml}
    (h : Conf.ofYaml d.toYaml = .ok c) :
    c.entries.map Entry.pool = d.entries.map Entry.pool := by
  have hkeys := d.nodup.map fun _ _ heq => Scalar.str.inj heq
  rw [List.map_map] at hkeys
  have hpools := ofYaml_conf h (by rwa [ConfDict.toYaml, Yaml.rows, List.map_map])
  rw [ConfDict.toYaml, Yaml.rows, List.forall₂_map_left_iff] at hpools
  rw [Conf.entries, ConfDict.entries, List.map_flatMap, List.map_flatMap]
  refine (forall₂_flatMap hpools fun pool _ p hp => ?_).symm
  obtain ⟨hname, hsockets⟩ := ofYaml_pool hp
  have hsocketKeys : (pool.2.rows.map Prod.fst).Nodup := pool.2.nodup
  replace hsockets := hsockets (by rwa [Yaml.rows, List.map_map])
  rw [Yaml.rows, List.forall₂_map_left_iff] at hsockets
  rw [Pool.entries, List.map_flatMap, List.map_flatMap]
  refine forall₂_flatMap hsockets fun socket _ s hs => ?_
  obtain ⟨-, hlists⟩ := ofYaml_socket hs
  have hlistKeys := socket.2.nodup.map fun _ _ heq => Scalar.str.inj heq
  rw [List.map_map] at hlistKeys
  replace hlists := hlists (by rwa [Yaml.rows, List.map_map])
  rw [Yaml.rows, List.forall₂_map_left_iff] at hlists
  rw [List.map_map, List.map_map]
  exact (forall₂_map_key hlists fun _ _ _ => (Scalar.str.inj hname).symm).symm

/-- The lists of a pool that `discover` counts are those of the dictionary. -/
theorem countIn_ofYaml_toYaml {d : ConfDict String String} {c : Conf Scalar Yaml}
    (h : Conf.ofYaml d.toYaml = .ok c) (pool : String) : c.countIn pool = d.capacity pool := by
  have hcount : ∀ {κ τ : Type} (es : List (Entry κ τ)),
      (es.filter fun e => e.pool = pool).length = (es.map Entry.pool).count pool := by
    intro κ τ es
    rw [List.count_eq_length_filter, List.filter_map, List.length_map]
    rfl
  rw [Conf.countIn, ConfDict.capacity, hcount, hcount, pools_ofYaml_toYaml h]

/-! ## What is advertised and what is granted -/

/-- The resource that stands for the CPU lists of an exclusive pool. -/
def resourceOf (version : List ℕ) (pool : String) : String :=
  if pool = "exclusive" then (resourceNames version).exclusive
  else (resourceNames version).exclNonIsolcpus

section Runs

variable [DecidableEq ι] {ctor : Except PyErr Unit} {d : ConfDict String String} {s : Node ι}

/-- **`discover` counts what the configmap was written with**, at any time. -/
theorem Node.Run.countIn (hd : d.Fresh) (h : Node.Run ctor d s) {c : Conf Scalar Yaml}
    (hshow : s.Shows c) (pool : String) : c.countIn pool = d.capacity pool := by
  obtain ⟨d', hsame, hbuild⟩ := hshow
  have hperm : (d'.entries.map Entry.loc).Perm (d.entries.map Entry.loc) :=
    (hsame.entries.symm.map _).trans (h.locs hd).1
  rw [countIn_ofYaml_toYaml hbuild]
  exact length_listsIn_of_locs (s := (Node.fresh d' : Node ι)) hperm pool

end Runs

/-- `init` writes as many exclusive lists as it was told. -/
theorem capacity_newConfig {p : Platform} {pools : Pools} {numExclusive numShared : ℕ}
    {exclNonIsolcpus : String}
    (h : Partition p numExclusive numShared exclNonIsolcpus (newConfig p pools exclNonIsolcpus)) :
    (newConfig p pools exclNonIsolcpus).capacity "exclusive" = numExclusive := by
  obtain ⟨chosen, -, -, hlength, hlists⟩ := h.exclusive
  exact hlists.length_eq.trans hlength

section Discovered

variable {V : Type} [DecidableEq V] {codec : Codec String (Conf Scalar Yaml)}
  {self : Config V String (Conf Scalar Yaml)} {v : Visit V String} {api : NodeApi}
  {noTaint : Bool} {node node' : JsonValue} {cm : ConfigMap V String} {version : List ℕ}
  {c : Conf Scalar Yaml}

/-- A run of `discover` advertises the number of CPU lists of a pool, if there are any. -/
theorem advertises_of_discover (hversion : api.kubeVersion >>= parseVersion = .ok version)
    (hload : v.Loads codec c)
    (h : discover codec self v api noTaint node = some (cm, .ok (), node')) {pool : String}
    (hex : exclusivity pool = some true) (hlisted : pool = "exclusive" ∨ 0 < c.countIn pool) :
    Advertises node' (resourceOf version pool) (c.countIn pool) := by
  obtain ⟨middle, hadd, hkeep⟩ := discover_ok hversion h
  obtain ⟨hexclusive, hsecond, -⟩ := addNode_ok hload hadd
  rw [Advertises, hkeep]
  by_cases hpool : pool = "exclusive"
  · rw [resourceOf, if_pos hpool, hpool]
    exact hexclusive
  · obtain rfl : pool = "exclusive-non-isolcpus" := by
      by_contra hother
      rw [exclusivity, if_neg hpool, if_neg hother] at hex
      split_ifs at hex <;> simp at hex
    rw [resourceOf, if_neg hpool]
    exact hsecond (hlisted.resolve_left hpool)

end Discovered

/-- **What a node advertises is what it can give.**  From whatever `init` wrote, in whatever states
of the node `discover` counted and `isolate` is run: the number advertised is that of the lists from
which requests are granted, which for the exclusive pool is the number `init` was told. -/
theorem advertised_granted_iff {V : Type} [DecidableEq V] [DecidableEq ι] [Fintype ι] (host : Host)
    (numExclusive numShared : ℕ) (exclusiveMode sharedMode exclNonIsolcpus : String) (p : Platform)
    (pools : Pools)
    (hdistinct : ∀ lscpuOutput, host.lscpu = .ok lscpuOutput → DistinctCpus lscpuOutput)
    (hconfigure : configure host numExclusive numShared exclusiveMode sharedMode exclNonIsolcpus =
      .ok (p, pools)) (ctor : Except PyErr Unit) (s₀ s : Node ι)
    (h₀ : Node.Run ctor (newConfig p pools exclNonIsolcpus) s₀)
    (h : Node.Run ctor (newConfig p pools exclNonIsolcpus) s)
    (codec : Codec String (Conf Scalar Yaml)) (self : Config V String (Conf Scalar Yaml))
    (v : Visit V String) (api : NodeApi) (noTaint : Bool) (node node' : JsonValue)
    (cm : ConfigMap V String) (version : List ℕ) (c₀ : Conf Scalar Yaml)
    (hversion : api.kubeVersion >>= parseVersion = .ok version) (hshow : s₀.Shows c₀)
    (hload : v.Loads codec c₀)
    (hdiscover : discover codec self v api noTaint node = some (cm, .ok (), node'))
    (c : Conf String String) (hread : s.Reads c) (args : IsolateArgs) (env : IsolateEnv)
    (pid n : ℤ) (hex : exclusivity args.poolName = some true)
    (hlisted : args.poolName = "exclusive" ∨
      0 < (newConfig p pools exclNonIsolcpus).capacity args.poolName)
    (hsel : args.selectedSocket = none) (hpid : ∀ k, env.getpid k = .ok pid)
    (hn : env.nCpus = .ok n) :
    ∃ m : ℕ, (args.poolName = "exclusive" → m = numExclusive) ∧
      Advertises node' (resourceOf version args.poolName) m ∧
      (IsOk (isolateSection args env c).1 ↔ 1 ≤ n ∧ n + s.inUse args.poolName ≤ m) := by
  obtain ⟨hok, sstBf, sstCp, hconf⟩ := configure_ok hdistinct hconfigure
  have hfresh := fresh_newConfig hok pools exclNonIsolcpus
  have hpartition := partition_newConfig hok (assigned_configurePlatform hok.nodup_cores hconf)
  have hcount := h₀.countIn hfresh hshow args.poolName
  obtain ⟨hlocs, htidy⟩ := h.locs hfresh
  refine ⟨_, fun hpool => ?_, hcount ▸ advertises_of_discover hversion hload hdiscover hex
    (by rwa [hcount]), ?_⟩
  · rw [hpool]
    exact capacity_newConfig hpartition
  · rw [← length_listsIn_of_locs hlocs]
    exact (h.sound hfresh).granted_iff htidy hread hex hsel hpid hn

theorem isSome_fourCores :
    (configure fourCores 1 1 "spread" "packed" "-1").toOption.isSome := by decide

/-- What `init` writes for four cores when it is asked for one exclusive core and one shared. -/
def initConfig : ConfDict String String :=
  newConfig ((configure fourCores 1 1 "spread" "packed" "-1").toOption.get isSome_fourCores).1
    ((configure fourCores 1 1 "spread" "packed" "-1").toOption.get isSome_fourCores).2 "-1"

/-- What `discover` builds of it. -/
def shownConf : Conf Scalar Yaml := (Conf.ofYaml initConfig.toYaml).toOption.getD ⟨.empty⟩

theorem ofYaml_initConfig : Conf.ofYaml initConfig.toYaml = .ok shownConf := rfl

theorem discover_initConfig :
    discover ⟨fun _ => .ok shownConf, fun _ => ""⟩ (.init "cmk-config-node" "pod" "default")
      freeVisit openApi true (nodeWith (.str "0")) =
        some (⟨some "", some "", 2⟩, .ok (), discoveredWith (.str "0")) := by
  rfl

/-- One core is advertised, and is granted to a container that asks for it. -/
theorem advertised_granted_fourCores :
    Advertises (discoveredWith (.str "0")) (resourceOf [1, 18, 3] "exclusive") 1 ∧
      IsOk (isolateSection ⟨"exclusive", some "-1"⟩ ⟨some "1", 0, fun _ => .ok 7⟩
        ⟨initConfig.map buildPool name_buildPool⟩).1 := by
  obtain ⟨m, hm, hadvertised, hgranted⟩ := advertised_granted_iff fourCores 1 1 "spread" "packed"
    "-1" _ _ distinctCpus_fourCores (eq_ok_get isSome_fourCores) (.ok ())
    (Node.fresh initConfig : Node Unit) (Node.fresh initConfig) .refl .refl _ _ _ _ true _ _ _
    [1, 18, 3] shownConf rfl ⟨_, .refl _, ofYaml_initConfig⟩ ⟨"text", rfl, rfl⟩ discover_initConfig
    ⟨initConfig.map buildPool name_buildPool⟩ ⟨_, .refl _, rfl⟩
    ⟨"exclusive", some "-1"⟩ ⟨some "1", 0, fun _ => .ok 7⟩ 7 1 rfl (.inl rfl) rfl (fun _ => rfl) rfl
  obtain rfl := hm rfl
  exact ⟨hadvertised, hgranted.mpr ⟨le_rfl, by decide⟩⟩

end Cmk
