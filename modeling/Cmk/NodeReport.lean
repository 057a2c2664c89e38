import Cmk.Config.Yaml
import Cmk.Init.Assign
import Cmk.Isolate.Advertise
import Cmk.K8s
import Cmk.Proc

/-!
# NodeReport — the check of the configuration

`check_cmk_config` reads the configuration by `config.get_config`, which the module `config` does
not have; the exception is taken for an unreadable configmap, so the check is never ok
(`overlap_check_iff`).  Its loop joins the CPU lists of each pool and compares pools, so with a
`get_config` to call it would tell overlaps between pools and none inside of one
(`checkCmkConfigWith_ok_iff`).
-/

open Machinery

namespace Cmk

variable {τ : Type}

structure Check where
  name : String
  ok : Bool
  errors : List String

def Check.new (name : String) : Check := ⟨name, true, []⟩

def Check.addError (check : Check) (msg : String) : Check :=
  { check with ok := false, errors := check.errors ++ [msg] }

/-- What the check reads outside of its arguments: `HOSTNAME`, the pods of the cluster and the
configuration a configmap of some name and namespace holds. -/
structure ReportHost (τ : Type) where
  hostname : Option String
  pods : Except PyErr (List PodItem)
  configmaps : String → String → Except PyErr (Conf Scalar τ)

/-- The CPU lists of a pool taken together. -/
structure PoolCpus where
  pool : String
  list : List String
  cpus : List ℤ

def PoolCpus.of (p : Pool Scalar τ) : Except PyErr PoolCpus := do
  let coreLists ← p.getCoreLists none
  let clists ← (coreLists.map CoreList.coreId).mapM nameText
  let cpus ← unfoldCpuList (joinText ',' clists)
  return ⟨p.name, clists, cpus⟩

/-- `itertools.combinations_with_replacement(xs, 2)`. -/
def combinationsWithReplacement {α : Type} : List α → List (α × α)
  | [] => []
  | x :: xs => (x :: xs).map (fun y => (x, y)) ++ combinationsWithReplacement xs

/-- `str(list)` of a list of names that have neither quotes nor backslashes. -/
def reprNames (names : List String) : String :=
  "[" ++ joinWith ", " (names.map fun name => "'" ++ name ++ "'") ++ "]"

/-- Identity of the two pools: different ones have different names. -/
def sameList (a b : PoolCpus) : Bool := a.pool = b.pool && a.list = b.list

def disjointCpus (a b : PoolCpus) : Bool := a.cpus.all fun cpu => cpu ∉ b.cpus

def overlapError? (ab : PoolCpus × PoolCpus) : Option String :=
  if !sameList ab.1 ab.2 && !disjointCpus ab.1 ab.2 then
    some ("CPU list overlap detected in " ++ ab.1.pool ++ ":" ++ reprNames ab.1.list ++ " and " ++
      ab.2.pool ++ ":" ++ reprNames ab.2.list ++ " (in both: " ++ reprInts ab.2.cpus ++ ")")
  else none

section Check

variable (getConfig : String → String → Except PyErr (Conf Scalar τ)) (host : ReportHost τ)
  (cmNamespace : String)

/-- The `try` block of `check_cmk_config`. -/
def readCmkConfig : Except PyErr (Conf Scalar τ) := do
  let podName ← host.hostname.elim (.error (.keyError none)) .ok
  let pods ← host.pods
  getConfig (configmapName (getNodeFromPod pods podName)) cmNamespace

/-- `check_cmk_config`, with what `config.get_config` does. -/
def checkCmkConfigWith : Except PyErr Check :=
  match readCmkConfig getConfig host cmNamespace with
  | .error (.systemExit code) => .error (.systemExit code)
  | .error _ => .ok ((Check.new "configDirectory").addError "Unable to read CMK configmap")
  | .ok c => do
    let cpuLists ← c.pools.rows.mapM PoolCpus.of
    return ((combinationsWithReplacement cpuLists).filterMap overlapError?).foldl Check.addError
      (Check.new "configDirectory")

/-- `config.get_config`: the module has no such attribute. -/
def getConfigAttribute : String → String → Except PyErr (Conf Scalar τ) := fun _ _ =>
  .error .attributeError

def checkCmkConfig : Except PyErr Check := checkCmkConfigWith getConfigAttribute host cmNamespace

end Check

/-! ## What is asked of the check -/

/-- The CPUs of a name.  One that YAML reads as a number counts as none here; the loop joins the
names, which is a `TypeError` then. -/
def namedCpus : Scalar → List ℕ
  | .str s => cpusIn s
  | _ => []

/-- All names are CPU lists. -/
def Conf.ListNames (c : Conf Scalar τ) : Prop :=
  ∀ e ∈ c.entries, ∃ s, e.coreId = .str s ∧ IsCpuList s

/-- No CPU is in two CPU lists. -/
def Conf.DisjointLists (c : Conf Scalar τ) : Prop :=
  c.entries.Pairwise fun e e' => ∀ i ∈ namedCpus e.coreId, i ∉ namedCpus e'.coreId

/-- No CPU is in CPU lists of two pools. -/
def Conf.DisjointPools (c : Conf Scalar τ) : Prop :=
  ∀ e ∈ c.entries, ∀ e' ∈ c.entries, e.pool ≠ e'.pool →
    ∀ i ∈ namedCpus e.coreId, i ∉ namedCpus e'.coreId

/-- The configmap of the node the host is on holds the configuration. -/
def ReportHost.Holds (host : ReportHost τ) (cmNamespace : String) (c : Conf Scalar τ) : Prop :=
  readCmkConfig host.configmaps host cmNamespace = .ok c

/-- **The check is sound and complete.** -/
structure ChecksOverlap (c : Conf Scalar τ) (outcome : Except PyErr Check) : Prop where
  returns : IsOk outcome
  ok : ∀ check, outcome = .ok check → (check.ok = true ↔ c.DisjointLists)
  error : ∀ check, outcome = .ok check → ¬ c.DisjointLists → check.errors ≠ []

/-! ## The loop -/

/-- A symmetric condition on all combinations is one on all pairs. -/
theorem forall_combinationsWithReplacement {α : Type} {P : α → α → Prop} [Std.Symm P]
    {xs : List α} :
    (∀ ab ∈ combinationsWithReplacement xs, P ab.1 ab.2) ↔ ∀ a ∈ xs, ∀ b ∈ xs, P a b := by
  have hpairs : (∀ ab ∈ combinationsWithReplacement xs, P ab.1 ab.2) ↔
      (∀ a ∈ xs, P a a) ∧ xs.Pairwise P := by
    induction xs with
    | nil => simp [combinationsWithReplacement]
    | cons x xs ih =>
      rw [combinationsWithReplacement, List.forall_mem_append, ih, List.forall_mem_map,
        List.forall_mem_cons, List.forall_mem_cons, List.pairwise_cons]
      exact ⟨fun ⟨⟨hx, hfirst⟩, hself, hrest⟩ => ⟨⟨hx, hself⟩, hfirst, hrest⟩,
        fun ⟨⟨hx, hself⟩, hfirst, hrest⟩ => ⟨⟨hx, hfirst⟩, hself, hrest⟩⟩
  rw [hpairs]
  exact ⟨fun h => h.2.forall_of_forall h.1,
    fun h => ⟨fun a ha => h a ha a ha, List.pairwise_of_forall_mem_list h⟩⟩

theorem ok_foldl_addError (msgs : List String) (check : Check) :
    (msgs.foldl Check.addError check).ok = true ↔ msgs = [] ∧ check.ok = true := by
  induction msgs generalizing check with
  | nil => simp
  | cons msg msgs ih => simp [ih, Check.addError]

theorem overlapError?_eq_none {a b : PoolCpus} :
    overlapError? (a, b) = none ↔ (a.pool = b.pool ∧ a.list = b.list) ∨ a.cpus.Disjoint b.cpus := by
  have hdisjoint : disjointCpus a b = true ↔ a.cpus.Disjoint b.cpus := by
    simp [disjointCpus, List.Disjoint]
  have hsame : sameList a b = true ↔ a.pool = b.pool ∧ a.list = b.list := by
    simp [sameList]
  rw [← hdisjoint, ← hsame, overlapError?]
  cases sameList a b <;> cases disjointCpus a b <;> simp

/-- **The CPUs of a pool** are those of its lists. -/
theorem PoolCpus.of_eq {p : Pool Scalar τ}
    (h : ∀ e ∈ p.entries, ∃ s, e.coreId = .str s ∧ IsCpuList s) :
    ∃ pc : PoolCpus, PoolCpus.of p = .ok pc ∧ pc.pool = p.name ∧
      ∀ z, z ∈ pc.cpus ↔ ∃ i : ℕ, z = i ∧ ∃ e ∈ p.entries, i ∈ namedCpus e.coreId := by
  have htexts : ∃ texts : List String, p.names = texts.map .str ∧ ∀ s ∈ texts, IsCpuList s := by
    rw [Pool.names]
    revert h
    generalize p.entries = es
    intro h
    induction es with
    | nil => exact ⟨[], rfl, by simp⟩
    | cons e es ih =>
      obtain ⟨⟨s, hs, hlist⟩, hes⟩ := List.forall_mem_cons.mp h
      obtain ⟨texts, htexts, hall⟩ := ih hes
      exact ⟨s :: texts, by rw [List.map_cons, hs, htexts, List.map_cons],
        List.forall_mem_cons.mpr ⟨hlist, hall⟩⟩
  obtain ⟨texts, hnames, hlists⟩ := htexts
  have hread : (p.names).mapM nameText = .ok texts := by
    rw [hnames, mapM_eq_ok, List.forall₂_map_left_iff]
    exact List.forall₂_same.mpr fun _ _ => rfl
  have hcpus : unfoldCpuList (joinText ',' texts) = .ok ((texts.flatMap cpusIn).map Int.ofNat) := by
    by_cases hne : texts = []
    · rw [hne]
      rfl
    · rw [unfoldCpuList_eq (isCpuList_joinText hne hlists), cpusIn_joinText hne hlists]
  refine ⟨⟨p.name, texts, (texts.flatMap cpusIn).map Int.ofNat⟩, ?_, rfl, fun z => ?_⟩
  · refine bind_eq_ok.mpr ⟨_, p.getCoreLists_none, bind_eq_ok.mpr ⟨texts, ?_,
      bind_eq_ok.mpr ⟨_, hcpus, rfl⟩⟩⟩
    rw [List.map_map]
    exact hread
  · have hmem : ∀ i, i ∈ texts.flatMap cpusIn ↔ ∃ e ∈ p.entries, i ∈ namedCpus e.coreId := by
      intro i
      have hflat : texts.flatMap cpusIn = p.entries.flatMap fun e => namedCpus e.coreId := by
        have hmap := congrArg (List.flatMap namedCpus) hnames
        rw [Pool.names, List.flatMap_map, List.flatMap_map] at hmap
        exact hmap.symm
      rw [hflat, List.mem_flatMap]
    simp only [List.mem_map, hmem, and_comm, eq_comm (a := z)]
    rfl

/-- Reading the pools of a configuration gives a record for each, with its CPUs. -/
theorem mapM_poolCpus {c : Conf Scalar τ} (h : c.ListNames) :
    ∃ f : Pool Scalar τ → PoolCpus, c.pools.rows.mapM PoolCpus.of = .ok (c.pools.rows.map f) ∧
      ∀ p ∈ c.pools.rows, (f p).pool = p.name ∧
        ∀ z, z ∈ (f p).cpus ↔ ∃ i : ℕ, z = i ∧ ∃ e ∈ p.entries, i ∈ namedCpus e.coreId := by
  have hrow : ∀ p ∈ c.pools.rows, ∀ e ∈ p.entries, ∃ s, e.coreId = .str s ∧ IsCpuList s :=
    fun p hp e he => h e (Conf.mem_entries.mpr ⟨p, hp, he⟩)
  refine ⟨fun p => (PoolCpus.of p).toOption.getD ⟨p.name, [], []⟩, ?_, fun p hp => ?_⟩
  · rw [mapM_eq_ok, List.forall₂_map_right_iff]
    refine List.forall₂_same.mpr fun p hp => ?_
    obtain ⟨pc, hpc, -⟩ := PoolCpus.of_eq (hrow p hp)
    rw [hpc]
    rfl
  · obtain ⟨pc, hpc, hspec⟩ := PoolCpus.of_eq (hrow p hp)
    dsimp only
    rw [hpc]
    exact hspec

/-- **With a `get_config` that reads the configmap**, the check is ok exactly when no CPU is in CPU
lists of two pools: two lists of one pool are never compared. -/
theorem checkCmkConfigWith_ok_iff (host : ReportHost τ) (cmNamespace : String) (c : Conf Scalar τ)
    (hholds : host.Holds cmNamespace c) (hnames : c.ListNames) :
    ∃ check, checkCmkConfigWith host.configmaps host cmNamespace = .ok check ∧
      (check.ok = true ↔ c.DisjointPools) := by
  obtain ⟨f, hread, hf⟩ := mapM_poolCpus hnames
  have hsymm : Std.Symm fun a b : PoolCpus => overlapError? (a, b) = none := ⟨fun a b h => by
    simp only [overlapError?_eq_none] at h ⊢
    exact h.imp (fun same => ⟨same.1.symm, same.2.symm⟩) List.Disjoint.symm⟩
  rw [checkCmkConfigWith, hholds]
  refine ⟨_, bind_eq_ok.mpr ⟨_, hread, rfl⟩, ?_⟩
  rw [ok_foldl_addError, Check.new, and_iff_left rfl, List.filterMap_eq_nil_iff]
  refine (forall_combinationsWithReplacement (P := fun a b => overlapError? (a, b) = none)).trans ?_
  simp only [overlapError?_eq_none, List.forall_mem_map]
  constructor
  · intro h e he e' he' hne i hi hi'
    obtain ⟨p, hp, hep⟩ := Conf.mem_entries.mp he
    obtain ⟨p', hp', hep'⟩ := Conf.mem_entries.mp he'
    obtain ⟨hname, hcpus⟩ := hf p hp
    obtain ⟨hname', hcpus'⟩ := hf p' hp'
    rcases h p hp p' hp' with hsame | hdisjoint
    · refine hne ?_
      rw [Pool.pool_of_mem_entries hep, Pool.pool_of_mem_entries hep', ← hname, ← hname', hsame.1]
    · exact hdisjoint ((hcpus i).mpr ⟨i, rfl, e, hep, hi⟩) ((hcpus' i).mpr ⟨i, rfl, e', hep', hi'⟩)
  · intro h p hp p' hp'
    obtain ⟨hname, hcpus⟩ := hf p hp
    obtain ⟨hname', hcpus'⟩ := hf p' hp'
    by_cases hsame : p.name = p'.name
    · rw [Table.eq_of_key_eq hp hp' hsame]
      exact .inl ⟨rfl, rfl⟩
    · refine .inr fun z hz hz' => ?_
      obtain ⟨i, rfl, e, he, hi⟩ := (hcpus z).mp hz
      obtain ⟨i', heq, e', he', hi'⟩ := (hcpus' i).mp hz'
      obtain rfl := Int.ofNat.inj heq
      refine h e (Conf.mem_entries.mpr ⟨p, hp, he⟩) e' (Conf.mem_entries.mpr ⟨p', hp', he'⟩) ?_ i hi
        hi'
      rwa [Pool.pool_of_mem_entries he, Pool.pool_of_mem_entries he']

/-! ## The check -/

/-- **The overlap check meets its purpose only on a configuration with an overlap**: it is never ok.
-/
theorem overlap_check_iff (host : ReportHost τ) (cmNamespace : String) (c : Conf Scalar τ)
    (hholds : host.Holds cmNamespace c) :
    ChecksOverlap c (checkCmkConfig host cmNamespace) ↔ ¬ c.DisjointLists := by
  have hread : readCmkConfig getConfigAttribute host cmNamespace = .error .attributeError := by
    obtain ⟨podName, hpod, hrest⟩ := bind_eq_ok.mp hholds
    obtain ⟨pods, hpods, -⟩ := bind_eq_ok.mp hrest
    rw [readCmkConfig, hpod, hpods]
    rfl
  have hcheck : checkCmkConfig host cmNamespace =
      .ok ((Check.new "configDirectory").addError "Unable to read CMK configmap") := by
    rw [checkCmkConfig, checkCmkConfigWith, hread]
  rw [hcheck]
  constructor
  · exact fun h hdisjoint => Bool.false_ne_true ((h.ok _ rfl).mpr hdisjoint)
  · refine fun hoverlap => ⟨⟨_, rfl⟩, fun check h => ?_, fun check h _ => ?_⟩
    · obtain rfl := Except.ok.inj h
      exact iff_of_false Bool.false_ne_true hoverlap
    · obtain rfl := Except.ok.inj h
      exact List.cons_ne_nil _ _

/-- A node whose configmap holds a configuration. -/
def hostWith (c : Conf Scalar Yaml) : ReportHost Yaml where
  hostname := some "nodereport"
  pods := .ok [runningPod "default" "nodereport" "node1"]
  configmaps name _ := if name = "cmk-config-node1" then .ok c else .error .apiException

theorem overlap_check_advertised :
    ChecksOverlap advertised (checkCmkConfig (hostWith advertised) "default") ↔
      ¬ advertised.DisjointLists :=
  overlap_check_iff (hostWith advertised) "default" advertised rfl

/-- The two lists `2,3` and `4,5` are disjoint, and the check is not ok. -/
theorem disjoint_lists_not_ok : advertised.DisjointLists ∧
    ¬ ChecksOverlap advertised (checkCmkConfig (hostWith advertised) "default") := by
  have hdisjoint : advertised.DisjointLists := by
    refine List.pairwise_pair.mpr ?_
    decide
  exact ⟨hdisjoint, fun h => absurd ((h.ok _ rfl).mpr hdisjoint) (by decide)⟩

end Cmk
