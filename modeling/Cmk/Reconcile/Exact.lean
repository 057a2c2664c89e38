import Cmk.Config.Yaml
import Cmk.Reconcile

/-!
# Reconcile/Exact — what a reconciliation removes

Where the processes that are there stay the same during the run, the report lists the tasks of those
that are not, one item a task, and reclaiming it filters every list to the tasks of those that are
(`reconcile_exact`).  The order of the report does not matter, so `report.json()`, which sorts it,
may run in between or not.
-/

open Machinery

namespace Cmk

/-- Every task is the text of an integer, as `str(pid)` writes it. -/
def Conf.PidTasks {κ : Type} (c : Conf κ Yaml) : Prop :=
  ∀ e ∈ c.entries, ∀ t ∈ e.tasks, ∃ pid : ℤ, t = taskOf Yaml pid

section Dead

variable {κ τ : Type} [Task τ]

/-- The task has a process that is there. -/
def isThere (there : ℤ → Bool) (t : τ) : Bool := (Task.toInt t).toOption.any there

/-- The item about a task, unless its process is there. -/
def deadItem? (there : ℤ → Bool) (x : String × κ × τ) : Option (Reclaimed κ) :=
  match Task.toInt x.2.2 with
  | .ok pid => if there pid then none else some ⟨pid, x.1, x.2.1⟩
  | .error _ => none

/-- The items about the tasks of a configuration whose processes are not there, in stored order. -/
def Conf.dead (there : ℤ → Bool) (c : Conf κ τ) : List (Reclaimed κ) :=
  c.visited.filterMap (deadItem? there)

/-- A configuration reduced to the tasks whose processes are there. -/
def Conf.keepThere (there : ℤ → Bool) (c : Conf κ τ) : Conf κ τ :=
  c.rewrite fun _ tasks => tasks.filter (isThere there)

/-- **Reconciled exactly**: every list is left with the tasks whose processes are there, in their
order, and nothing else changes. -/
structure ReconciledTo (there : ℤ → Bool) (c c' : Conf κ τ) : Prop where
  tasks : c'.entries = c.entries.map fun e => { e with tasks := e.tasks.filter (isThere there) }
  pools : c'.kinds = c.kinds
  sockets : c'.socketKeys = c.socketKeys

theorem reconciledTo_keepThere (there : ℤ → Bool) (c : Conf κ τ) :
    ReconciledTo there c (c.keepThere there) :=
  ⟨c.entries_rewrite _, c.kinds_rewrite _, c.socketKeys_rewrite _⟩

end Dead

/-! ## The report -/

variable {κ : Type} {there : ℤ → Bool} {c : Conf κ Yaml}

theorem toInt_taskOf (pid : ℤ) : Task.toInt (taskOf Yaml pid) = .ok pid := intOfStr_toString pid

theorem taskOf_yaml_injective : Function.Injective (taskOf Yaml) := fun p q h =>
  Except.ok.inj ((toInt_taskOf p).symm.trans ((congrArg Task.toInt h).trans (toInt_taskOf q)))

theorem isThere_taskOf (pid : ℤ) : isThere there (taskOf Yaml pid) = there pid := by
  rw [isThere, toInt_taskOf]
  rfl

theorem deadItem?_eq_some {pool : String} {cl : κ} {pid : ℤ} {r : Reclaimed κ} :
    deadItem? there (pool, cl, taskOf Yaml pid) = some r ↔
      there pid = false ∧ r = ⟨pid, pool, cl⟩ := by
  rw [deadItem?, toInt_taskOf]
  cases h : there pid <;> simp [h, eq_comm]

theorem Conf.PidTasks.visited (h : c.PidTasks) {x : String × κ × Yaml} (hx : x ∈ c.visited) :
    ∃ pid : ℤ, x.2.2 = taskOf Yaml pid := by
  obtain ⟨e, he, hx⟩ := List.mem_flatMap.mp hx
  obtain ⟨t, ht, rfl⟩ := List.mem_map.mp hx
  exact h e he t ht

/-- The loops report exactly the tasks whose processes are not there. -/
theorem reportTasks_eq (there : ℤ → Bool) {tasks : List (String × κ × Yaml)}
    (h : ∀ x ∈ tasks, ∃ pid : ℤ, x.2.2 = taskOf Yaml pid) (k : ℕ) :
    reportTasks (procExistsIn (some fun _ => there)) k tasks =
      .ok (tasks.filterMap (deadItem? there)) := by
  induction tasks generalizing k with
  | nil => rfl
  | cons x rest ih =>
    obtain ⟨pool, cl, task⟩ := x
    obtain ⟨⟨pid, hpid⟩, hrest⟩ := List.forall_mem_cons.mp h
    obtain rfl : task = taskOf Yaml pid := hpid
    refine bind_eq_ok.mpr ⟨pid, toInt_taskOf pid, bind_eq_ok.mpr ⟨there pid, rfl,
      bind_eq_ok.mpr ⟨_, ih hrest (k + 1), ?_⟩⟩⟩
    rw [List.filterMap_cons, deadItem?, toInt_taskOf]
    dsimp only
    cases there pid <;> rfl

/-- **The report** lists the tasks whose processes are not there. -/
theorem generateReport_eq (there : ℤ → Bool) (h : c.PidTasks) :
    generateReport (procExistsIn (some fun _ => there)) c = .ok (c.dead there) :=
  reportTasks_eq there (fun _ => h.visited) 0

theorem mem_dead (h : c.PidTasks) {r : Reclaimed κ} :
    r ∈ c.dead there ↔ there r.pid = false ∧ (r.pool, r.cpus, taskOf Yaml r.pid) ∈ c.visited := by
  rw [Conf.dead, List.mem_filterMap]
  constructor
  · rintro ⟨⟨pool, cl, task⟩, hx, hr⟩
    obtain ⟨pid, hpid⟩ := h.visited hx
    obtain rfl : task = taskOf Yaml pid := hpid
    obtain ⟨hdead, rfl⟩ := deadItem?_eq_some.mp hr
    exact ⟨hdead, hx⟩
  · rintro ⟨hdead, hx⟩
    exact ⟨_, hx, deadItem?_eq_some.mpr ⟨hdead, rfl⟩⟩

/-! ## The reclaim -/

variable [DecidableEq κ]

/-- A report of all dead tasks takes these out of a list and leaves the others. -/
theorem reclaimAt_eq (h : c.PidTasks) {report : List (Reclaimed κ)}
    (hreport : report.Perm (c.dead there)) {e : Entry κ Yaml} (he : e ∈ c.entries) :
    reclaimAt report (e.pool, e.coreId) e.tasks = e.tasks.filter (isThere there) := by
  refine List.filter_congr fun t ht => ?_
  obtain ⟨pid, rfl⟩ := h e he t ht
  rw [isThere_taskOf, Bool.eq_iff_iff, decide_eq_true_eq]
  constructor
  · intro hkeep
    by_contra hdead
    have hvisited : (e.pool, e.coreId, taskOf Yaml pid) ∈ c.visited :=
      List.mem_flatMap.mpr ⟨e, he, List.mem_map_of_mem ht⟩
    have hmem : (⟨pid, e.pool, e.coreId⟩ : Reclaimed κ) ∈ c.dead there :=
      (mem_dead h).mpr ⟨by simpa using hdead, hvisited⟩
    exact hkeep _ (hreport.mem_iff.mpr hmem) rfl rfl
  · intro hthere r hr _ heq
    have hdead := ((mem_dead h).mp (hreport.mem_iff.mp hr)).1
    rw [← taskOf_yaml_injective heq, hthere] at hdead
    cases hdead

/-- **Reclaiming the report**, in whatever order, leaves the tasks whose processes are there. -/
theorem reclaimCpuLists_eq (hu : UniqueNames c.entries) (h : c.PidTasks)
    {report : List (Reclaimed κ)} (hreport : report.Perm (c.dead there)) :
    reclaimCpuLists report c = .ok (c.keepThere there) := by
  have hnamed : ∀ r ∈ report, Named c.entries r.pool r.cpus := fun r hr =>
    (Conf.listed_of_visited ((mem_dead h).mp (hreport.mem_iff.mp hr)).2).named
  obtain ⟨c', hc'⟩ := isOk_reclaimCpuLists hnamed
  rw [hc', reclaimCpuLists_ok hc', foldl_reclaim_eq_rewrite hu, Conf.keepThere]
  exact congrArg Except.ok (Conf.rewrite_congr fun e he => reclaimAt_eq h hreport he)

omit [DecidableEq κ] in
theorem Conf.PidTasks.keepThere (h : c.PidTasks) (there : ℤ → Bool) :
    (c.keepThere there).PidTasks := by
  intro e he t ht
  rw [Conf.keepThere, Conf.entries_rewrite] at he
  obtain ⟨e', he', rfl⟩ := List.mem_map.mp he
  exact h e' he' t (List.mem_filter.mp ht).1

omit [DecidableEq κ] in
/-- What is left is about processes that are there. -/
theorem dead_keepThere (h : c.PidTasks) : (c.keepThere there).dead there = [] := by
  refine List.eq_nil_iff_forall_not_mem.mpr fun r hr => ?_
  obtain ⟨hdead, hvisited⟩ := (mem_dead (h.keepThere there)).mp hr
  obtain ⟨e, he, -, -, ht⟩ := Conf.listed_of_visited hvisited
  rw [Conf.keepThere, Conf.entries_rewrite] at he
  obtain ⟨e', -, rfl⟩ := List.mem_map.mp he
  have hthere := (List.mem_filter.mp ht).2
  rw [isThere_taskOf, hdead] at hthere
  cases hthere

/-- **A reconciliation removes exactly the dead**: the report lists them, reclaiming it leaves the
others as they were, and a second run finds nothing to do. -/
theorem reconcile_exact (c : Conf Scalar Yaml) (there : ℤ → Bool) (hu : UniqueNames c.entries)
    (hpids : c.PidTasks) :
    ∃ c', ReconciledTo there c c' ∧
      generateReport (procExistsIn (some fun _ => there)) c = .ok (c.dead there) ∧
      (∀ report : List (Reclaimed Scalar), report.Perm (c.dead there) →
        reclaimCpuLists report c = .ok c') ∧
      generateReport (procExistsIn (some fun _ => there)) c' = .ok [] ∧
      reclaimCpuLists [] c' = .ok c' :=
  ⟨c.keepThere there, reconciledTo_keepThere there c, generateReport_eq there hpids,
    fun _ hreport => reclaimCpuLists_eq hu hpids hreport,
    (dead_keepThere hpids : (c.keepThere there).dead there = []) ▸
      generateReport_eq there (hpids.keepThere there), rfl⟩

/-- A configuration with three tasks in one list, two of them the same. -/
def threeTasks : Conf Scalar Yaml :=
  ⟨.ofList _ [⟨false, "shared", .ofList _ [⟨.int 0, .ofList _
    [⟨.str "4,5", [taskOf Yaml 7, taskOf Yaml 8, taskOf Yaml 7]⟩]⟩]⟩]⟩

theorem reconcile_exact_threeTasks : ∃ c', ReconciledTo (fun pid => pid = 8) threeTasks c' ∧
    generateReport (procExistsIn (some fun _ pid => pid = 8)) threeTasks =
      .ok (threeTasks.dead fun pid => pid = 8) ∧
    (∀ report : List (Reclaimed Scalar), report.Perm (threeTasks.dead fun pid => pid = 8) →
      reclaimCpuLists report threeTasks = .ok c') ∧
    generateReport (procExistsIn (some fun _ pid => pid = 8)) c' = .ok [] ∧
    reclaimCpuLists [] c' = .ok c' := by
  refine reconcile_exact threeTasks (fun pid => pid = 8) (by decide) fun e he t ht => ?_
  obtain rfl := List.mem_singleton.mp he
  have hcases : t = taskOf Yaml 7 ∨ t = taskOf Yaml 8 ∨ t = taskOf Yaml 7 := by simpa using ht
  rcases hcases with h | h | h <;> exact ⟨_, h⟩

end Cmk
