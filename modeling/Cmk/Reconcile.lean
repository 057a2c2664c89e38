import Cmk.Isolate

/-!
# Reconcile — `generate_report` and `reclaim_cpu_lists`

The locked section of `reconcile` looks up every task in procfs, prints the report of those whose
process is gone and removes them from the lists.  A task whose process is there stays
(`Listed.reconcileSection`), and with unique names the section drops tasks of processes that are
gone and nothing else (`reconcileSection_spec`).
-/

open Machinery

namespace Cmk

/-- Which values `json.dumps` accepts. -/
class Json (κ : Type) where
  jsonable : κ → Bool

instance : Json String := ⟨fun _ => true⟩

instance : Json Scalar := ⟨Scalar.jsonable⟩

structure Reclaimed (κ : Type) where
  pid : ℤ
  pool : String
  cpus : κ
deriving DecidableEq

variable {κ τ : Type}

/-- `Process.exists`, with what procfs says at each call, or none if `CMK_PROC_FS` is not set. -/
def procExistsIn (procfs : Option (ℕ → ℤ → Bool)) (k : ℕ) (pid : ℤ) : Except PyErr Bool :=
  match procfs with
  | none => .error (.systemExit 1)
  | some there => .ok (there k pid)

section Report

variable [Task τ]

/-- The loops of `generate_report`, from the `k`-th process looked up on. -/
def reportTasks (procExists : ℕ → ℤ → Except PyErr Bool) :
    ℕ → List (String × κ × τ) → Except PyErr (List (Reclaimed κ))
  | _, [] => .ok []
  | k, (pool, cl, task) :: rest => do
    let pid ← Task.toInt task
    let there ← procExists k pid
    let report ← reportTasks procExists (k + 1) rest
    return if there then report else ⟨pid, pool, cl⟩ :: report

def generateReport (procExists : ℕ → ℤ → Except PyErr Bool) (c : Conf κ τ) :
    Except PyErr (List (Reclaimed κ)) := reportTasks procExists 0 c.visited

/-- `report.json()`: it leaves the report sorted by pid. -/
def reportJson [Json κ] (report : List (Reclaimed κ)) : Except PyErr (List (Reclaimed κ)) :=
  if ∀ r ∈ report, Json.jsonable r.cpus then
    .ok (report.insertionSort fun r r' => r.pid ≤ r'.pid)
  else .error .typeError

variable [DecidableEq κ] [DecidableEq τ]

def reclaimCpuLists : List (Reclaimed κ) → Conf κ τ → Except PyErr (Conf κ τ)
  | [], c => .ok c
  | r :: report, c => do
    let pool ← c.getPool r.pool
    match ← pool.getCoreList r.cpus none with
    | none => .error .attributeError
    | some socket =>
      reclaimCpuLists report (c.mapTasks r.pool socket r.cpus
        fun tasks => tasks.filter (· ≠ taskOf τ r.pid))

/-- The code between `lock` and `unlock`. -/
def reconcileSection [Json κ] (procExists : ℕ → ℤ → Except PyErr Bool) (c : Conf κ τ) :
    Except PyErr (Conf κ τ) := do
  let report ← generateReport procExists c
  let report ← reportJson report
  reclaimCpuLists report c

end Report

/-! ## The report -/

section Spec

variable [Task τ] {procExists : ℕ → ℤ → Except PyErr Bool}

/-- The item is about a task of the list whose process was looked up and not there. -/
def Reclaimed.Gone (procExists : ℕ → ℤ → Except PyErr Bool) (tasks : List (String × κ × τ))
    (r : Reclaimed κ) : Prop :=
  (∃ t, (r.pool, r.cpus, t) ∈ tasks ∧ Task.toInt t = .ok r.pid) ∧
    ∃ k, procExists k r.pid = .ok false

theorem Reclaimed.Gone.cons {tasks : List (String × κ × τ)} {r : Reclaimed κ}
    (h : r.Gone procExists tasks) (x : String × κ × τ) : r.Gone procExists (x :: tasks) := by
  obtain ⟨⟨t, ht, hi⟩, hk⟩ := h
  exact ⟨⟨t, List.mem_cons_of_mem _ ht, hi⟩, hk⟩

/-- **Every item of the report is a task whose process was not there.** -/
theorem gone_of_reportTasks {tasks : List (String × κ × τ)} {k : ℕ} {report : List (Reclaimed κ)}
    (h : reportTasks procExists k tasks = .ok report) :
    ∀ r ∈ report, r.Gone procExists tasks := by
  induction tasks generalizing k report with
  | nil =>
    obtain rfl : [] = report := Except.ok.inj h
    simp
  | cons x rest ih =>
    obtain ⟨pool, cl, task⟩ := x
    obtain ⟨pid, hpid, h⟩ := bind_eq_ok.mp h
    obtain ⟨there, hthere, h⟩ := bind_eq_ok.mp h
    obtain ⟨tail, htail, h⟩ := bind_eq_ok.mp h
    obtain rfl := pure_eq_ok.mp h
    have htail' : ∀ r ∈ tail, r.Gone procExists ((pool, cl, task) :: rest) :=
      fun r hr => (ih htail r hr).cons _
    cases there with
    | true => exact htail'
    | false =>
      refine List.forall_mem_cons.mpr ⟨?_, htail'⟩
      exact ⟨⟨task, List.mem_cons_self, hpid⟩, k, hthere⟩

/-- **Every task is reported on**, unless its process was there. -/
theorem reported_of_reportTasks {tasks : List (String × κ × τ)} {k : ℕ}
    {report : List (Reclaimed κ)} (h : reportTasks procExists k tasks = .ok report) :
    ∀ pool cl t, (pool, cl, t) ∈ tasks → ∃ pid, Task.toInt t = .ok pid ∧
      ((∃ k, procExists k pid = .ok true) ∨ ⟨pid, pool, cl⟩ ∈ report) := by
  induction tasks generalizing k report with
  | nil => simp
  | cons x rest ih =>
    obtain ⟨pool, cl, task⟩ := x
    obtain ⟨pid, hpid, h⟩ := bind_eq_ok.mp h
    obtain ⟨there, hthere, h⟩ := bind_eq_ok.mp h
    obtain ⟨tail, htail, h⟩ := bind_eq_ok.mp h
    obtain rfl := pure_eq_ok.mp h
    have hsub : tail ⊆ if there then tail else ⟨pid, pool, cl⟩ :: tail := by
      cases there <;> simp
    intro pool' cl' t ht
    rcases List.mem_cons.mp ht with heq | ht
    · obtain ⟨rfl, rfl, rfl⟩ := by simpa using heq
      refine ⟨pid, hpid, ?_⟩
      cases there with
      | true => exact .inl ⟨k, hthere⟩
      | false => exact .inr List.mem_cons_self
    · obtain ⟨q, hq, hmem⟩ := ih htail pool' cl' t ht
      exact ⟨q, hq, hmem.imp_right fun hmem => hsub hmem⟩

theorem reportJson_ok [Json κ] {report sorted : List (Reclaimed κ)}
    (h : reportJson report = .ok sorted) : sorted.Perm report := by
  rw [reportJson] at h
  split at h
  · exact Except.ok.inj h ▸ List.perm_insertionSort _ report
  · simp at h

/-! ## The reclaim -/

variable [DecidableEq κ] [DecidableEq τ]

/-- Reclaiming is removing one task after another. -/
theorem reclaimCpuLists_ok {report : List (Reclaimed κ)} {c c' : Conf κ τ}
    (h : reclaimCpuLists report c = .ok c') :
    c' = report.foldl (fun c r => c.removeTask r.pool r.cpus (taskOf τ r.pid)) c := by
  induction report generalizing c with
  | nil => exact (Except.ok.inj h).symm
  | cons r report ih =>
    obtain ⟨pool, hpool, h⟩ := bind_eq_ok.mp h
    obtain ⟨found, hfound, h⟩ := bind_eq_ok.mp h
    split at h
    · simp at h
    · rename_i socket
      have hsock : c.socketOf r.pool r.cpus = some socket := by
        rw [Conf.getPool] at hpool
        split at hpool
        · rename_i p hp
          obtain rfl := Except.ok.inj hpool
          rw [Conf.socketOf, hp, Option.bind_some]
          exact Except.ok.inj hfound
        · simp at hpool
      have hstep : c.removeTask r.pool r.cpus (taskOf τ r.pid) =
          c.mapTasks r.pool socket r.cpus fun tasks => tasks.filter (· ≠ taskOf τ r.pid) := by
        rw [Conf.removeTask, Conf.mapFirst_eq, hsock]
      rw [List.foldl_cons, hstep]
      exact ih h

/-- The tasks of a list that a report leaves. -/
def reclaimAt (report : List (Reclaimed κ)) (r : String × κ) (tasks : List τ) : List τ :=
  tasks.filter fun t => ∀ x ∈ report, r = (x.pool, x.cpus) → t ≠ taskOf τ x.pid

/-- **Reclaiming a report** rewrites by pool and name. -/
theorem foldl_reclaim_eq_rewrite {c : Conf κ τ} (hu : UniqueNames c.entries)
    (report : List (Reclaimed κ)) :
    report.foldl (fun c r => c.removeTask r.pool r.cpus (taskOf τ r.pid)) c =
      c.rewrite (reclaimAt report) := by
  induction report generalizing c with
  | nil => exact (Conf.rewrite_eq_self fun e _ => by simp [reclaimAt]).symm
  | cons x report ih =>
    have hstep := foldl_removeTask_eq_rewrite hu x.pool [x.cpus] (taskOf τ x.pid)
    rw [List.foldl_cons, List.foldl_nil] at hstep
    rw [List.foldl_cons, ih (hstep ▸ hu.rewrite _), hstep, Conf.rewrite_rewrite]
    congr 1
    funext r tasks
    by_cases hr : r = (x.pool, x.cpus)
    · simp [reclaimAt, dropAt, hr, List.filter_filter, Bool.and_comm]
    · have hr' : ¬ (r.1 = x.pool ∧ r.2 = x.cpus) := fun h => hr (Prod.ext h.1 h.2)
      simp [reclaimAt, dropAt, hr, hr']

omit [DecidableEq κ] [DecidableEq τ] in
/-- A live pid is in no report. -/
theorem taskOf_ne_of_gone (hinj : Function.Injective (taskOf τ)) {pid : ℤ}
    (hlive : ∀ k, procExists k pid = .ok true) {tasks : List (String × κ × τ)} {r : Reclaimed κ}
    (h : r.Gone procExists tasks) : taskOf τ pid ≠ taskOf τ r.pid := by
  intro he
  obtain ⟨-, k, hk⟩ := h
  rw [← hinj he, hlive k] at hk
  simp at hk

variable [Json κ]

theorem reconcileSection_ok {c c' : Conf κ τ} (h : reconcileSection procExists c = .ok c') :
    ∃ report : List (Reclaimed κ), (∀ r ∈ report, r.Gone procExists c.visited) ∧
      c' = report.foldl (fun c r => c.removeTask r.pool r.cpus (taskOf τ r.pid)) c := by
  obtain ⟨report, hrep, h⟩ := bind_eq_ok.mp h
  obtain ⟨sorted, hsort, h⟩ := bind_eq_ok.mp h
  refine ⟨sorted, fun r hr => ?_, reclaimCpuLists_ok h⟩
  exact gone_of_reportTasks hrep r ((reportJson_ok hsort).subset hr)

/-- **A task whose process is there stays**, in whatever configuration. -/
theorem Listed.reconcileSection (hinj : Function.Injective (taskOf τ)) {c c' : Conf κ τ}
    {pool : String} {cl : κ} {pid : ℤ} (hl : Listed c.entries pool cl (taskOf τ pid))
    (hlive : ∀ k, procExists k pid = .ok true)
    (h : Cmk.reconcileSection procExists c = .ok c') :
    Listed c'.entries pool cl (taskOf τ pid) := by
  obtain ⟨report, hgone, rfl⟩ := reconcileSection_ok h
  clear h
  generalize c.visited = tasks at hgone
  induction report generalizing c with
  | nil => exact hl
  | cons r report ih =>
    obtain ⟨hr, hgone⟩ := List.forall_mem_cons.mp hgone
    exact ih (hl.removeTask (taskOf_ne_of_gone hinj hlive hr) r.pool r.cpus) hgone

/-- **What the section does** to a configuration with unique names: it drops tasks of processes that
are gone and nothing else. -/
theorem reconcileSection_spec (hinj : Function.Injective (taskOf τ)) {c c' : Conf κ τ}
    (hu : UniqueNames c.entries) (h : reconcileSection procExists c = .ok c') :
    ∃ keep : String × κ → τ → Bool,
      c'.entries = c.entries.map (Entry.rewrite fun r tasks => tasks.filter (keep r)) ∧
      ∀ r pid, (∀ k, procExists k pid = .ok true) → keep r (taskOf τ pid) = true := by
  obtain ⟨report, hgone, rfl⟩ := reconcileSection_ok h
  refine ⟨fun r t => ∀ x ∈ report, r = (x.pool, x.cpus) → t ≠ taskOf τ x.pid, ?_,
    fun r pid hlive => ?_⟩
  · rw [foldl_reclaim_eq_rewrite hu, Conf.entries_rewrite]
    rfl
  have hstay : ∀ x ∈ report, taskOf τ pid ≠ taskOf τ x.pid := fun x hx =>
    taskOf_ne_of_gone hinj hlive (hgone x hx)
  simpa using fun x hx _ => hstay x hx

/-- **Whoever is left was found**: after the section the pid of a task is that of a process some
lookup found. -/
theorem exists_there_of_reconcileSection (hround : ∀ pid, Task.toInt (taskOf τ pid) = .ok pid)
    {c c' : Conf κ τ} (hu : UniqueNames c.entries) (h : reconcileSection procExists c = .ok c')
    {e : Entry κ τ} (he : e ∈ c'.entries) {pid : ℤ} (ht : taskOf τ pid ∈ e.tasks) :
    ∃ k, procExists k pid = .ok true := by
  obtain ⟨report, hrep, h⟩ := bind_eq_ok.mp h
  obtain ⟨sorted, hsort, h⟩ := bind_eq_ok.mp h
  obtain rfl := reclaimCpuLists_ok h
  rw [foldl_reclaim_eq_rewrite hu, Conf.entries_rewrite] at he
  obtain ⟨x, hx, rfl⟩ := List.mem_map.mp he
  obtain ⟨ht, hkept⟩ := List.mem_filter.mp ht
  have hvisited : (x.pool, x.coreId, taskOf τ pid) ∈ c.visited :=
    List.mem_flatMap.mpr ⟨x, hx, List.mem_map_of_mem ht⟩
  obtain ⟨q, hq, hthere | hmem⟩ := reported_of_reportTasks hrep _ _ _ hvisited
  · obtain rfl := Except.ok.inj ((hround pid).symm.trans hq)
    exact hthere
  · obtain rfl := Except.ok.inj ((hround pid).symm.trans hq)
    exact absurd rfl (of_decide_eq_true hkept _ ((reportJson_ok hsort).mem_iff.mpr hmem) rfl)

/-! ## When the section returns -/

omit [DecidableEq κ] [DecidableEq τ] in
/-- The task at a place of the visit can be reported on: it is an integer, its process can be looked
up, and if it is not there the name of its list can be printed. -/
def Reportable (procExists : ℕ → ℤ → Except PyErr Bool) (k : ℕ) (cl : κ) (task : τ) : Prop :=
  ∃ pid there, Task.toInt task = .ok pid ∧ procExists k pid = .ok there ∧
    (there = false → Json.jsonable cl)

omit [DecidableEq κ] [DecidableEq τ] in
theorem exists_report {tasks : List (String × κ × τ)} {k : ℕ} :
    (∃ report, reportTasks procExists k tasks = .ok report ∧ ∀ r ∈ report, Json.jsonable r.cpus) ↔
      ∀ q ∈ tasks.zipIdx k, Reportable procExists q.2 q.1.2.1 q.1.2.2 := by
  induction tasks generalizing k with
  | nil => simp [reportTasks]
  | cons x rest ih =>
    obtain ⟨pool, cl, task⟩ := x
    rw [List.zipIdx_cons, List.forall_mem_cons, ← ih]
    constructor
    · rintro ⟨report, h, hjson⟩
      obtain ⟨pid, hpid, h⟩ := bind_eq_ok.mp h
      obtain ⟨there, hthere, h⟩ := bind_eq_ok.mp h
      obtain ⟨tail, htail, h⟩ := bind_eq_ok.mp h
      obtain rfl := pure_eq_ok.mp h
      cases there with
      | true => exact ⟨⟨pid, true, hpid, hthere, nofun⟩, tail, htail, hjson⟩
      | false =>
        obtain ⟨hcl, hjson⟩ := List.forall_mem_cons.mp hjson
        exact ⟨⟨pid, false, hpid, hthere, fun _ => hcl⟩, tail, htail, hjson⟩
    · rintro ⟨⟨pid, there, hpid, hthere, hcl⟩, tail, htail, hjson⟩
      refine ⟨_, bind_eq_ok.mpr ⟨pid, hpid, bind_eq_ok.mpr ⟨there, hthere,
        bind_eq_ok.mpr ⟨tail, htail, rfl⟩⟩⟩, ?_⟩
      cases there with
      | true => exact hjson
      | false => exact List.forall_mem_cons.mpr ⟨hcl rfl, hjson⟩

omit [Json κ] in
theorem isOk_reclaimCpuLists {report : List (Reclaimed κ)} {c : Conf κ τ}
    (h : ∀ r ∈ report, Named c.entries r.pool r.cpus) : IsOk (reclaimCpuLists report c) := by
  induction report generalizing c with
  | nil => exact ⟨c, rfl⟩
  | cons r report ih =>
    obtain ⟨hr, h⟩ := List.forall_mem_cons.mp h
    obtain ⟨s, hs⟩ : ∃ s, c.socketOf r.pool r.cpus = some s := by
      rw [← Option.ne_none_iff_exists']
      intro hnone
      obtain ⟨e, he, hp, hc⟩ := hr.exists_entry
      exact Conf.socketOf_eq_none.mp hnone e he hp hc
    obtain ⟨pool, hpool, hsock⟩ := Option.bind_eq_some_iff.mp hs
    rw [reclaimCpuLists, isOk_bind]
    refine ⟨pool, by rw [Conf.getPool, hpool], isOk_bind.mpr ⟨some s, congrArg Except.ok hsock, ?_⟩⟩
    refine ih fun x hx => ?_
    rw [Named, Conf.locs_mapTasks]
    exact h x hx

/-- **The section returns exactly when every task can be reported on.** -/
theorem isOk_reconcileSection {c : Conf κ τ} :
    IsOk (reconcileSection procExists c) ↔
      ∀ q ∈ c.visited.zipIdx, Reportable procExists q.2 q.1.2.1 q.1.2.2 := by
  rw [← exists_report, reconcileSection, isOk_bind]
  refine exists_congr fun report => and_congr_right fun hrep => ?_
  rw [isOk_bind]
  constructor
  · rintro ⟨sorted, hsort, -⟩
    rw [reportJson] at hsort
    split at hsort
    · assumption
    · simp at hsort
  · intro hjson
    have hsort : reportJson report =
        .ok (report.insertionSort fun r r' => r.pid ≤ r'.pid) := by rw [reportJson, if_pos hjson]
    refine ⟨_, hsort, isOk_reclaimCpuLists fun r hr => ?_⟩
    obtain ⟨⟨t, ht, -⟩, -⟩ := gone_of_reportTasks hrep r ((reportJson_ok hsort).subset hr)
    exact (Conf.listed_of_visited ht).named

end Spec

end Cmk
