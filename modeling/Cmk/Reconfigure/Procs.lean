import Cmk.Config.Store

/-!
# Reconfigure/Procs — what `reconfigure` reads of the old configuration

`buildProcInfo` lists the occupied CPU lists and, for every pid, the lists it is recorded in;
`checkProcesses` counts the first against the request.  `Procs` is the table handed on to the pods;
the lists a pid gets are appended to its text one after another.
-/

open Machinery

namespace Cmk

/-- `Pid`: the CPU lists a pid had, and the text of those it gets. -/
structure Pid where
  oldClists : List String
  newClist : String
deriving DecidableEq

def Pid.new : Pid := ⟨[], ""⟩

def Pid.addOldClist (p : Pid) (clist : String) : Pid :=
  { p with oldClists := p.oldClists ++ [clist] }

def Pid.addNewClist (p : Pid) (clist : String) : Pid :=
  { p with newClist := if p.newClist = "" then clist else p.newClist ++ "," ++ clist }

/-- `process_map`. -/
abbrev Procs (τ : Type) := Dict τ Pid

/-- `ProcessInfo`: an occupied CPU list with the pids in it.  `sockets` says of every socket whether
it may still be tried; `socket` is a text once it has been changed. -/
structure ProcessInfo (τ : Type) where
  pool : String
  socket : Scalar
  sockets : List Bool
  oldClist : String
  pid : List τ

variable {τ : Type} [DecidableEq τ]

namespace Procs

def addProc (procs : Procs τ) (pid : τ) (clist : String) : Procs τ :=
  match procs.get? pid with
  | some row => procs.insert (pid, row.2.addOldClist clist)
  | none => procs.insert (pid, Pid.new.addOldClist clist)

/-- `add_new_clist` for every pid of a list. -/
def addNewClist (procs : Procs τ) (clist : String) : List τ → Except PyErr (Procs τ)
  | [] => .ok procs
  | pid :: pids =>
    match procs.get? pid with
    | some row => addNewClist (procs.insert (pid, row.2.addNewClist clist)) clist pids
    | none => .error (.keyError none)

end Procs

/-- The occupied CPU lists of a configuration. -/
def procInfo (conf : Conf String τ) : List (ProcessInfo τ) :=
  (conf.entries.filter fun e => e.tasks ≠ []).map fun e =>
    ⟨e.pool, e.socket, [true, true], e.coreId, e.tasks⟩

/-- Every pid with the lists it is in. -/
def procsOf (infos : List (ProcessInfo τ)) : Procs τ :=
  (infos.flatMap fun info => info.pid.map fun pid => (pid, info.oldClist)).foldl
    (fun procs x => procs.addProc x.1 x.2) .empty

def buildProcInfo (conf : Conf String τ) : Except PyErr (List (ProcessInfo τ) × Procs τ) :=
  if ∀ pool ∈ conf.getPools, pool ∈ ["exclusive", "shared", "infra", "exclusive-non-isolcpus"] then
    .ok (procInfo conf, procsOf (procInfo conf))
  else .error (.systemExit 1)

def checkProcesses (infos : List (ProcessInfo τ)) (numExclusiveCores : ℤ)
    (numExclNonIsols : ℕ) : Except PyErr Unit :=
  if numExclusiveCores < infos.countP (fun info => info.pool = "exclusive") ∨
      numExclNonIsols < infos.countP (fun info => info.pool = "exclusive-non-isolcpus") then
    .error (.systemExit 1)
  else .ok ()

/-! ## The pids recorded -/

theorem mem_keys_addProc {procs : Procs τ} {pid pid' : τ} {clist : String} :
    pid' ∈ (procs.addProc pid clist).keys ↔ pid' ∈ procs.keys ∨ pid' = pid := by
  unfold Procs.addProc
  split <;> exact Table.mem_keys_insert

/-- No new list is recorded yet. -/
def Procs.Unmoved (procs : Procs τ) : Prop := ∀ row ∈ procs.rows, row.2.newClist = ""

theorem Procs.Unmoved.addProc {procs : Procs τ} (h : procs.Unmoved) (pid : τ) (clist : String) :
    (procs.addProc pid clist).Unmoved := by
  unfold Procs.addProc
  intro row hrow
  split at hrow
  all_goals rcases Table.mem_rows_insert.mp hrow with ⟨hrow, -⟩ | rfl
  · exact h row hrow
  · rename_i old hold
    exact h old (Table.get?_eq_some.mp hold).1
  · exact h row hrow
  · rfl

/-- **The pids recorded are those in the lists**, none with a new list yet. -/
theorem procsOf_spec (infos : List (ProcessInfo τ)) :
    (procsOf infos).Unmoved ∧
      ∀ pid, pid ∈ (procsOf infos).keys ↔ ∃ info ∈ infos, pid ∈ info.pid := by
  have hfold : ∀ (xs : List (τ × String)) (procs : Procs τ), procs.Unmoved →
      (xs.foldl (fun procs x => procs.addProc x.1 x.2) procs).Unmoved ∧
        ∀ pid, pid ∈ (xs.foldl (fun procs x => procs.addProc x.1 x.2) procs).keys ↔
          pid ∈ procs.keys ∨ ∃ x ∈ xs, pid = x.1 := by
    intro xs
    induction xs with
    | nil => exact fun procs h => ⟨h, fun pid => by simp⟩
    | cons x xs ih =>
      intro procs h
      obtain ⟨hun, hkeys⟩ := ih _ (h.addProc x.1 x.2)
      refine ⟨hun, fun pid => ?_⟩
      rw [List.foldl_cons, hkeys, mem_keys_addProc]
      simp only [List.mem_cons, exists_eq_or_imp, or_assoc]
  obtain ⟨hun, hkeys⟩ := hfold (infos.flatMap fun info =>
    info.pid.map fun pid => (pid, info.oldClist)) .empty (fun _ h => nomatch h)
  refine ⟨hun, fun pid => ?_⟩
  rw [procsOf, hkeys]
  simp only [Table.keys_empty, List.not_mem_nil, false_or, List.mem_flatMap, List.mem_map]
  constructor
  · rintro ⟨x, ⟨info, hinfo, pid', hpid, rfl⟩, rfl⟩
    exact ⟨info, hinfo, hpid⟩
  · rintro ⟨info, hinfo, hpid⟩
    exact ⟨_, ⟨info, hinfo, pid, hpid, rfl⟩, rfl⟩

omit [DecidableEq τ] in
theorem mem_procInfo {conf : Conf String τ} {info : ProcessInfo τ} :
    info ∈ procInfo conf ↔ ∃ e ∈ conf.entries, e.tasks ≠ [] ∧
      info = ⟨e.pool, e.socket, [true, true], e.coreId, e.tasks⟩ := by
  simp only [procInfo, List.mem_map, List.mem_filter, ne_eq, decide_eq_true_eq, and_assoc,
    eq_comm (b := info)]

/-! ## The text of the new lists -/

theorem cpusOf_append (s t : String) : cpusOf (s ++ "," ++ t) = cpusOf s ++ cpusOf t := by
  have hsplit : splitText ',' (s ++ "," ++ t) = splitText ',' s ++ splitText ',' t := by
    simpa using splitText_append ',' s t
  rw [cpusOf, hsplit, List.filterMap_append, ← cpusOf, ← cpusOf]

theorem cpusOf_empty : cpusOf "" = [] := by decide

/-- **A list appended to the text** adds its CPUs. -/
theorem cpusOf_addNewClist (p : Pid) (clist : String) :
    cpusOf (p.addNewClist clist).newClist = cpusOf p.newClist ++ cpusOf clist := by
  unfold Pid.addNewClist
  split
  · rename_i hnil
    simp [hnil, cpusOf_empty]
  · exact cpusOf_append _ _

/-- What `add_new_clist` makes of the table: the pids stay, those named get the CPUs. -/
structure Procs.Adds (procs : Procs τ) (clist : String) (pids : List τ) (procs' : Procs τ) :
    Prop where
  keys : ∀ pid, pid ∈ procs'.keys ↔ pid ∈ procs.keys
  rows : ∀ pid p', (pid, p') ∈ procs'.rows → ∃ p, (pid, p) ∈ procs.rows ∧
    ∀ z, z ∈ cpusOf p'.newClist ↔ z ∈ cpusOf p.newClist ∨ (pid ∈ pids ∧ z ∈ cpusOf clist)

/-- **With every pid in the table, `add_new_clist` returns.** -/
theorem Procs.addNewClist_ok (clist : String) {pids : List τ} {procs : Procs τ}
    (h : ∀ pid ∈ pids, pid ∈ procs.keys) :
    ∃ procs', procs.addNewClist clist pids = .ok procs' ∧ procs.Adds clist pids procs' := by
  induction pids generalizing procs with
  | nil => exact ⟨procs, rfl, fun _ => .rfl, fun pid p' hp => ⟨p', hp, fun z => by simp⟩⟩
  | cons pid pids ih =>
    obtain ⟨⟨pid₀, old⟩, hrow, rfl⟩ := Table.mem_keys.mp (h pid List.mem_cons_self)
    have hget : procs.get? pid₀ = some (pid₀, old) := Table.get?_key hrow
    have hkeys : ∀ q, q ∈ (procs.insert (pid₀, old.addNewClist clist)).keys ↔ q ∈ procs.keys := by
      intro q
      refine Table.mem_keys_insert.trans ⟨?_, .inl⟩
      rintro (hq | rfl)
      · exact hq
      · exact Table.key_mem_keys hrow
    obtain ⟨procs', hok, hadds⟩ := ih fun q hq => (hkeys q).mpr (h q (List.mem_cons_of_mem _ hq))
    refine ⟨procs', by rw [Procs.addNewClist, hget]; exact hok,
      fun q => (hadds.keys q).trans (hkeys q), fun q p' hp' => ?_⟩
    obtain ⟨p, hp, hz⟩ := hadds.rows q p' hp'
    rcases Table.mem_rows_insert.mp hp with ⟨hp, hne⟩ | heq
    · refine ⟨p, hp, fun z => (hz z).trans ?_⟩
      have hne' : q ≠ pid₀ := hne
      simp [hne']
    · obtain ⟨rfl, rfl⟩ := Prod.mk.inj heq
      refine ⟨old, hrow, fun z => (hz z).trans ?_⟩
      rw [cpusOf_addNewClist, List.mem_append]
      simp
      tauto

end Cmk
