import Cmk.Config.Rewrite
import Cmk.Config.Store

/-!
# Isolate — the two locked sections of `isolate`

`isolateSection` is the code between the first `lock` and the `unlock` of its `finally` clause: it
chooses CPU lists by socket and records the wrapper's pid by name.  It returns the configuration
together with its outcome, since `unlock` publishes what was recorded before an exception.
`releaseSection` is the code between the `lock` and the `unlock` of the last `finally` block.

`isolateSection_spec` says what the first one can do to a configuration with unique names.
-/

open Machinery

namespace Cmk

/-- The arguments of `isolate` that its sections read. -/
structure IsolateArgs where
  poolName : String
  socketId : Option String

/-- What the sections read outside the configuration: `CMK_NUM_CORES`, the draw of `random.choice`
and the outcome of each call of `proc.getpid`. -/
structure IsolateEnv where
  numCores : Option String
  choice : ℕ
  getpid : ℕ → Except PyErr ℤ

variable {κ τ : Type} [DecidableEq κ]

def socketAwarePools : List String := ["exclusive", "shared", "exclusive-non-isolcpus"]

def IsolateArgs.selectedSocket (args : IsolateArgs) : Option Scalar :=
  if args.socketId = some "-1" ∨ args.poolName ∉ socketAwarePools then none
  else args.socketId.map Scalar.str

/-- `int(os.getenv(ENV_NUM_CORES, 1))`. -/
def IsolateEnv.nCpus (env : IsolateEnv) : Except PyErr ℤ :=
  match env.numCores with
  | none => .ok 1
  | some s => intOfStr s

/-- `random.choice`. -/
def randomChoice {α : Type} (xs : List α) (draw : ℕ) : Except PyErr α :=
  match xs[draw % xs.length]? with
  | some x => .ok x
  | none => .error .indexError

/-! ## Choosing the CPU lists -/

/-- `available_clists`. -/
def availableClists (coreLists : List (CoreList κ τ)) : List κ :=
  (coreLists.filter fun cl => cl.tasks.length = 0).map CoreList.coreId

def Pool.chooseExclusive (pool : Pool κ τ) (args : IsolateArgs) (env : IsolateEnv) :
    Except PyErr (List κ) := do
  let nCpus ← env.nCpus
  if nCpus < 1 then
    .error (.valueError (some "Requested numbers of cores must be positive integer"))
  else do
    let coreLists ← pool.getCoreLists args.selectedSocket
    if ((availableClists coreLists).length : ℤ) < nCpus then
      .error (.systemError ("Not enough free cpu lists in pool " ++ args.poolName))
    else .ok ((availableClists coreLists).take nCpus.toNat)

def Pool.chooseShared (pool : Pool κ τ) (args : IsolateArgs) (env : IsolateEnv) :
    Except PyErr (List κ) := do
  let coreLists ← pool.getCoreLists args.selectedSocket
  match randomChoice (coreLists.map CoreList.coreId) env.choice with
  | .ok cl => .ok [cl]
  | .error .indexError => .error (.systemError ("No cpu lists in pool " ++ args.poolName))
  | .error e => .error e

def Pool.chooseClists (pool : Pool κ τ) (args : IsolateArgs) (env : IsolateEnv) :
    Except PyErr (List κ) := do
  let clists ← (if pool.exclusive then pool.chooseExclusive args env
    else pool.chooseShared args env)
  if clists = [] then .error (.systemError ("No free cpu lists in pool " ++ args.poolName))
  else .ok clists

/-! ## The sections -/

section Sections

variable [Task τ]

/-- The loop `pool.update_clist(cl, str(proc.getpid()))`, from its `k`-th round on. -/
def recordClists (pool : String) (getpid : ℕ → Except PyErr ℤ) :
    ℕ → List κ → Conf κ τ → Except PyErr Unit × Conf κ τ
  | _, [], c => (.ok (), c)
  | k, cl :: clists, c =>
    match getpid k with
    | .error e => (.error e, c)
    | .ok pid => recordClists pool getpid (k + 1) clists (c.updateClist pool cl (taskOf τ pid))

def isolateSection (args : IsolateArgs) (env : IsolateEnv) (c : Conf κ τ) :
    Except PyErr (List κ) × Conf κ τ :=
  match c.pools.get? args.poolName with
  | none => (.error (.keyError (some ("Requested pool " ++ args.poolName ++ " does not exist"))), c)
  | some pool =>
    match pool.chooseClists args env with
    | .error e => (.error e, c)
    | .ok clists =>
      match recordClists args.poolName env.getpid 0 clists c with
      | (.error e, c') => (.error e, c')
      | (.ok (), c') => (.ok clists, c')

def releaseSection [DecidableEq τ] (poolName : String) (getpid : Except PyErr ℤ) (clists : List κ)
    (c : Conf κ τ) : Except PyErr (Conf κ τ) := do
  let _ ← c.getPool poolName
  let pid ← getpid
  return clists.foldl (fun c clist => c.removeTask poolName clist (taskOf τ pid)) c

end Sections

/-! ## What is chosen -/

omit [DecidableEq κ] in
theorem Pool.names_eq (p : Pool κ τ) :
    p.names = (p.sockets.rows.flatMap fun s => s.coreLists.rows).map CoreList.coreId := by
  simp only [Pool.names, Pool.entries, List.map_flatMap, List.map_map]
  rfl

omit [DecidableEq κ] in
theorem sublist_flatMap_of_mem {α β : Type} {x : α} {xs : List α} (h : x ∈ xs) (f : α → List β) :
    (f x).Sublist (xs.flatMap f) := by
  obtain ⟨ys, zs, rfl⟩ := List.append_of_mem h
  rw [List.flatMap_append, List.flatMap_cons]
  exact (List.sublist_append_left _ _).trans (List.sublist_append_right _ _)

omit [DecidableEq κ] in
/-- `get_core_lists` gives lists of the pool, each once. -/
theorem Pool.getCoreLists_sublist {p : Pool κ τ} {s : Option Scalar} {cls : List (CoreList κ τ)}
    (h : p.getCoreLists s = .ok cls) :
    cls.Sublist (p.sockets.rows.flatMap fun s => s.coreLists.rows) := by
  unfold Pool.getCoreLists at h
  split at h
  · rename_i socket
    split at h
    · obtain ⟨x, hx, hr⟩ := bind_eq_ok.mp h
      obtain rfl := pure_eq_ok.mp hr
      rw [Pool.getSocket] at hx
      split at hx
      · rename_i s' hs
        obtain rfl := Except.ok.inj hx
        exact sublist_flatMap_of_mem (Table.get?_eq_some.mp hs).1
          fun s : Socket κ τ => s.coreLists.rows
      · simp at hx
    · exact (Except.ok.inj h) ▸ List.Sublist.refl _
  · exact (Except.ok.inj h) ▸ List.Sublist.refl _

omit [DecidableEq κ] in
theorem Pool.chooseExclusive_ok {p : Pool κ τ} {args : IsolateArgs} {env : IsolateEnv}
    {clists : List κ} (h : p.chooseExclusive args env = .ok clists) :
    ∃ cls : List (CoreList κ τ),
      cls.Sublist (p.sockets.rows.flatMap fun s => s.coreLists.rows) ∧
      clists.Sublist (availableClists cls) := by
  obtain ⟨n, -, h⟩ := bind_eq_ok.mp h
  split at h
  · simp at h
  · obtain ⟨cls, hg, h⟩ := bind_eq_ok.mp h
    split at h
    · simp at h
    · exact ⟨cls, getCoreLists_sublist hg, Except.ok.inj h ▸ List.take_sublist _ _⟩

theorem randomChoice_mem {α : Type} {xs : List α} {draw : ℕ} {x : α}
    (h : randomChoice xs draw = .ok x) : x ∈ xs := by
  rw [randomChoice] at h
  split at h
  · rename_i y hy
    exact Except.ok.inj h ▸ List.mem_of_getElem? hy
  · simp at h

omit [DecidableEq κ] in
theorem Pool.chooseShared_ok {p : Pool κ τ} {args : IsolateArgs} {env : IsolateEnv}
    {clists : List κ} (h : p.chooseShared args env = .ok clists) :
    ∃ cl ∈ p.names, clists = [cl] := by
  obtain ⟨cls, hg, h⟩ := bind_eq_ok.mp h
  split at h
  · rename_i cl hcl
    refine ⟨cl, ?_, (Except.ok.inj h).symm⟩
    rw [p.names_eq]
    exact ((getCoreLists_sublist hg).map _).subset (randomChoice_mem hcl)
  · simp at h
  · simp at h

omit [DecidableEq κ] in
/-- **What is chosen**: at least one list of the pool, none twice if the names of the pool are
unique, and in an exclusive pool only lists without a task. -/
theorem Pool.chooseClists_ok {p : Pool κ τ} {args : IsolateArgs} {env : IsolateEnv}
    {clists : List κ} (h : p.chooseClists args env = .ok clists) :
    clists ≠ [] ∧ (p.names.Nodup → clists.Nodup) ∧
      ∀ cl ∈ clists, ∃ e ∈ p.entries, e.coreId = cl ∧ (p.exclusive → e.tasks = []) := by
  obtain ⟨cls', hx, h⟩ := bind_eq_ok.mp h
  split at h
  · simp at h
  · rename_i hne
    obtain rfl := Except.ok.inj h
    refine ⟨hne, ?_⟩
    split at hx
    · obtain ⟨cls, hsub, htake⟩ := chooseExclusive_ok hx
      refine ⟨fun hnd => ?_, fun cl hcl => ?_⟩
      · rw [p.names_eq] at hnd
        exact hnd.sublist (htake.trans ((List.filter_sublist.trans hsub).map _))
      · obtain ⟨x, hmem, rfl⟩ := List.mem_map.mp (htake.subset hcl)
        obtain ⟨hxc, hfree⟩ := List.mem_filter.mp hmem
        obtain ⟨s, hs, hxs⟩ := List.mem_flatMap.mp (hsub.subset hxc)
        exact ⟨_, mem_entries.mpr ⟨s, hs, x, hxs, rfl⟩, rfl, fun _ => by simpa using hfree⟩
    · rename_i hex
      obtain ⟨cl, hmem, rfl⟩ := chooseShared_ok hx
      refine ⟨fun _ => by simp, fun cl' hcl' => ?_⟩
      obtain rfl := List.mem_singleton.mp hcl'
      obtain ⟨e, he, rfl⟩ := List.mem_map.mp hmem
      exact ⟨e, he, rfl, fun h => absurd h hex⟩

/-! ## What is recorded -/

section Spec

variable [Task τ]

/-- A task appended in a pool under each of some names. -/
def appendAt (pool : String) (clists : List κ) (t : τ) (r : String × κ) (tasks : List τ) : List τ :=
  if r.1 = pool ∧ r.2 ∈ clists then tasks ++ [t] else tasks

omit [Task τ] in
theorem updateClist_eq_rewrite {c : Conf κ τ} (hu : UniqueNames c.entries) (pool : String) (cl : κ)
    (t : τ) : c.updateClist pool cl t = c.rewrite (appendAt pool [cl] t) := by
  rw [Conf.updateClist, Conf.mapFirst_eq_rewrite hu]
  congr 1
  funext r tasks
  simp [appendAt, Prod.ext_iff]

omit [Task τ] in
theorem rewrite_appendAt_nil (c : Conf κ τ) (pool : String) (t : τ) :
    c.rewrite (appendAt pool [] t) = c :=
  Conf.rewrite_eq_self fun e _ => by simp [appendAt]

omit [Task τ] in
theorem appendAt_cons {pool : String} {cl : κ} {clists : List κ} (h : cl ∉ clists) (t : τ) :
    (fun r tasks => appendAt pool clists t r (appendAt pool [cl] t r tasks)) =
      appendAt pool (cl :: clists) t := by
  funext r tasks
  by_cases hp : r.1 = pool
  · by_cases hc : r.2 = cl
    · simp [appendAt, hp, hc, h]
    · simp [appendAt, hp, hc]
  · simp [appendAt, hp]

/-- **The loop records a prefix of the lists**, all of them if it does not raise. -/
theorem recordClists_spec (pool : String) {getpid : ℕ → Except PyErr ℤ} {pid : ℤ}
    (hpid : ∀ k q, getpid k = .ok q → q = pid) {clists : List κ} (hnd : clists.Nodup) (k : ℕ)
    {c : Conf κ τ} (hu : UniqueNames c.entries) :
    ∃ done, done <+: clists ∧
      ((recordClists pool getpid k clists c).1 = .ok () → done = clists) ∧
      (recordClists pool getpid k clists c).2 = c.rewrite (appendAt pool done (taskOf τ pid)) := by
  induction clists generalizing k c with
  | nil => exact ⟨[], List.prefix_refl _, fun _ => rfl, (rewrite_appendAt_nil _ _ _).symm⟩
  | cons cl clists ih =>
    obtain ⟨hcl, hnd⟩ := List.nodup_cons.mp hnd
    rw [recordClists]
    cases hg : getpid k with
    | error e =>
      exact ⟨[], List.nil_prefix, fun h => by simp at h, (rewrite_appendAt_nil _ _ _).symm⟩
    | ok q =>
      obtain rfl := hpid k q hg
      have hstep := updateClist_eq_rewrite hu pool cl (taskOf τ q)
      obtain ⟨done, hpre, hok, hrec⟩ := ih hnd (k + 1) (hstep ▸ hu.rewrite _)
      refine ⟨cl :: done, List.cons_prefix_cons.mpr ⟨rfl, hpre⟩, fun h => by rw [hok h], ?_⟩
      have hdone : cl ∉ done := fun h => hcl (hpre.subset h)
      rw [hrec, hstep, Conf.rewrite_rewrite, appendAt_cons hdone]

/-- **What the allocation section does** to a configuration with unique names: it appends the pid in
the lists allocated, or in some of them if it raises, and these are free in an exclusive pool. -/
theorem isolateSection_spec {args : IsolateArgs} {env : IsolateEnv} {pid : ℤ}
    (hpid : ∀ k q, env.getpid k = .ok q → q = pid) {c c' : Conf κ τ} (hk : c.Known)
    (hu : UniqueNames c.entries) {r : Except PyErr (List κ)}
    (h : isolateSection args env c = (r, c')) :
    ∃ done, done.Nodup ∧ (∀ clists, r = .ok clists → done = clists) ∧
      c' = c.rewrite (appendAt args.poolName done (taskOf τ pid)) ∧
      ∀ cl ∈ done, ∃ e ∈ c.entries, e.pool = args.poolName ∧ e.coreId = cl ∧
        (exclusivity args.poolName = some true → e.tasks = []) := by
  unfold isolateSection at h
  split at h
  · obtain ⟨rfl, rfl⟩ := by simpa using h
    exact ⟨[], by simp, by simp, (rewrite_appendAt_nil _ _ _).symm, by simp⟩
  · rename_i pool hpool
    obtain ⟨hmem, hname⟩ := Table.get?_eq_some.mp hpool
    split at h
    · obtain ⟨rfl, rfl⟩ := by simpa using h
      exact ⟨[], by simp, by simp, (rewrite_appendAt_nil _ _ _).symm, by simp⟩
    · rename_i clists hchoose
      obtain ⟨-, hnd, hfree⟩ := Pool.chooseClists_ok hchoose
      obtain ⟨done, hpre, hok, hent⟩ := recordClists_spec args.poolName hpid
        (hnd (hu.nodup_names hmem)) 0 hu
      refine ⟨done, (hnd (hu.nodup_names hmem)).sublist hpre.sublist, ?_⟩
      have hwhere : ∀ cl ∈ done, ∃ e ∈ c.entries, e.pool = args.poolName ∧ e.coreId = cl ∧
          (exclusivity args.poolName = some true → e.tasks = []) := by
        intro cl hcl
        obtain ⟨e, he, rfl, hempty⟩ := hfree cl (hpre.subset hcl)
        refine ⟨e, Conf.mem_entries.mpr ⟨pool, hmem, he⟩,
          (Pool.pool_of_mem_entries he).trans hname, rfl, fun hex => hempty ?_⟩
        have := hk pool hmem
        rw [hname, hex] at this
        exact (Option.some.inj this).symm
      split at h
      · rename_i e c'' hrec
        obtain ⟨rfl, rfl⟩ := by simpa using h
        rw [hrec] at hent
        exact ⟨by simp, hent, hwhere⟩
      · rename_i c'' hrec
        obtain ⟨rfl, rfl⟩ := by simpa using h
        rw [hrec] at hent hok
        exact ⟨fun L hL => (hok rfl).trans (Except.ok.inj hL), hent, hwhere⟩

/-! ## Without unique names -/

theorem Listed.recordClists {c : Conf κ τ} {pool : String} {cl : κ} {t : τ}
    (h : Listed c.entries pool cl t) (pool' : String) (getpid : ℕ → Except PyErr ℤ)
    (clists : List κ) (k : ℕ) :
    Listed (recordClists pool' getpid k clists c).2.entries pool cl t := by
  induction clists generalizing c k with
  | nil => exact h
  | cons cl' clists ih =>
    rw [Cmk.recordClists]
    split
    · exact h
    · exact ih (h.updateClist pool' cl' _) (k + 1)

theorem recordClists_listed {pool : String} {getpid : ℕ → Except PyErr ℤ} {pid : ℤ}
    (hpid : ∀ k q, getpid k = .ok q → q = pid) {clists : List κ} (k : ℕ) {c c' : Conf κ τ}
    (hn : ∀ cl ∈ clists, Named c.entries pool cl)
    (h : recordClists pool getpid k clists c = (.ok (), c')) :
    ∀ cl ∈ clists, Listed c'.entries pool cl (taskOf τ pid) := by
  induction clists generalizing c k with
  | nil => simp
  | cons cl clists ih =>
    rw [Cmk.recordClists] at h
    split at h
    · simp at h
    · rename_i q hq
      obtain rfl := hpid k q hq
      have htail := ih (k + 1) (fun cl' hcl' => (hn cl' (by simp [hcl'])).mapFirst _ _ _) h
      have hhead := (listed_updateClist (taskOf τ q) (hn cl (by simp))).recordClists pool getpid
        clists (k + 1)
      rw [h] at hhead
      intro cl' hcl'
      rcases List.mem_cons.mp hcl' with rfl | hmem
      · exact hhead
      · exact htail cl' hmem

theorem Listed.isolateSection {c : Conf κ τ} {pool : String} {cl : κ} {t : τ}
    (h : Listed c.entries pool cl t) (args : IsolateArgs) (env : IsolateEnv) :
    Listed (isolateSection args env c).2.entries pool cl t := by
  unfold Cmk.isolateSection
  split
  · exact h
  · split
    · exact h
    · rename_i clists _
      have hrec := h.recordClists args.poolName env.getpid clists 0
      split <;> rename_i heq <;> rwa [heq] at hrec

/-- **After a successful allocation** the pid is in at least one list, and in every list allocated.
-/
theorem isolateSection_listed {args : IsolateArgs} {env : IsolateEnv} {pid : ℤ}
    (hpid : ∀ k q, env.getpid k = .ok q → q = pid) {c c' : Conf κ τ} {clists : List κ}
    (h : isolateSection args env c = (.ok clists, c')) :
    clists ≠ [] ∧ ∀ cl ∈ clists, Listed c'.entries args.poolName cl (taskOf τ pid) := by
  unfold isolateSection at h
  split at h
  · simp at h
  · rename_i pool hpool
    obtain ⟨hmem, hname⟩ := Table.get?_eq_some.mp hpool
    split at h
    · simp at h
    · rename_i clists' hchoose
      obtain ⟨hne, -, hfree⟩ := Pool.chooseClists_ok hchoose
      split at h
      · simp at h
      · rename_i c'' hrec
        obtain ⟨rfl, rfl⟩ := by simpa using h
        refine ⟨hne, recordClists_listed hpid 0 (fun cl hcl => ?_) hrec⟩
        obtain ⟨e, he, rfl, -⟩ := hfree cl hcl
        refine ⟨e.socket, List.mem_map.mpr ⟨e, Conf.mem_entries.mpr ⟨pool, hmem, he⟩, ?_⟩⟩
        rw [Entry.loc, Pool.pool_of_mem_entries he, hname]

/-! ## What is released -/

variable [DecidableEq τ]

/-- A task dropped in a pool under each of some names. -/
def dropAt (pool : String) (clists : List κ) (t : τ) (r : String × κ) (tasks : List τ) : List τ :=
  if r.1 = pool ∧ r.2 ∈ clists then tasks.filter (· ≠ t) else tasks

omit [Task τ] in
theorem foldl_removeTask_eq_rewrite {c : Conf κ τ} (hu : UniqueNames c.entries) (pool : String)
    (clists : List κ) (t : τ) :
    clists.foldl (fun c cl => c.removeTask pool cl t) c = c.rewrite (dropAt pool clists t) := by
  induction clists generalizing c with
  | nil => exact (Conf.rewrite_eq_self fun e _ => by simp [dropAt]).symm
  | cons cl clists ih =>
    have hstep : c.removeTask pool cl t = c.rewrite (dropAt pool [cl] t) := by
      rw [Conf.removeTask, Conf.mapFirst_eq_rewrite hu]
      congr 1
      funext r tasks
      simp [dropAt, Prod.ext_iff]
    rw [List.foldl_cons, ih (hstep ▸ hu.rewrite _), hstep, Conf.rewrite_rewrite]
    congr 1
    funext r tasks
    by_cases hp : r.1 = pool
    · by_cases hc : r.2 = cl <;> by_cases hm : r.2 ∈ clists <;>
        simp [dropAt, hp, hc, hm, List.filter_filter]
    · simp [dropAt, hp]

theorem releaseSection_ok {poolName : String} {getpid : Except PyErr ℤ} {clists : List κ}
    {c c' : Conf κ τ} (h : releaseSection poolName getpid clists c = .ok c') :
    ∃ pid, getpid = .ok pid ∧
      c' = clists.foldl (fun c cl => c.removeTask poolName cl (taskOf τ pid)) c := by
  obtain ⟨-, -, h⟩ := bind_eq_ok.mp h
  obtain ⟨pid, hpid, h⟩ := bind_eq_ok.mp h
  exact ⟨pid, hpid, (pure_eq_ok.mp h).symm⟩

/-- **What the release section does** to a configuration with unique names. -/
theorem releaseSection_spec {poolName : String} {getpid : Except PyErr ℤ} {clists : List κ}
    {c c' : Conf κ τ} (hu : UniqueNames c.entries)
    (h : releaseSection poolName getpid clists c = .ok c') :
    ∃ pid, getpid = .ok pid ∧
      c'.entries = c.entries.map (Entry.rewrite (dropAt poolName clists (taskOf τ pid))) := by
  obtain ⟨pid, hpid, rfl⟩ := releaseSection_ok h
  refine ⟨pid, hpid, ?_⟩
  rw [foldl_removeTask_eq_rewrite hu, Conf.entries_rewrite]

/-- **The release section leaves the tasks of every other pid.** -/
theorem Listed.releaseSection {c c' : Conf κ τ} {pool : String} {cl : κ} {t : τ}
    (hl : Listed c.entries pool cl t) {poolName : String} {getpid : Except PyErr ℤ}
    {clists : List κ} (hne : ∀ q, getpid = .ok q → t ≠ taskOf τ q)
    (h : Cmk.releaseSection poolName getpid clists c = .ok c') : Listed c'.entries pool cl t := by
  obtain ⟨pid, hpid, rfl⟩ := releaseSection_ok h
  clear h
  induction clists generalizing c with
  | nil => exact hl
  | cons cl' clists ih => exact ih (hl.removeTask (hne pid hpid) poolName cl')

end Spec

end Cmk
