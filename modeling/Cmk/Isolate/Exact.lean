import Cmk.Isolate.Socket

/-!
# Isolate/Exact — what an allocation takes

Without a socket to keep to and with procfs readable, the allocation section of `isolate` succeeds
exactly when the pool has the CPU lists asked for, and records the pid on those and no others; when
it fails, what `unlock` writes back is what `lock` read (`allocation_exact`).
-/

open Machinery

namespace Cmk

section Allocation

variable {κ τ : Type}

/-- The CPU lists of a pool, in stored order. -/
def Conf.listsIn (c : Conf κ τ) (pool : String) : List (Entry κ τ) :=
  c.entries.filter fun e => e.pool = pool

/-- Those without a task. -/
def Conf.freeIn (c : Conf κ τ) (pool : String) : List (Entry κ τ) :=
  (c.listsIn pool).filter fun e => e.tasks.isEmpty

variable [DecidableEq κ]

/-- A configuration with a task appended on some of its CPU lists. -/
def Conf.recordOn (c : Conf κ τ) (chosen : List (Entry κ τ)) (t : τ) : Conf κ τ :=
  c.rewriteAt fun l tasks => if l ∈ chosen.map Entry.loc then tasks ++ [t] else tasks

/-- The section returns the names of the lists chosen, and has recorded the task on these and
nothing else. -/
def Allocates [Task τ] (args : IsolateArgs) (env : IsolateEnv) (c : Conf κ τ) (t : τ)
    (chosen : List (Entry κ τ)) : Prop :=
  isolateSection args env c = (.ok (chosen.map Entry.coreId), c.recordOn chosen t)

/-- **The allocation is exact.**  `d` is the dictionary that was read, `c` what was built of it. -/
structure ExactAllocation [Task τ] (args : IsolateArgs) (env : IsolateEnv) (d : ConfDict κ τ)
    (c : Conf κ τ) (t : τ) : Prop where
  exclusive : ∀ p, c.getPool args.poolName = .ok p → p.exclusive = true →
    (IsOk (isolateSection args env c).1 ↔
      ∃ n : ℤ, env.nCpus = .ok n ∧ 1 ≤ n ∧ n ≤ (c.freeIn args.poolName).length) ∧
    (IsOk (isolateSection args env c).1 → ∃ n : ℕ, env.nCpus = .ok n ∧
      Allocates args env c t ((c.freeIn args.poolName).take n))
  shared : ∀ p, c.getPool args.poolName = .ok p → p.exclusive = false →
    (IsOk (isolateSection args env c).1 ↔ c.listsIn args.poolName ≠ []) ∧
    (IsOk (isolateSection args env c).1 →
      ∃ e ∈ c.listsIn args.poolName, Allocates args env c t [e])
  unknown : ¬ IsOk (c.getPool args.poolName) → ¬ IsOk (isolateSection args env c).1
  failed : ¬ IsOk (isolateSection args env c).1 →
    buildConfigmap (isolateSection args env c).2 = d

/-! ## What is offered -/

variable {c : Conf κ τ} {args : IsolateArgs} {env : IsolateEnv} {pool : String}

omit [DecidableEq κ] in
theorem usable_of_exclusive (h : exclusivity pool = some true) : c.usable pool = c.freeIn pool := by
  rw [Conf.usable, Conf.freeIn, Conf.listsIn, List.filter_filter]
  refine List.filter_congr fun e _ => ?_
  have hempty : decide (e.tasks = []) = e.tasks.isEmpty := by cases e.tasks <;> rfl
  simp [h, hempty, Bool.and_comm]

omit [DecidableEq κ] in
theorem usable_of_shared (h : exclusivity pool = some false) : c.usable pool = c.listsIn pool :=
  List.filter_congr fun e _ => by simp [h]

omit [DecidableEq κ] in
theorem exclusivity_of_getPool (hk : c.Known) {p : Pool κ τ} (hp : c.getPool pool = .ok p) :
    exclusivity pool = some p.exclusive := by
  rw [Conf.getPool] at hp
  split at hp
  · rename_i q hq
    obtain rfl := Except.ok.inj hp
    obtain ⟨hmem, rfl⟩ := Table.get?_eq_some.mp hq
    exact hk q hmem
  · cases hp

/-! ## What is recorded -/

/-- By name or by place: the lists chosen are the same. -/
theorem rewrite_appendAt_eq_recordOn (hu : UniqueNames c.entries) {chosen : List (Entry κ τ)}
    (hchosen : ∀ e ∈ chosen, e ∈ c.entries ∧ e.pool = pool) (t : τ) :
    c.rewrite (appendAt pool (chosen.map Entry.coreId) t) = c.recordOn chosen t := by
  refine Conf.rewriteAt_congr fun e he => ?_
  have hiff : (e.pool = pool ∧ e.coreId ∈ chosen.map Entry.coreId) ↔
      e.loc ∈ chosen.map Entry.loc := by
    constructor
    · rintro ⟨hpool, hname⟩
      obtain ⟨e', he', heq⟩ := List.mem_map.mp hname
      obtain ⟨hmem, hpool'⟩ := hchosen e' he'
      rw [hu.eq_of_name he hmem (hpool.trans hpool'.symm) heq.symm]
      exact List.mem_map_of_mem he'
    · intro hloc
      obtain ⟨e', he', heq⟩ := List.mem_map.mp hloc
      obtain ⟨hmem, hpool'⟩ := hchosen e' he'
      obtain rfl := Conf.eq_of_loc_eq hmem he heq
      exact ⟨hpool', List.mem_map_of_mem he'⟩
  simp only [appendAt, Entry.loc, hiff]

variable [Task τ] {pid : ℤ}

/-- **A section that fails has changed nothing**, if the pid can be read. -/
theorem snd_isolateSection_of_error (hpid : ∀ i, env.getpid i = .ok pid)
    (h : ¬ IsOk (isolateSection args env c).1) : (isolateSection args env c).2 = c := by
  revert h
  rw [isolateSection]
  split
  · exact fun _ => rfl
  · split
    · exact fun _ => rfl
    · rename_i clists _
      have hok : (recordClists args.poolName env.getpid 0 clists c).1 = .ok () :=
        (isOk_recordClists env.getpid clists 0 c).mpr fun i _ => ⟨pid, hpid (0 + i)⟩
      split
      · rename_i e c' hrec
        rw [hrec] at hok
        cases hok
      · exact fun h => absurd ⟨clists, rfl⟩ h

omit [DecidableEq κ] [Task τ] in
theorem enough_iff (hpid : ∀ i, env.getpid i = .ok pid) {lists : List (Entry κ τ)} :
    Enough env pool lists ↔ ∃ n, Asked env pool lists n :=
  exists_congr fun _ => and_iff_left fun i _ => ⟨pid, hpid i⟩

/-- **A section succeeds** exactly when enough lists are on offer. -/
theorem isOk_isolateSection_iff (hk : c.Known) (hsel : args.selectedSocket = none)
    (hpid : ∀ i, env.getpid i = .ok pid) : IsOk (isolateSection args env c).1 ↔
      ∃ n, Asked env args.poolName (c.usable args.poolName) n := by
  rw [← enough_iff hpid]
  exact ⟨fun ⟨_, h⟩ => ((isolateSection_eq_ok hk hsel).mp h).1,
    fun h => ⟨_, (isolateSection_eq_ok hk hsel).mpr ⟨h, rfl⟩⟩⟩

omit [DecidableEq κ] [Task τ] in
/-- From an exclusive pool as many are asked for as the environment says. -/
theorem exists_asked_of_exclusive (hkind : exclusivity pool = some true) :
    (∃ n, Asked env pool (c.usable pool) n) ↔
      ∃ n : ℤ, env.nCpus = .ok n ∧ 1 ≤ n ∧ n ≤ (c.freeIn pool).length := by
  simp only [Asked, IsolateEnv.needed, if_pos hkind, usable_of_exclusive hkind]
  constructor
  · rintro ⟨n, hn, hpos, hle⟩
    exact ⟨n, hn, by omega, by omega⟩
  · rintro ⟨n, hn, hpos, hle⟩
    lift n to ℕ using by omega
    exact ⟨n, hn, by omega, by omega⟩

omit [DecidableEq κ] [Task τ] in
/-- From a shared pool it is one. -/
theorem exists_asked_of_shared (hkind : exclusivity pool = some false) :
    (∃ n, Asked env pool (c.usable pool) n) ↔ c.listsIn pool ≠ [] := by
  have hnot : exclusivity pool ≠ some true := by simp [hkind]
  simp only [Asked, IsolateEnv.needed, if_neg hnot, usable_of_shared hkind]
  rw [← List.length_pos_iff]
  constructor
  · rintro ⟨n, -, hpos, hle⟩
    exact hpos.trans_le hle
  · exact fun hpos => ⟨1, rfl, one_pos, hpos⟩

/-- **A section that succeeds** has taken what it picks from the lists on offer. -/
theorem allocates_picked (hk : c.Known) (hu : UniqueNames c.entries)
    (hsel : args.selectedSocket = none) (hpid : ∀ i, env.getpid i = .ok pid)
    (h : IsOk (isolateSection args env c).1) :
    Allocates args env c (taskOf τ pid) (picked env args.poolName (c.usable args.poolName)) := by
  obtain ⟨clists, hok⟩ := h
  obtain ⟨-, rfl⟩ := (isolateSection_eq_ok hk hsel).mp hok
  have hsame : ∀ k q, env.getpid k = .ok q → q = pid := fun k q hq =>
    Except.ok.inj (hq.symm.trans (hpid k))
  obtain ⟨done, -, hdone, hrec, -⟩ := isolateSection_spec hsame hk hu Prod.mk.eta.symm
  obtain rfl := hdone _ hok
  refine Prod.ext hok (hrec.trans (rewrite_appendAt_eq_recordOn hu (fun e he => ?_) _))
  have hmem := List.mem_filter.mp ((picked_sublist _).subset he)
  exact ⟨hmem.1, (of_decide_eq_true hmem.2).1⟩

end Allocation

/-- **Allocation is exact and failure leaves no trace**, for every configuration with unique names
and without a socket to keep to. -/
theorem allocation_exact {κ τ : Type} [DecidableEq κ] [Task τ] (d : ConfDict κ τ) (c : Conf κ τ)
    (args : IsolateArgs) (env : IsolateEnv) (pid : ℤ) (hbuild : buildConfig d = .ok c)
    (hu : UniqueNames c.entries) (hsel : args.selectedSocket = none)
    (hpid : ∀ i, env.getpid i = .ok pid) : ExactAllocation args env d c (taskOf τ pid) := by
  have hk : c.Known := .of_buildConfig hbuild
  have hiff := isOk_isolateSection_iff hk hsel hpid
  have hallocates := allocates_picked hk hu hsel hpid
  refine ⟨fun p hp hex => ?_, fun p hp hex => ?_, fun hno => ?_, fun hfail => ?_⟩
  · have hkind : exclusivity args.poolName = some true := hex ▸ exclusivity_of_getPool hk hp
    rw [exists_asked_of_exclusive hkind] at hiff
    refine ⟨hiff, fun h => ?_⟩
    obtain ⟨n, hn, hpos, -⟩ := hiff.mp h
    lift n to ℕ using by omega
    have htake := hallocates h
    rw [picked, if_pos hkind, usable_of_exclusive hkind, hn] at htake
    exact ⟨n, hn, htake⟩
  · have hkind : exclusivity args.poolName = some false := hex ▸ exclusivity_of_getPool hk hp
    have hnot : exclusivity args.poolName ≠ some true := by simp [hkind]
    rw [exists_asked_of_shared hkind] at hiff
    refine ⟨hiff, fun h => ?_⟩
    have hlt : env.choice % (c.listsIn args.poolName).length < (c.listsIn args.poolName).length :=
      Nat.mod_lt _ (List.length_pos_iff.mpr (hiff.mp h))
    have hone := hallocates h
    rw [picked, if_neg hnot, usable_of_shared hkind, List.getElem?_eq_getElem hlt] at hone
    exact ⟨_, List.getElem_mem hlt, hone⟩
  · rintro ⟨clists, h⟩
    refine hno ?_
    rw [isolateSection] at h
    split at h
    · cases h
    · rename_i p hp
      exact ⟨p, by rw [Conf.getPool, hp]⟩
  · rw [snd_isolateSection_of_error hpid hfail]
    exact buildConfigmap_of_buildConfig hbuild

/-- A configmap with two exclusive CPU lists, one of them taken. -/
def oneFree : ConfDict String String :=
  .ofList _ [("exclusive", .ofList _ [(.int 0, .ofList _ [("0", ["5"]), ("1", [])])])]

theorem allocation_exact_oneFree : ∃ c, buildConfig oneFree = .ok c ∧
    ExactAllocation ⟨"exclusive", none⟩ oneList oneFree c (taskOf String 7) := by
  refine ⟨⟨oneFree.map buildPool name_buildPool⟩, rfl, ?_⟩
  exact allocation_exact _ _ _ _ 7 rfl (by decide) rfl fun _ => rfl

end Cmk
