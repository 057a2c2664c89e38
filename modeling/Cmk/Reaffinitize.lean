import Cmk.Machinery.CpuList
import Cmk.Machinery.Walk
import Cmk.Reconfigure.Procs

/-!
# Reaffinitize — moving the processes of a container to their new CPUs

`reaffinitizeCores` goes from the first process to its first child, again and again, and gives every
process it passes the new CPUs of a pid whose old ones it has.  The table of pids is searched on the
affinity a process has when it is passed, which is its original one; a list with a range in it ends
the walk.  A process that is not on the way is never looked at.  So the whole tree is moved exactly
when no search comes to a list that cannot be read, and the others have nowhere to go
(`reaffinitizeCores_reaches_iff`).
-/

open Machinery

namespace Cmk

/-- The affinity of every process, and the processes whose affinity has been set, in order. -/
structure Os where
  affinity : ℕ → List ℤ
  set : List ℕ

def Os.cpuAffinity (os : Os) (process : ℕ) (cpus : List ℤ) : Os :=
  ⟨Function.update os.affinity process cpus, os.set ++ [process]⟩

/-- `[int(c) for c in s.split(",")]`. -/
def readCpus (s : String) : Except PyErr (List ℤ) := (splitText ',' s).mapM intOfStr

variable {τ : Type}

/-- The new affinity of a process: that of the first pid that had its CPUs. -/
def newAffin (affin : List ℤ) : List (τ × Pid) → Except PyErr (Option (List ℤ))
  | [] => .ok none
  | row :: rows => do
    let correctClist ← readCpus (joinText ',' row.2.oldClists)
    if correctClist.toFinset = affin.toFinset then
      let new ← readCpus row.2.newClist
      return some new
    else newAffin affin rows

/-- A round of the loop, without the step to the child. -/
def reaffinitizeProcess (procs : Procs τ) (process : ℕ) (os : Os) : Except PyErr Os := do
  match ← newAffin (os.affinity process) procs.rows with
  | some cpus => return os.cpuAffinity process cpus
  | none => return os

/-- `reaffinitize_cores`, on the tree below PID 1. -/
def reaffinitizeCores (procs : Procs τ) : RoseTree ℕ → Os → Except PyErr Unit × Os
  | .node process [], os =>
    match reaffinitizeProcess procs process os with
    | .error e => (.error e, os)
    | .ok os => (.ok (), os)
  | .node process (child :: _), os =>
    match reaffinitizeProcess procs process os with
    | .error e => (.error e, os)
    | .ok os => reaffinitizeCores procs child os

/-! ## What is asked for -/

/-- The CPUs of a piece of a CPU list: an integer, or a range. -/
def pieceCpus (piece : String) : List ℤ :=
  match intOfText? piece with
  | some cpu => [cpu]
  | none => ((cpuItem? piece).elim [] CpuItem.cpus).map Int.ofNat

/-- **The CPUs that a list names**, whether the walk can read it or not. -/
def clistCpus (clist : String) : List ℤ := (splitText ',' clist).flatMap pieceCpus

example : clistCpus "0-2,8" = [0, 1, 2, 8] := by decide

namespace Pid

/-- The union of the old lists. -/
def oldCpus (p : Pid) : Finset ℤ := (p.oldClists.flatMap clistCpus).toFinset

def newCpus (p : Pid) : Finset ℤ := (clistCpus p.newClist).toFinset

/-- There are old lists, all of them of integers. -/
def OldReadable (p : Pid) : Prop :=
  p.oldClists ≠ [] ∧ ∀ clist ∈ p.oldClists, IsOk (readCpus clist)

/-- The new list is one of integers. -/
def NewReadable (p : Pid) : Prop := IsOk (readCpus p.newClist)

end Pid

/-- **The search for the CPUs of a process** reads every list it comes to: the old lists up to
those of the first pid that had the CPUs, and the new list of that one. -/
def Legible (affin : List ℤ) : List (τ × Pid) → Prop
  | [] => True
  | row :: rows => row.2.OldReadable ∧
      if row.2.oldCpus = affin.toFinset then row.2.NewReadable else Legible affin rows

/-- The affinity a process should have after the one it had. -/
structure Aligned (procs : Procs τ) (affin affin' : List ℤ) : Prop where
  moved : ∀ row ∈ procs.rows, row.2.oldCpus = affin.toFinset → affin'.toFinset = row.2.newCpus
  kept : (∀ row ∈ procs.rows, row.2.oldCpus ≠ affin.toFinset) → affin' = affin

/-- Every process of the tree has been moved to where it should be, none more than once. -/
structure Reached (procs : Procs τ) (t : RoseTree ℕ) (os os' : Os) : Prop where
  aligned : ∀ process ∈ t.nodes, Aligned procs (os.affinity process) (os'.affinity process)
  once : ∀ process ∈ t.nodes, os'.set.count process ≤ os.set.count process + 1

/-! ## Reading -/

/-- What is read are the integers of the text. -/
theorem readCpus_ok {s : String} {cpus : List ℤ} (h : readCpus s = .ok cpus) : cpusOf s = cpus := by
  have hall := mapM_eq_ok.mp h
  clear h
  rw [cpusOf]
  generalize splitText ',' s = pieces at hall
  induction hall with
  | nil => rfl
  | @cons piece cpu pieces cpus hpiece _ ih =>
    have hint : intOfText? piece = some cpu := intOfStr_eq_ok_iff.mp hpiece
    rw [List.filterMap_cons_some hint, ih]

/-- **What is read are the CPUs** that the list names. -/
theorem clistCpus_ok {s : String} {cpus : List ℤ} (h : readCpus s = .ok cpus) :
    clistCpus s = cpus := by
  have hall := mapM_eq_ok.mp h
  clear h
  rw [clistCpus]
  generalize splitText ',' s = pieces at hall
  induction hall with
  | nil => rfl
  | @cons piece cpu pieces cpus hpiece _ ih =>
    have hint : pieceCpus piece = [cpu] := by
      rw [pieceCpus, intOfStr_eq_ok_iff.mp hpiece]
    rw [List.flatMap_cons, hint, ih, List.singleton_append]

/-- **Lists glued can be read** exactly when there are some and each can. -/
theorem isOk_readCpus_joinText {clists : List String} :
    IsOk (readCpus (joinText ',' clists)) ↔
      clists ≠ [] ∧ ∀ clist ∈ clists, IsOk (readCpus clist) := by
  by_cases hne : clists = []
  · subst hne
    refine iff_of_false ?_ fun h => h.1 rfl
    rintro ⟨cpus, hcpus⟩
    cases hcpus
  · rw [and_iff_right hne]
    simp only [readCpus, isOk_mapM, splitText_joinText_flatMap ',' hne, List.mem_flatMap]
    constructor
    · exact fun h clist hclist piece hpiece => h piece ⟨clist, hclist, hpiece⟩
    · rintro h piece ⟨clist, hclist, hpiece⟩
      exact h clist hclist piece hpiece

/-- **The lists glued are read as their union.** -/
theorem Pid.OldReadable.join {p : Pid} (h : p.OldReadable) :
    ∃ cpus, readCpus (joinText ',' p.oldClists) = .ok cpus ∧ p.oldCpus = cpus.toFinset := by
  obtain ⟨cpus, hcpus⟩ := isOk_readCpus_joinText.mpr h
  refine ⟨cpus, hcpus, ?_⟩
  rw [← clistCpus_ok hcpus, Pid.oldCpus, clistCpus, splitText_joinText_flatMap ',' h.1,
    List.flatMap_assoc]
  rfl

/-- The first pid that had the CPUs of a process. -/
def pidOf? (affin : List ℤ) (rows : List (τ × Pid)) : Option Pid :=
  (rows.find? fun row => row.2.oldCpus = affin.toFinset).map Prod.snd

/-- What a round of the search does with a pid whose old lists it has read. -/
theorem newAffin_cons {row : τ × Pid} (h : row.2.OldReadable) (affin : List ℤ)
    (rows : List (τ × Pid)) : newAffin affin (row :: rows) =
      if row.2.oldCpus = affin.toFinset then readCpus row.2.newClist >>= fun new => .ok (some new)
      else newAffin affin rows := by
  obtain ⟨old, hold, hcpus⟩ := h.join
  rw [newAffin, hold, hcpus]
  rfl

/-- **The search returns exactly when it can read** what it comes to. -/
theorem isOk_newAffin {affin : List ℤ} {rows : List (τ × Pid)} :
    IsOk (newAffin affin rows) ↔ Legible affin rows := by
  induction rows with
  | nil => exact iff_of_true ⟨none, rfl⟩ trivial
  | cons row rows ih =>
    rw [Legible]
    by_cases hrow : row.2.OldReadable
    · rw [and_iff_right hrow, newAffin_cons hrow, ← ih, Pid.NewReadable]
      split_ifs
      · rw [isOk_bind]
        exact exists_congr fun new => and_iff_left ⟨some new, rfl⟩
      · rfl
    · refine iff_of_false ?_ fun h => hrow h.1
      rw [newAffin, isOk_bind]
      rintro ⟨old, hold, -⟩
      exact hrow (isOk_readCpus_joinText.mp ⟨old, hold⟩)

/-- **What the search returns** are the new CPUs of the first pid. -/
theorem newAffin_eq {affin : List ℤ} {rows : List (τ × Pid)} (h : Legible affin rows) :
    newAffin affin rows = .ok ((pidOf? affin rows).map fun p => clistCpus p.newClist) := by
  induction rows with
  | nil => rfl
  | cons row rows ih =>
    obtain ⟨hrow, hrest⟩ := h
    rw [newAffin_cons hrow, pidOf?]
    split_ifs at hrest ⊢ with heq
    · obtain ⟨new, hnew⟩ := hrest
      rw [hnew, List.find?_cons_of_pos (by simpa using heq), Option.map_some, Option.map_some,
        clistCpus_ok hnew]
      rfl
    · rw [ih hrest, List.find?_cons_of_neg (by simpa using heq), pidOf?]

/-! ## A round -/

/-- What a process passed gets. -/
def realign (procs : Procs τ) (affin : List ℤ) : List ℤ :=
  ((pidOf? affin procs.rows).map fun p => clistCpus p.newClist).getD affin

/-- The system after a round. -/
def Os.round (procs : Procs τ) (process : ℕ) (os : Os) : Os :=
  ((pidOf? (os.affinity process) procs.rows).map fun p => clistCpus p.newClist).elim os
    (os.cpuAffinity process)

variable {procs : Procs τ} {process : ℕ} {os os' : Os}

/-- **A round returns exactly when the search does.** -/
theorem reaffinitizeProcess_eq_ok : reaffinitizeProcess procs process os = .ok os' ↔
    Legible (os.affinity process) procs.rows ∧ os' = os.round procs process := by
  rw [reaffinitizeProcess, bind_eq_ok, Os.round]
  constructor
  · rintro ⟨found, hfound, hos'⟩
    have hlegible := isOk_newAffin.mp ⟨found, hfound⟩
    obtain rfl := Except.ok.inj ((newAffin_eq hlegible).symm.trans hfound)
    refine ⟨hlegible, ?_⟩
    cases hpid : pidOf? (os.affinity process) procs.rows <;> rw [hpid] at hos'
    · exact (Except.ok.inj hos').symm
    · exact (Except.ok.inj hos').symm
  · rintro ⟨hlegible, rfl⟩
    refine ⟨_, newAffin_eq hlegible, ?_⟩
    cases pidOf? (os.affinity process) procs.rows <;> rfl

/-- **A round rewrites the affinity of one process**, and sets it at most once. -/
theorem round_spec (procs : Procs τ) (process : ℕ) (os : Os) :
    (os.round procs process).affinity = rewriteAt (realign procs) os.affinity process ∧
      ((os.round procs process).set = os.set ∨
        (os.round procs process).set = os.set ++ [process]) := by
  unfold Os.round rewriteAt realign
  cases pidOf? (os.affinity process) procs.rows with
  | none => exact ⟨(Function.update_eq_self _ _).symm, .inl rfl⟩
  | some p => exact ⟨rfl, .inr rfl⟩

/-! ## The walk -/

theorem reaffinitizeCores_leaf_eq_ok {a : ℕ} :
    reaffinitizeCores procs (.node a []) os = (.ok (), os') ↔
      Legible (os.affinity a) procs.rows ∧ os' = os.round procs a := by
  rw [← reaffinitizeProcess_eq_ok, reaffinitizeCores]
  cases hround : reaffinitizeProcess procs a os <;> simp

theorem reaffinitizeCores_node_eq_ok {a : ℕ} {child : RoseTree ℕ} {rest : List (RoseTree ℕ)} :
    reaffinitizeCores procs (.node a (child :: rest)) os = (.ok (), os') ↔
      Legible (os.affinity a) procs.rows ∧
        reaffinitizeCores procs child (os.round procs a) = (.ok (), os') := by
  rw [reaffinitizeCores]
  cases hround : reaffinitizeProcess procs a os with
  | error e =>
    have hno : ¬ Legible (os.affinity a) procs.rows := fun h => by
      cases hround.symm.trans (reaffinitizeProcess_eq_ok.mpr ⟨h, rfl⟩)
    simp [hno]
  | ok os₁ =>
    obtain ⟨hlegible, rfl⟩ := reaffinitizeProcess_eq_ok.mp hround
    simp [hlegible]

/-- **The walk rewrites the affinities on its way**, and sets no other. -/
theorem reaffinitizeCores_ok {t : RoseTree ℕ} (h : reaffinitizeCores procs t os = (.ok (), os')) :
    os'.affinity = sweep (realign procs) os.affinity t.spine ∧
      ∀ process, os'.set.count process ≤ os.set.count process + t.spine.count process := by
  fun_induction RoseTree.spine t generalizing os with
  | case1 a =>
    obtain ⟨-, rfl⟩ := reaffinitizeCores_leaf_eq_ok.mp h
    obtain ⟨haff, hset⟩ := round_spec procs a os
    refine ⟨haff, fun process => ?_⟩
    rcases hset with hset | hset <;> simp [hset]
  | case2 a child rest ih =>
    obtain ⟨-, hwalk⟩ := reaffinitizeCores_node_eq_ok.mp h
    obtain ⟨haff, hset⟩ := round_spec procs a os
    obtain ⟨haff', hset'⟩ := ih hwalk
    refine ⟨?_, fun process => ?_⟩
    · rw [haff', haff]
      rfl
    · have hle := hset' process
      rw [List.count_cons]
      rcases hset with hset | hset <;> rw [hset] at hle
      · omega
      · rw [List.count_append, List.count_singleton] at hle
        omega

/-- **The walk returns exactly when every search on it does**; each is for the CPUs that a process
had at the start. -/
theorem isOk_reaffinitizeCores {t : RoseTree ℕ} (ht : t.spine.Nodup) :
    (∃ os', reaffinitizeCores procs t os = (.ok (), os')) ↔
      ∀ process ∈ t.spine, Legible (os.affinity process) procs.rows := by
  fun_induction RoseTree.spine t generalizing os with
  | case1 a =>
    simp only [reaffinitizeCores_leaf_eq_ok, List.forall_mem_singleton]
    refine ⟨?_, fun h => ⟨_, h, rfl⟩⟩
    rintro ⟨_, h, -⟩
    exact h
  | case2 a child rest ih =>
    obtain ⟨ha, ht⟩ := List.nodup_cons.mp ht
    have hkept : ∀ process ∈ child.spine,
        (os.round procs a).affinity process = os.affinity process := by
      intro process hmem
      have hne : process ≠ a := fun heq => ha (heq ▸ hmem)
      rw [(round_spec procs a os).1, rewriteAt, Function.update_of_ne hne]
    simp only [reaffinitizeCores_node_eq_ok, exists_and_left, ih ht, List.forall_mem_cons]
    refine and_congr_right fun _ => forall₂_congr fun process hmem => ?_
    rw [hkept process hmem]

/-! ## The whole tree -/

/-- A process passed gets what it should. -/
theorem aligned_realign
    (hsame : ∀ row ∈ procs.rows, ∀ row' ∈ procs.rows, row.2.oldCpus = row'.2.oldCpus →
      row.2.newCpus = row'.2.newCpus) (affin : List ℤ) :
    Aligned procs affin (realign procs affin) := by
  unfold realign pidOf?
  cases hfind : procs.rows.find? fun row => row.2.oldCpus = affin.toFinset with
  | none =>
    have hnone : ∀ row ∈ procs.rows, row.2.oldCpus ≠ affin.toFinset := by
      simpa using List.find?_eq_none.mp hfind
    exact ⟨fun row hrow heq => absurd heq (hnone row hrow), fun _ => rfl⟩
  | some found =>
    have hmem := List.mem_of_find?_eq_some hfind
    have hold : found.2.oldCpus = affin.toFinset := by simpa using List.find?_some hfind
    exact ⟨fun row hrow heq => hsame found hmem row hrow (hold.trans heq.symm),
      fun hnone => absurd hold (hnone found hmem)⟩

/-- A process left alone is where it should be when its pid has not moved. -/
theorem aligned_self {affin : List ℤ} : Aligned procs affin affin ↔
    ∀ row ∈ procs.rows, row.2.oldCpus = affin.toFinset → row.2.newCpus = affin.toFinset :=
  ⟨fun h row hrow heq => (h.moved row hrow heq).symm,
    fun h => ⟨fun row hrow heq => (h row hrow heq).symm, fun _ => rfl⟩⟩

/-- **The whole tree is moved exactly when** every search on the way of first children reads all it
comes to, and every process that is not on the way, and has the old CPUs of a pid, has that pid's
new CPUs already. -/
theorem reaffinitizeCores_reaches_iff (procs : Procs τ)
    (hsame : ∀ row ∈ procs.rows, ∀ row' ∈ procs.rows, row.2.oldCpus = row'.2.oldCpus →
      row.2.newCpus = row'.2.newCpus)
    (t : RoseTree ℕ) (ht : t.nodes.Nodup) (os os' : Os) (r : Except PyErr Unit)
    (h : reaffinitizeCores procs t os = (r, os')) :
    (r = .ok () ∧ Reached procs t os os') ↔
      (∀ process ∈ t.spine, Legible (os.affinity process) procs.rows) ∧
      ∀ process ∈ t.nodes, process ∉ t.spine → ∀ row ∈ procs.rows,
        row.2.oldCpus = (os.affinity process).toFinset →
          row.2.newCpus = (os.affinity process).toFinset := by
  have hspine := ht.sublist t.spine_sublist
  have hok : r = .ok () ↔ ∀ process ∈ t.spine, Legible (os.affinity process) procs.rows := by
    rw [← isOk_reaffinitizeCores hspine, h]
    exact ⟨fun hr => ⟨os', by rw [hr]⟩, fun ⟨_, heq⟩ => (Prod.mk.inj heq).1⟩
  rw [hok]
  refine and_congr_right fun hlegible => ?_
  obtain rfl := hok.mpr hlegible
  obtain ⟨haff, hset⟩ := reaffinitizeCores_ok h
  have honce : ∀ process ∈ t.nodes, os'.set.count process ≤ os.set.count process + 1 := by
    intro process _
    have hcount := List.nodup_iff_count_le_one.mp hspine process
    have hle := hset process
    omega
  have haligned := sweep_spine_iff (s := os.affinity) (aligned_realign hsame) ht
  rw [← haff] at haligned
  constructor
  · intro hreached process hp hoff
    exact aligned_self.mp (haligned.mp hreached.aligned process hp hoff)
  · intro hoff
    exact ⟨haligned.mpr fun process hp hp' => aligned_self.mpr (hoff process hp hp'), honce⟩

/-- One pid, moved from CPU 1 to CPU 2. -/
def movedPid : Procs String := .ofList _ [("7", ⟨["1"], "2"⟩)]

/-- The main process may run anywhere, the others where the pid was. -/
def pinnedOs : Os := ⟨fun process => if process = 1 then [0, 1, 2] else [1], []⟩

theorem legible_movedPid (affin : List ℤ) : Legible affin movedPid.rows := by
  have hold : (⟨["1"], "2"⟩ : Pid).OldReadable :=
    ⟨by decide, List.forall_mem_singleton.mpr ⟨[1], rfl⟩⟩
  refine ⟨hold, ?_⟩
  split_ifs
  · exact ⟨[2], rfl⟩
  · trivial

/-- A main process with one child. -/
theorem reaffinitizeCores_reaches_onlyChild : ∃ os',
    reaffinitizeCores movedPid (.node 1 [.node 10 []]) pinnedOs = (.ok (), os') ∧
      Reached movedPid (.node 1 [.node 10 []]) pinnedOs os' :=
  ⟨_, rfl, ((reaffinitizeCores_reaches_iff movedPid (by decide)
    (.node 1 [.node 10 []]) (by decide) pinnedOs _ _ rfl).mpr
      ⟨fun _ _ => legible_movedPid _, by decide⟩).2⟩

/-- The list of a pid in the table, with a range. -/
def rangePid : Procs String := .ofList _ [("9", ⟨["0-2,8-10"], "3"⟩), ("7", ⟨["1"], "2"⟩)]

/-- With a second child, that one stays on the CPU the pid has left; with a range before it in the
table, no process is moved. -/
theorem reaffinitizeCores_misses_sibling :
    (∃ os', reaffinitizeCores movedPid (.node 1 [.node 10 [], .node 11 []]) pinnedOs =
        (.ok (), os') ∧
      (∀ row ∈ movedPid.rows, ∀ row' ∈ movedPid.rows, row.2.oldCpus = row'.2.oldCpus →
        row.2.newCpus = row'.2.newCpus) ∧
      ¬ Reached movedPid (.node 1 [.node 10 [], .node 11 []]) pinnedOs os') ∧
    ∃ e, reaffinitizeCores rangePid (.node 1 [.node 10 []]) pinnedOs = (.error e, pinnedOs) ∧
      (∀ row ∈ rangePid.rows, ∀ row' ∈ rangePid.rows, row.2.oldCpus = row'.2.oldCpus →
        row.2.newCpus = row'.2.newCpus) ∧
      ¬ Reached rangePid (.node 1 [.node 10 []]) pinnedOs pinnedOs := by
  refine ⟨⟨_, rfl, by decide, fun h => ?_⟩, _, rfl, by decide, fun h => ?_⟩
  · have hmoved := (h.aligned 11 (by decide)).moved _ (List.mem_singleton_self _) (by decide)
    exact absurd hmoved (by decide)
  · have hmoved := (h.aligned 10 (by decide)).moved ("7", ⟨["1"], "2"⟩) (by decide) (by decide)
    exact absurd hmoved (by decide)

end Cmk
