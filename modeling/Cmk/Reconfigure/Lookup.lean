import Cmk.Init.Partition
import Cmk.Reaffinitize
import Cmk.Reconfigure.Keeps

/-!
# Reconfigure/Lookup — the CPUs a process has say where it goes

`reaffinitize_cores` knows a process by its CPUs only and stops at the first pid that had
them.  Where the old CPU lists are disjoint, the union of the lists of a pid says which lists they
are (`tasks_of_oldCpus_eq`); the pids in the same lists move together, so they get the same new
CPUs.  But a list with a range in it ends the search, so which pid comes first matters as soon as
the lists of one can be read and those of another cannot (`matching_unambiguous_iff`).
-/

open Machinery Machinery.Seating

namespace Cmk

variable {τ : Type}

/-- Every CPU list has CPUs, and none of them is in another list. -/
structure Conf.ApartLists (c : Conf String τ) : Prop where
  nonempty : ∀ e ∈ c.entries, clistCpus e.coreId ≠ []
  disjoint : ∀ e ∈ c.entries, ∀ e' ∈ c.entries, e.loc ≠ e'.loc →
    ∀ z ∈ clistCpus e.coreId, z ∉ clistCpus e'.coreId

/-- The CPU lists are disjoint and written without ranges, as `init` writes them. -/
structure Conf.CpuLists (c : Conf String τ) : Prop where
  readable : ∀ e ∈ c.entries, IsOk (readCpus e.coreId)
  disjoint : ∀ e ∈ c.entries, ∀ e' ∈ c.entries, e.loc ≠ e'.loc → CpuDisjoint e.coreId e'.coreId

/-- Pids with the same old CPUs have the same new ones. -/
def Procs.Unambiguous (procs : Procs τ) : Prop :=
  ∀ row ∈ procs.rows, ∀ row' ∈ procs.rows, row.2.oldCpus = row'.2.oldCpus →
    row.2.newCpus = row'.2.newCpus

/-- The same processes have been given CPUs, and every process has the same. -/
structure Os.Same (os os' : Os) : Prop where
  set : os.set = os'.set
  affinity : ∀ process, (os.affinity process).toFinset = (os'.affinity process).toFinset

theorem Os.Same.symm {os os' : Os} (h : os.Same os') : os'.Same os :=
  ⟨h.set.symm, fun process => (h.affinity process).symm⟩

theorem Os.Same.trans {os os' os'' : Os} (h : os.Same os') (h' : os'.Same os'') : os.Same os'' :=
  ⟨h.set.trans h'.set, fun process => (h.affinity process).trans (h'.affinity process)⟩

/-- Two tables give the processes of every tree the same CPUs. -/
def SameMoves (procs procs' : Procs τ) : Prop :=
  ∀ (t : RoseTree ℕ) (os : Os),
    (reaffinitizeCores procs t os).2.Same (reaffinitizeCores procs' t os).2

/-- The lists that a pid is in can be read. -/
def Conf.ReadablePid (c : Conf String τ) (pid : τ) : Prop :=
  ∀ e ∈ c.entries, pid ∈ e.tasks → IsOk (readCpus e.coreId)

/-! ## Texts of CPUs -/

theorem isOk_readCpus_append (s t : String) :
    IsOk (readCpus (s ++ "," ++ t)) ↔ IsOk (readCpus s) ∧ IsOk (readCpus t) := by
  have hsplit : splitText ',' (s ++ "," ++ t) = splitText ',' s ++ splitText ',' t := by
    simpa using splitText_append ',' s t
  simp only [readCpus, isOk_mapM, hsplit, List.forall_mem_append]

theorem exists_mem_cpusOf {s : String} (h : IsOk (readCpus s)) : ∃ z, z ∈ cpusOf s := by
  obtain ⟨cpus, hcpus⟩ := h
  rw [readCpus_ok hcpus]
  refine List.exists_mem_of_ne_nil _ fun hnil => ?_
  obtain ⟨piece, pieces, hsplit⟩ : ∃ piece pieces, splitText ',' s = piece :: pieces := by
    obtain ⟨piece, pieces, h⟩ := List.exists_cons_of_ne_nil (List.splitOn_ne_nil ',' s.toList)
    exact ⟨_, _, by rw [splitText, h, List.map_cons]⟩
  have hlen := (mapM_eq_ok.mp hcpus).length_eq
  rw [hsplit, hnil] at hlen
  simp at hlen

/-- What has been recorded as new names the CPUs that are read. -/
theorem clistCpus_eq_cpusOf {s : String} (h : s = "" ∨ IsOk (readCpus s)) :
    clistCpus s = cpusOf s := by
  rcases h with rfl | ⟨cpus, hcpus⟩
  · decide
  · rw [clistCpus_ok hcpus, readCpus_ok hcpus]

/-! ## The table of pids -/

variable [DecidableEq τ]

/-- The old lists of a table are these, whatever new ones have been recorded as lists of CPUs. -/
def Procs.Extends (procs procs' : Procs τ) : Prop :=
  ∀ row ∈ procs'.rows, (row.2.newClist = "" ∨ IsOk (readCpus row.2.newClist)) ∧
    ∃ p, (row.1, p) ∈ procs.rows ∧ row.2.oldClists = p.oldClists

omit [DecidableEq τ] in
theorem Pid.readable_addNewClist {p : Pid} (hp : p.newClist = "" ∨ IsOk (readCpus p.newClist))
    {clist : String} (h : IsOk (readCpus clist)) :
    IsOk (readCpus (p.addNewClist clist).newClist) := by
  unfold Pid.addNewClist
  split
  · exact h
  · exact (isOk_readCpus_append _ _).mpr ⟨hp.resolve_left ‹_›, h⟩

theorem Procs.Extends.addNewClist {procs₀ : Procs τ} {clist : String}
    (hread : IsOk (readCpus clist)) {pids : List τ} {procs procs' : Procs τ}
    (h : procs₀.Extends procs) (hadd : procs.addNewClist clist pids = .ok procs') :
    procs₀.Extends procs' := by
  induction pids generalizing procs with
  | nil => exact Except.ok.inj hadd ▸ h
  | cons pid pids ih =>
    rw [Procs.addNewClist] at hadd
    split at hadd
    · rename_i row hrow
      obtain ⟨hmem, rfl⟩ := Table.get?_eq_some.mp hrow
      refine ih (fun row' hrow' => ?_) hadd
      rcases Table.mem_rows_insert.mp hrow' with ⟨hold, -⟩ | rfl
      · exact h row' hold
      · obtain ⟨hnew, hsame⟩ := h row hmem
        exact ⟨.inr (Pid.readable_addNewClist hnew hread), hsame⟩
    · cases hadd

/-- The old lists recorded for a pid. -/
def Procs.oldClistsOf (procs : Procs τ) (pid : τ) : List String :=
  ((procs.get? pid).map fun row => row.2.oldClists).getD []

theorem oldClistsOf_row {procs : Procs τ} {row : τ × Pid} (h : row ∈ procs.rows) :
    procs.oldClistsOf row.1 = row.2.oldClists := by
  rw [Procs.oldClistsOf, Table.get?_key h]
  rfl

theorem oldClistsOf_addProc (procs : Procs τ) (x : τ × String) (pid : τ) :
    (procs.addProc x.1 x.2).oldClistsOf pid =
      procs.oldClistsOf pid ++ if x.1 = pid then [x.2] else [] := by
  have hadd : procs.addProc x.1 x.2 = procs.insert
      (x.1, (((procs.get? x.1).map Prod.snd).getD Pid.new).addOldClist x.2) := by
    unfold Procs.addProc
    split
    · rename_i hget
      rw [hget, Option.map_some, Option.getD_some]
    · rename_i hget
      rw [hget, Option.map_none, Option.getD_none]
  rw [Procs.oldClistsOf, hadd, Table.get?_insert, Procs.oldClistsOf]
  by_cases hpid : x.1 = pid
  · subst hpid
    cases procs.get? x.1 <;> simp [Pid.addOldClist, Pid.new]
  · simp [hpid, Ne.symm hpid]

/-- **The old lists of a pid** are those it is in. -/
theorem mem_oldClists_procsOf (infos : List (ProcessInfo τ)) {row : τ × Pid}
    (h : row ∈ (procsOf infos).rows) (clist : String) :
    clist ∈ row.2.oldClists ↔ ∃ info ∈ infos, row.1 ∈ info.pid ∧ info.oldClist = clist := by
  have hfold : ∀ (xs : List (τ × String)) (procs : Procs τ),
      clist ∈ (xs.foldl (fun procs x => procs.addProc x.1 x.2) procs).oldClistsOf row.1 ↔
        clist ∈ procs.oldClistsOf row.1 ∨ (row.1, clist) ∈ xs := by
    intro xs
    induction xs with
    | nil => simp
    | cons x xs ih =>
      intro procs
      rw [List.foldl_cons, ih, oldClistsOf_addProc, List.mem_append, List.mem_cons, or_assoc]
      refine or_congr_right (or_congr_left ?_)
      by_cases hx : x.1 = row.1
      · simp [hx, Prod.ext_iff]
      · simp [hx, Prod.ext_iff, Ne.symm hx]
  have hnone : clist ∉ Procs.oldClistsOf (.empty : Procs τ) row.1 := by
    simp [Procs.oldClistsOf, Table.get?, Table.empty]
  rw [← oldClistsOf_row h, procsOf, hfold, or_iff_right hnone]
  simp only [List.mem_flatMap, List.mem_map, Prod.mk.injEq]
  constructor
  · rintro ⟨info, hinfo, pid, hpid, rfl, rfl⟩
    exact ⟨info, hinfo, hpid, rfl⟩
  · rintro ⟨info, hinfo, hpid, rfl⟩
    exact ⟨info, hinfo, row.1, hpid, rfl, rfl⟩

/-! ## What the loops do to it -/

section Loops

variable {new : Conf String τ} {procs₀ : Procs τ} {st st' : Matching τ} {proc : ProcessInfo τ}

/-- The loops have touched neither the CPU lists nor the old lists of a pid. -/
structure Moving (new : Conf String τ) (procs₀ : Procs τ) (st : Matching τ) : Prop where
  seats : st.conf.seats = new.seats
  procs : procs₀.Extends st.procs

omit [DecidableEq τ] in
/-- The lists of a socket are lists of the new configuration. -/
theorem Moving.readable (h : Moving new procs₀ st) (hnew : new.CpuLists) {p : Pool String τ}
    {cls : List (CoreList String τ)} (hcls : st.clists proc = .ok (p, cls)) :
    ∀ cl ∈ cls, IsOk (readCpus cl.coreId) := by
  intro cl hcl
  obtain ⟨-, rfl⟩ := clists_ok hcls
  obtain ⟨e, he, rfl⟩ := List.mem_map.mp hcl
  have hloc : e.loc ∈ new.seats := h.seats ▸ List.mem_map_of_mem (List.mem_filter.mp he).1
  obtain ⟨x, hx, hloc⟩ := List.mem_map.mp hloc
  have hname : x.coreId = e.coreId := congrArg (·.2.2) hloc
  exact hname ▸ hnew.readable x hx

theorem Moving.give (h : Moving new procs₀ st) {socket : Scalar} {cl : String}
    (hcl : IsOk (readCpus cl)) (hgive : st.give proc socket cl = .ok st') :
    Moving new procs₀ st' := by
  refine ⟨(give_ok hgive).1.trans h.seats, ?_⟩
  obtain ⟨procs, hadd, hst⟩ := bind_eq_ok.mp hgive
  obtain rfl := pure_eq_ok.mp hst
  exact h.procs.addNewClist hcl hadd

theorem Moving.sameList (hnew : new.CpuLists) (h : Moving new procs₀ st)
    (hround : st.sameList proc = .ok st') : Moving new procs₀ st' := by
  obtain ⟨⟨p, cls⟩, hcls, hround⟩ := bind_eq_ok.mp hround
  dsimp only at hround
  split at hround
  · obtain ⟨moved, -, hround⟩ := bind_eq_ok.mp hround
    obtain rfl := pure_eq_ok.mp hround
    exact ⟨h.seats, h.procs⟩
  · split at hround
    · rename_i hmem
      obtain ⟨cl, hcl, hname⟩ := List.mem_map.mp hmem
      obtain ⟨found, -, hround⟩ := bind_eq_ok.mp hround
      split at hround
      · exact h.give (hname ▸ h.readable hnew hcls cl hcl) hround
      · cases hround
    · obtain rfl := pure_eq_ok.mp hround
      exact ⟨h.seats, h.procs⟩

theorem Moving.sameSocket (hnew : new.CpuLists) (h : Moving new procs₀ st)
    (hround : st.sameSocket proc = .ok st') : Moving new procs₀ st' := by
  obtain ⟨⟨p, cls⟩, hcls, hround⟩ := bind_eq_ok.mp hround
  dsimp only at hround
  split at hround
  · rename_i cl hfound
    exact h.give (h.readable hnew hcls cl (List.mem_of_find?_eq_some hfound)) hround
  · obtain rfl := pure_eq_ok.mp hround
    exact ⟨h.seats, h.procs⟩

omit [DecidableEq τ] in
/-- The third loop records nothing. -/
theorem Moving.otherSockets (h : Moving new procs₀ st) (hround : st.otherSockets proc = .ok st') :
    Moving new procs₀ st' := by
  induction proc using Matching.otherSockets.induct st with
  | case1 proc e he =>
    rw [Matching.otherSockets, he] at hround
    cases hround
  | case2 proc p cls hcls cl hcl hnil =>
    rw [Matching.otherSockets, hcls] at hround
    simp only [hcl, if_pos hnil] at hround
    obtain rfl := Except.ok.inj hround
    exact ⟨(Conf.locs_mapTasks _ _ _ _ _).trans h.seats, h.procs⟩
  | case3 proc p cls hcls cl hcl hne =>
    rw [Matching.otherSockets, hcls] at hround
    simp only [hcl, if_neg hne] at hround
    cases hround
  | case4 proc p cls hcls hcl e he =>
    rw [Matching.otherSockets, hcls] at hround
    simp only [hcl] at hround
    split at hround
    · cases hround
    · rename_i proc' hproc'
      rw [he] at hproc'
      cases hproc'
  | case5 proc p cls hcls hcl proc' hproc' ih =>
    rw [Matching.otherSockets, hcls] at hround
    simp only [hcl] at hround
    split at hround
    · cases hround
    · rename_i moved hmoved
      obtain rfl := Except.ok.inj (hproc'.symm.trans hmoved)
      exact ih hround

/-- **The whole of the loops.** -/
theorem extends_of_matching (hnew : new.CpuLists) {infos : List (ProcessInfo τ)}
    {new' : Conf String τ} {procs' : Procs τ}
    (h : matching new infos (procsOf infos) = .ok (new', procs')) :
    (procsOf infos).Extends procs' := by
  obtain ⟨st₁, h₁, h⟩ := bind_eq_ok.mp h
  obtain ⟨st₂, h₂, h⟩ := bind_eq_ok.mp h
  obtain ⟨st₃, h₃, h⟩ := bind_eq_ok.mp h
  obtain ⟨rfl, rfl⟩ := Prod.mk.inj (pure_eq_ok.mp h)
  have hstart : Moving new (procsOf infos) ⟨new, procsOf infos, [], []⟩ :=
    ⟨rfl, fun row hrow => ⟨.inl ((procsOf_spec infos).1 row hrow), row.2, hrow, rfl⟩⟩
  have hfirst := foldlM_invariant (fun _ _ _ hm hok => Moving.sameList hnew hm hok) hstart h₁
  have hsecond := foldlM_invariant (fun _ _ _ hm hok => Moving.sameSocket hnew hm hok) hfirst h₂
  exact (foldlM_invariant (fun _ _ _ hm hok => Moving.otherSockets hm hok) hsecond h₃).procs

end Loops

/-! ## Old lists and new ones -/

section Groups

variable {old new new' : Conf String τ} {infos : List (ProcessInfo τ)} {procs' : Procs τ}

omit [DecidableEq τ] in
theorem Conf.CpuLists.uniqueNames (h : new.CpuLists) : UniqueNames new.entries := by
  intro e he e' he' _ hname
  obtain ⟨z, hz⟩ := exists_mem_cpusOf (h.readable e he)
  by_contra hne
  exact h.disjoint e he e' he' (fun hloc => hne (congrArg (·.2.1) hloc)) z hz (hname ▸ hz)

/-- What the loops have made of the table, when they return. -/
structure Moved (old new new' : Conf String τ) (procs' : Procs τ) : Prop where
  lists : new'.seats = new.seats
  known : ∀ row ∈ procs'.rows, ∃ e ∈ old.entries, row.1 ∈ e.tasks
  held : ∀ e ∈ old.entries, ∀ pid ∈ e.tasks, pid ∈ procs'.keys
  oldClists : ∀ row ∈ procs'.rows, ∀ clist, clist ∈ row.2.oldClists ↔
    ∃ e ∈ old.entries, row.1 ∈ e.tasks ∧ e.coreId = clist
  newCpus : ∀ row ∈ procs'.rows, ∀ z, z ∈ row.2.newCpus ↔
    ∃ y ∈ new'.entries, row.1 ∈ y.tasks ∧ z ∈ cpusOf y.coreId
  readable : ∀ row ∈ procs'.rows, row.2.newClist = "" ∨ IsOk (readCpus row.2.newClist)
  groups : ∀ y ∈ new'.entries, y.tasks ≠ [] → ∃ e ∈ old.entries, e.tasks = y.tasks
  moved : ∀ e ∈ old.entries, e.tasks ≠ [] → ∃ y ∈ new'.entries, y.tasks = e.tasks

theorem moved_of_matching (hnew : new.CpuLists) (hempty : ∀ e ∈ new.entries, e.tasks = [])
    (hinfos : infos.Perm (procInfo old))
    (h : matching new infos (procsOf infos) = .ok (new', procs')) : Moved old new new' procs' := by
  obtain ⟨st, hst, rfl, rfl⟩ := seated_of_matching hempty hnew.uniqueNames hinfos h
  have hext := extends_of_matching hnew h
  refine ⟨hst.follows.seats, fun row hrow => ?_, fun e he pid hpid => ?_,
    fun row hrow clist => ?_, fun row hrow z => ?_, fun row hrow => (hext row hrow).1,
    fun y hy hne => ?_, fun e he hne => ?_⟩
  · obtain ⟨-, p, hp, -⟩ := hext row hrow
    have hkey : row.1 ∈ (procsOf infos).keys := Table.mem_keys.mpr ⟨_, hp, rfl⟩
    obtain ⟨info, hinfo, hpid⟩ := ((procsOf_spec infos).2 row.1).mp hkey
    obtain ⟨e, he, -, rfl⟩ := mem_procInfo.mp (hinfos.mem_iff.mp hinfo)
    exact ⟨e, he, hpid⟩
  · have hocc : e ∈ old.occupied := mem_occupied.mpr ⟨he, List.ne_nil_of_mem hpid⟩
    exact hst.follows.keys _ (hst.guest_mem hocc) pid hpid
  · obtain ⟨-, p, hp, heq⟩ := hext row hrow
    rw [heq, mem_oldClists_procsOf infos hp]
    constructor
    · rintro ⟨info, hinfo, hpid, rfl⟩
      obtain ⟨e, he, -, rfl⟩ := mem_procInfo.mp (hinfos.mem_iff.mp hinfo)
      exact ⟨e, he, hpid, rfl⟩
    · rintro ⟨e, he, hpid, rfl⟩
      have hocc : e ∈ old.occupied := mem_occupied.mpr ⟨he, List.ne_nil_of_mem hpid⟩
      exact ⟨e.guest, hst.guest_mem hocc, hpid, rfl⟩
  · rw [Pid.newCpus, List.mem_toFinset, clistCpus_eq_cpusOf (hext row hrow).1]
    exact hst.recorded hrow z
  · obtain ⟨e, he, rfl⟩ := hst.surjective (mem_occupied.mpr ⟨hy, hne⟩)
    exact ⟨e, (mem_occupied.mp he).1, (hst.placed he).2.2.symm⟩
  · obtain ⟨hocc, -, htasks⟩ := hst.placed (mem_occupied.mpr ⟨he, hne⟩)
    exact ⟨_, (mem_occupied.mp hocc).1, htasks⟩

namespace Moved

variable {row row' : τ × Pid}

omit [DecidableEq τ] in
theorem mem_oldCpus (h : Moved old new new' procs') (hrow : row ∈ procs'.rows) (z : ℤ) :
    z ∈ row.2.oldCpus ↔ ∃ e ∈ old.entries, row.1 ∈ e.tasks ∧ z ∈ clistCpus e.coreId := by
  rw [Pid.oldCpus, List.mem_toFinset, List.mem_flatMap]
  constructor
  · rintro ⟨clist, hclist, hz⟩
    obtain ⟨e, he, hpid, rfl⟩ := (h.oldClists row hrow clist).mp hclist
    exact ⟨e, he, hpid, hz⟩
  · rintro ⟨e, he, hpid, hz⟩
    exact ⟨e.coreId, (h.oldClists row hrow _).mpr ⟨e, he, hpid, rfl⟩, hz⟩

omit [DecidableEq τ] in
/-- **The union of its lists says which lists a pid is in**, where they are disjoint. -/
theorem tasks_of_oldCpus_eq (h : Moved old new new' procs') (hold : old.ApartLists)
    (hrow : row ∈ procs'.rows) (hrow' : row' ∈ procs'.rows)
    (hcpus : row.2.oldCpus = row'.2.oldCpus) {e : Entry String τ} (he : e ∈ old.entries)
    (hpid : row.1 ∈ e.tasks) : row'.1 ∈ e.tasks := by
  obtain ⟨z, hz⟩ := List.exists_mem_of_ne_nil _ (hold.nonempty e he)
  have hmem : z ∈ row'.2.oldCpus := hcpus ▸ (h.mem_oldCpus hrow z).mpr ⟨e, he, hpid, hz⟩
  obtain ⟨e', he', hpid', hz'⟩ := (h.mem_oldCpus hrow' z).mp hmem
  have hloc : e.loc = e'.loc := by
    by_contra hne
    exact hold.disjoint e he e' he' hne z hz hz'
  exact Conf.eq_of_loc_eq he he' hloc ▸ hpid'

omit [DecidableEq τ] in
/-- Pids in the same old lists are in the same new ones. -/
theorem unambiguous (h : Moved old new new' procs') (hold : old.ApartLists) :
    procs'.Unambiguous := by
  have hsub : ∀ row ∈ procs'.rows, ∀ row' ∈ procs'.rows, row.2.oldCpus = row'.2.oldCpus →
      row.2.newCpus ⊆ row'.2.newCpus := by
    intro row hrow row' hrow' hcpus z hz
    obtain ⟨y, hy, hpid, hz⟩ := (h.newCpus row hrow z).mp hz
    obtain ⟨e, he, htasks⟩ := h.groups y hy (List.ne_nil_of_mem hpid)
    have hpid' := h.tasks_of_oldCpus_eq hold hrow hrow' hcpus he (htasks ▸ hpid)
    exact (h.newCpus row' hrow' z).mpr ⟨y, hy, htasks ▸ hpid', hz⟩
  intro row hrow row' hrow' hcpus
  exact (hsub row hrow row' hrow' hcpus).antisymm (hsub row' hrow' row hrow hcpus.symm)

omit [DecidableEq τ] in
/-- The old lists of a pid can be read exactly when those it is in can. -/
theorem oldReadable_iff (h : Moved old new new' procs') (hrow : row ∈ procs'.rows) :
    row.2.OldReadable ↔ old.ReadablePid row.1 := by
  obtain ⟨e, he, hpid⟩ := h.known row hrow
  have hne : row.2.oldClists ≠ [] :=
    List.ne_nil_of_mem ((h.oldClists row hrow _).mpr ⟨e, he, hpid, rfl⟩)
  rw [Pid.OldReadable, and_iff_right hne]
  constructor
  · exact fun hread e he hpid =>
      hread e.coreId ((h.oldClists row hrow _).mpr ⟨e, he, hpid, rfl⟩)
  · intro hread clist hclist
    obtain ⟨e', he', hpid', rfl⟩ := (h.oldClists row hrow clist).mp hclist
    exact hread e' he' hpid'

omit [DecidableEq τ] in
/-- Every pid has a new list, which can be read. -/
theorem newReadable (h : Moved old new new' procs') (hnew : new.CpuLists)
    (hrow : row ∈ procs'.rows) : row.2.NewReadable := by
  obtain ⟨e, he, hpid⟩ := h.known row hrow
  refine (h.readable row hrow).resolve_left fun hnil => ?_
  obtain ⟨y, hy, htasks⟩ := h.moved e he (List.ne_nil_of_mem hpid)
  have hloc : y.loc ∈ new.seats := h.lists ▸ List.mem_map_of_mem hy
  obtain ⟨x, hx, hloc⟩ := List.mem_map.mp hloc
  have hname : x.coreId = y.coreId := congrArg (·.2.2) hloc
  obtain ⟨z, hz⟩ := exists_mem_cpusOf (hname ▸ hnew.readable x hx)
  have hmem := (h.newCpus row hrow z).mpr ⟨y, hy, htasks ▸ hpid, hz⟩
  rw [Pid.newCpus, hnil] at hmem
  simp [clistCpus_eq_cpusOf (.inl rfl), cpusOf_empty] at hmem

end Moved

end Groups

/-! ## The order of the table -/

section Order

variable {procs procs' : Procs τ} {os os' : Os}

omit [DecidableEq τ] in
/-- A pid has the CPUs, in whatever order the pids are. -/
theorem isSome_pidOf? {affin : List ℤ} {rows : List (τ × Pid)} :
    (pidOf? affin rows).isSome ↔ ∃ row ∈ rows, row.2.oldCpus = affin.toFinset := by
  rw [pidOf?, Option.isSome_map, List.find?_isSome]
  simp only [decide_eq_true_eq]

omit [DecidableEq τ] in
/-- Where the lookup is unambiguous, any order of the pids gives the same CPUs. -/
theorem toFinset_realign (hperm : procs'.rows.Perm procs.rows) (h : procs.Unambiguous)
    {affin affin' : List ℤ} (haffin : affin.toFinset = affin'.toFinset) :
    (realign procs affin).toFinset = (realign procs' affin').toFinset := by
  have h' : procs'.Unambiguous := fun row hrow row' hrow' =>
    h row (hperm.mem_iff.mp hrow) row' (hperm.mem_iff.mp hrow')
  have hal := aligned_realign h affin
  have hal' := aligned_realign h' affin'
  by_cases hfound : ∃ row ∈ procs.rows, row.2.oldCpus = affin.toFinset
  · obtain ⟨row, hrow, hcpus⟩ := hfound
    rw [hal.moved row hrow hcpus, hal'.moved row (hperm.mem_iff.mpr hrow) (hcpus.trans haffin)]
  · have hnone : ∀ row ∈ procs.rows, row.2.oldCpus ≠ affin.toFinset := fun row hrow heq =>
      hfound ⟨row, hrow, heq⟩
    rw [hal.kept hnone,
      hal'.kept fun row hrow => haffin ▸ hnone row (hperm.mem_iff.mp hrow), haffin]

omit [DecidableEq τ] in
/-- A round sets the affinity of a process exactly when a pid has its CPUs. -/
theorem set_round (process : ℕ) : (os.round procs process).set =
    if (pidOf? (os.affinity process) procs.rows).isSome then os.set ++ [process] else os.set := by
  rw [Os.round]
  cases pidOf? (os.affinity process) procs.rows <;> rfl

omit [DecidableEq τ] in
/-- **Rounds with the same pids** do the same. -/
theorem Os.Same.round (hperm : procs'.rows.Perm procs.rows) (h : procs.Unambiguous)
    (hos : os.Same os') (process : ℕ) :
    (os.round procs process).Same (os'.round procs' process) := by
  refine ⟨?_, fun other => ?_⟩
  · have hfound : (pidOf? (os.affinity process) procs.rows).isSome ↔
        (pidOf? (os'.affinity process) procs'.rows).isSome := by
      simp only [isSome_pidOf?, hperm.mem_iff, hos.affinity process]
    rw [set_round, set_round, hos.set]
    exact if_congr hfound rfl rfl
  · rw [(round_spec procs process os).1, (round_spec procs' process os').1]
    by_cases hsame : other = process
    · rw [hsame, rewriteAt, rewriteAt, Function.update_self, Function.update_self]
      exact toFinset_realign hperm h (hos.affinity process)
    · rw [rewriteAt, rewriteAt, Function.update_of_ne hsame, Function.update_of_ne hsame]
      exact hos.affinity other

omit [DecidableEq τ] in
theorem legible_of_readable {rows : List (τ × Pid)}
    (h : ∀ row ∈ rows, row.2.OldReadable ∧ row.2.NewReadable) (affin : List ℤ) :
    Legible affin rows := by
  induction rows with
  | nil => trivial
  | cons row rows ih =>
    obtain ⟨hrow, hrows⟩ := List.forall_mem_cons.mp h
    refine ⟨hrow.1, ?_⟩
    split_ifs
    · exact hrow.2
    · exact ih hrows

omit [DecidableEq τ] in
/-- **Where every list can be read**, any order of the pids gives the same moves. -/
theorem sameMoves_of_readable (hperm : procs'.rows.Perm procs.rows) (h : procs.Unambiguous)
    (hread : ∀ row ∈ procs.rows, row.2.OldReadable ∧ row.2.NewReadable) :
    SameMoves procs procs' := by
  have hread' : ∀ row ∈ procs'.rows, row.2.OldReadable ∧ row.2.NewReadable :=
    fun row hrow => hread row (hperm.mem_iff.mp hrow)
  suffices hwalk : ∀ (t : RoseTree ℕ) (os os' : Os), os.Same os' →
      (reaffinitizeCores procs t os).2.Same (reaffinitizeCores procs' t os').2 from
    fun t os => hwalk t os os ⟨rfl, fun _ => rfl⟩
  intro t
  have hround : ∀ (procs : Procs τ), (∀ row ∈ procs.rows, row.2.OldReadable ∧ row.2.NewReadable) →
      ∀ process os, reaffinitizeProcess procs process os = .ok (os.round procs process) :=
    fun procs hread process os =>
      reaffinitizeProcess_eq_ok.mpr ⟨legible_of_readable hread _, rfl⟩
  fun_induction RoseTree.spine t with
  | case1 a =>
    intro os os' hos
    rw [reaffinitizeCores, reaffinitizeCores, hround procs hread, hround procs' hread']
    exact hos.round hperm h a
  | case2 a child rest ih =>
    intro os os' hos
    rw [reaffinitizeCores, reaffinitizeCores, hround procs hread, hround procs' hread']
    exact ih _ _ (hos.round hperm h a)

omit [DecidableEq τ] in
/-- No search gets past a table without a pid that can be read. -/
theorem not_legible_of_mem {rows : List (τ × Pid)} {row : τ × Pid} (hrow : row ∈ rows)
    (h : ∀ row ∈ rows, ¬ row.2.OldReadable) (affin : List ℤ) : ¬ Legible affin rows := by
  cases rows with
  | nil => cases hrow
  | cons first rows => exact fun hlegible => h first List.mem_cons_self hlegible.1

omit [DecidableEq τ] in
/-- A walk whose first search ends it changes nothing. -/
theorem reaffinitizeCores_of_not_legible {t : RoseTree ℕ}
    (h : ∀ affin, ¬ Legible affin procs.rows) (os : Os) :
    (reaffinitizeCores procs t os).2 = os := by
  have hround : ∀ process, ∃ e, reaffinitizeProcess procs process os = .error e := by
    intro process
    cases hround : reaffinitizeProcess procs process os with
    | error e => exact ⟨e, rfl⟩
    | ok os' => exact absurd (reaffinitizeProcess_eq_ok.mp hround).1 (h _)
  cases t with
  | node a children =>
    obtain ⟨e, he⟩ := hround a
    cases children <;> rw [reaffinitizeCores, he]

/-- The rows with one of them in front. -/
theorem exists_front {row : τ × Pid} (hrow : row ∈ procs.rows) :
    ∃ procs'' : Procs τ, procs''.rows.Perm procs.rows ∧ ∃ rows, procs''.rows = row :: rows := by
  have hperm : (row :: procs.rows.erase row).Perm procs.rows :=
    (List.perm_cons_erase hrow).symm
  exact ⟨⟨_, (hperm.map Prod.fst).nodup_iff.mpr procs.nodup⟩, hperm, _, rfl⟩

omit [DecidableEq τ] in
/-- **A pid that can be read and one that cannot** make the order matter: a process with the CPUs of
the one is moved or not. -/
theorem not_sameMoves {row row' : τ × Pid} {rows rows' : List (τ × Pid)}
    (hprocs : procs.rows = row :: rows) (hprocs' : procs'.rows = row' :: rows')
    (hread : row.2.OldReadable ∧ row.2.NewReadable) (hread' : ¬ row'.2.OldReadable) :
    ¬ SameMoves procs procs' := by
  intro hsame
  obtain ⟨cpus, -, hcpus⟩ := hread.1.join
  have hfound : pidOf? cpus procs.rows = some row.2 := by
    rw [hprocs, pidOf?, List.find?_cons_of_pos (by simpa using hcpus), Option.map_some]
  have hlegible : Legible cpus procs.rows := by
    rw [hprocs]
    exact ⟨hread.1, by rw [if_pos hcpus]; exact hread.2⟩
  have hmoved : reaffinitizeCores procs (.node 1 []) ⟨fun _ => cpus, []⟩ =
      (.ok (), Os.round procs 1 ⟨fun _ => cpus, []⟩) :=
    reaffinitizeCores_leaf_eq_ok.mpr ⟨hlegible, rfl⟩
  have hstays : (reaffinitizeCores procs' (.node 1 []) ⟨fun _ => cpus, []⟩).2 =
      ⟨fun _ => cpus, []⟩ := by
    refine reaffinitizeCores_of_not_legible (fun affin hlegible' => hread' ?_) _
    rw [hprocs'] at hlegible'
    exact hlegible'.1
  have hset := (hsame (.node 1 []) ⟨fun _ => cpus, []⟩).set
  rw [hmoved, hstays, set_round, hfound] at hset
  simp at hset

end Order

/-- **The affinity lookup.**  Whatever the old configuration, as long as its CPU lists are disjoint,
and however the pids are spread over them: when the matching loops return, pids with the same old
CPUs have the same new ones.  But the order of the table changes where a process goes, unless the
pids are alike: the lists of all of them can be read, or some list of each cannot. -/
theorem matching_unambiguous_iff (old new : Conf String τ) (hold : old.ApartLists)
    (hnew : new.CpuLists) (hempty : ∀ e ∈ new.entries, e.tasks = []) (infos : List (ProcessInfo τ))
    (hinfos : infos.Perm (procInfo old)) (new' : Conf String τ) (procs' : Procs τ)
    (h : matching new infos (procsOf infos) = .ok (new', procs')) :
    procs'.Unambiguous ∧
      ((∀ procs'' : Procs τ, procs''.rows.Perm procs'.rows → SameMoves procs' procs'') ↔
        ∀ e ∈ old.entries, ∀ pid ∈ e.tasks, ∀ e' ∈ old.entries, ∀ pid' ∈ e'.tasks,
          (old.ReadablePid pid ↔ old.ReadablePid pid')) := by
  have hmoved := moved_of_matching hnew hempty hinfos h
  have hun := hmoved.unambiguous hold
  refine ⟨hun, fun hsame => ?_, fun halike procs'' hperm => ?_⟩
  · suffices himp : ∀ e ∈ old.entries, ∀ pid ∈ e.tasks, ∀ e' ∈ old.entries, ∀ pid' ∈ e'.tasks,
        old.ReadablePid pid → old.ReadablePid pid' from
      fun e he pid hpid e' he' pid' hpid' =>
        ⟨himp e he pid hpid e' he' pid' hpid', himp e' he' pid' hpid' e he pid hpid⟩
    intro e he pid hpid e' he' pid' hpid' hread
    by_contra hno
    obtain ⟨row, hrow, rfl⟩ := Table.mem_keys.mp (hmoved.held e he pid hpid)
    obtain ⟨row', hrow', rfl⟩ := Table.mem_keys.mp (hmoved.held e' he' pid' hpid')
    obtain ⟨procs₁, hperm₁, rows₁, hrows₁⟩ := exists_front hrow
    obtain ⟨procs₂, hperm₂, rows₂, hrows₂⟩ := exists_front hrow'
    refine not_sameMoves hrows₁ hrows₂
      ⟨(hmoved.oldReadable_iff hrow).mpr hread, hmoved.newReadable hnew hrow⟩
      (fun hold' => hno ((hmoved.oldReadable_iff hrow').mp hold')) fun t os => ?_
    exact (hsame procs₁ hperm₁ t os).symm.trans (hsame procs₂ hperm₂ t os)
  · by_cases hall : ∀ row ∈ procs'.rows, row.2.OldReadable
    · exact sameMoves_of_readable hperm hun fun row hrow =>
        ⟨hall row hrow, hmoved.newReadable hnew hrow⟩
    · push Not at hall
      obtain ⟨row, hrow, hno⟩ := hall
      obtain ⟨e, he, hpid⟩ := hmoved.known row hrow
      have hnone : ∀ row ∈ procs'.rows, ¬ row.2.OldReadable := by
        intro row' hrow' hread
        obtain ⟨e', he', hpid'⟩ := hmoved.known row' hrow'
        refine hno ((hmoved.oldReadable_iff hrow).mpr ?_)
        exact (halike e' he' row'.1 hpid' e he row.1 hpid).mp
          ((hmoved.oldReadable_iff hrow').mp hread)
      intro t os
      rw [reaffinitizeCores_of_not_legible (not_legible_of_mem hrow hnone),
        reaffinitizeCores_of_not_legible (not_legible_of_mem (hperm.mem_iff.mpr hrow)
          fun row' hrow' => hnone row' (hperm.mem_iff.mp hrow'))]
      exact ⟨rfl, fun _ => rfl⟩

/-! ## Configurations as `init` writes them -/

theorem readCpus_encodeInts {zs : List ℤ} (h : zs ≠ []) : readCpus (encodeInts zs) = .ok zs := by
  rw [readCpus, splitText_encodeInts h]
  refine mapM_eq_ok.mpr ?_
  rw [List.forall₂_map_left_iff]
  exact List.forall₂_same.mpr fun z _ => intOfStr_toString z

/-- **Every configuration `init` writes has disjoint lists of integers.** -/
theorem cpuLists_newConfig {p : Topology.Platform} (hok : p.Ok) (pools : Topology.Pools)
    (exclNonIsolcpus : String) {c : Conf String String}
    (h : buildConfig (newConfig p pools exclNonIsolcpus) = .ok c) : c.CpuLists := by
  have henc := encodes_newConfig hok pools exclNonIsolcpus
  have hgroups := groups_flatMap pools hok (nodup_newPools p exclNonIsolcpus)
  have hent := entries_of_buildConfig h
  refine ⟨fun e he => ?_, hent ▸ (fresh_newConfig hok pools exclNonIsolcpus).disjoint⟩
  rw [hent, henc.entries] at he
  obtain ⟨g, hg, rfl⟩ := List.mem_map.mp he
  exact ⟨_, readCpus_encodeInts (hgroups.cpuIds_ne_nil hok hg)⟩

/-- Two pids in two lists, one of which goes. -/
def sharedLists : Conf String String :=
  exclusivePool [⟨"0", []⟩, ⟨"1,5", ["7", "9"]⟩, ⟨"2", ["7", "9"]⟩]

theorem sharedLists_apart : sharedLists.ApartLists := ⟨by decide, by decide⟩

theorem newLists_cpuLists : newLists.CpuLists := ⟨by decide, by decide⟩

theorem matching_unambiguous_sharedLists : ∃ procs' : Procs String, procs'.Unambiguous ∧
    ∀ procs'' : Procs String, procs''.rows.Perm procs'.rows → SameMoves procs' procs'' := by
  have hret : (matching newLists (procInfo sharedLists)
    (procsOf (procInfo sharedLists))).toOption.isSome := by decide
  have hread : ∀ e ∈ sharedLists.entries, IsOk (readCpus e.coreId) := by decide
  have hpids : ∀ pid, sharedLists.ReadablePid pid := fun _ e he _ => hread e he
  cases h : matching newLists (procInfo sharedLists) (procsOf (procInfo sharedLists)) with
  | error err =>
    rw [h] at hret
    nomatch hret
  | ok result =>
    obtain ⟨hun, hiff⟩ := matching_unambiguous_iff sharedLists newLists sharedLists_apart
      newLists_cpuLists (by decide) _ (.refl _) _ _ h
    exact ⟨result.2, hun, hiff.mpr fun _ _ pid _ _ _ pid' _ =>
      iff_of_true (hpids pid) (hpids pid')⟩

/-- One list with a range, and one pid in each list. -/
def rangeLists : Conf String String := exclusivePool [⟨"4", ["7"]⟩, ⟨"8-10", ["9"]⟩]

/-- Which of two pids comes first says whether the process of the one is moved. -/
theorem matching_order_matters : rangeLists.ApartLists ∧ newLists.CpuLists ∧
    (∀ e ∈ rangeLists.entries, e.tasks.length ≤ 1) ∧
    ∃ new' procs' procs'', matching newLists (procInfo rangeLists)
        (procsOf (procInfo rangeLists)) = .ok (new', procs') ∧
      procs''.rows.Perm procs'.rows ∧ ¬ SameMoves procs' procs'' := by
  refine ⟨⟨by decide, by decide⟩, newLists_cpuLists, by decide, _, _, .ofList _
    [("9", ⟨["8-10"], "3"⟩), ("7", ⟨["4"], "2"⟩)], rfl, by decide, ?_⟩
  refine not_sameMoves rfl rfl ⟨⟨by decide, by decide⟩, ⟨[2], rfl⟩⟩ fun h => ?_
  exact absurd h.2 (by decide)

end Cmk
