import Cmk.Reconfigure.Matching

/-!
# Reconfigure/Seats — the matching loops as a seating

The guests are the occupied CPU lists of the old configuration, the seats the CPU lists of the new
one; their kind is a pool with a socket, a guest's home the list of its own name.  The first loop is
`settle`, the second `seat` (`foldlM_sameList`, `foldlM_sameSocket`), and the third is entered only
to raise.
-/

open Machinery Machinery.Seating

namespace Cmk

variable {τ : Type}

/-- Where a CPU list is filed: pool, socket and name. -/
abbrev Place := String × Scalar × String

/-- The pool and the socket a guest looks for. -/
def ProcessInfo.wants (info : ProcessInfo τ) : String × Scalar := (info.pool, info.socket)

def ProcessInfo.home (info : ProcessInfo τ) : Place := (info.pool, info.socket, info.oldClist)

def Place.kind (l : Place) : String × Scalar := (l.1, l.2.1)

/-- The CPU lists of a configuration. -/
def Conf.seats (c : Conf String τ) : List Place := c.entries.map Entry.loc

/-- The entry with the pids seated at it. -/
def fill (plan : Plan (ProcessInfo τ) Place) (e : Entry String τ) : Entry String τ :=
  match plan.find? fun x => x.2 = e.loc with
  | some x => { e with tasks := x.1.pid }
  | none => e

@[simp] theorem loc_fill (plan : Plan (ProcessInfo τ) Place) (e : Entry String τ) :
    (fill plan e).loc = e.loc := by
  unfold fill
  split <;> rfl

theorem fill_cons (x : ProcessInfo τ × Place) (plan : Plan (ProcessInfo τ) Place)
    (e : Entry String τ) :
    fill (x :: plan) e = Entry.mapAt x.2 (fun _ => x.1.pid) (fill plan e) := by
  rw [Entry.mapAt, loc_fill, fill, List.find?_cons]
  by_cases h : x.2 = e.loc
  · rw [if_pos h.symm]
    simp only [h, decide_true]
    unfold fill
    split <;> rfl
  · rw [if_neg (Ne.symm h)]
    simp only [h, decide_false]
    rfl

/-- A list is free exactly when nobody sits there. -/
theorem tasks_fill_eq_nil {plan : Plan (ProcessInfo τ) Place} {e : Entry String τ}
    (he : e.tasks = []) (hpid : ∀ x ∈ plan, x.1.pid ≠ []) :
    (fill plan e).tasks = [] ↔ ∀ x ∈ plan, x.2 ≠ e.loc := by
  unfold fill
  split
  · rename_i x hx
    have hloc : x.2 = e.loc := by simpa using List.find?_some hx
    have hmem := List.mem_of_find?_eq_some hx
    exact iff_of_false (hpid x hmem) fun h => h x hmem hloc
  · rename_i hnone
    exact iff_of_true he fun x hx => by simpa using List.find?_eq_none.mp hnone x hx

/-! ## The state the loops are in -/

variable [DecidableEq τ] {new : Conf String τ} {infos : List (ProcessInfo τ)}
  {plan : Plan (ProcessInfo τ) Place} {st st' : Matching τ} {proc : ProcessInfo τ}

/-- The loops have seated the guests as planned, and recorded it for every pid. -/
structure Follows (new : Conf String τ) (infos : List (ProcessInfo τ))
    (plan : Plan (ProcessInfo τ) Place) (st : Matching τ) : Prop where
  entries : st.conf.entries = new.entries.map (fill plan)
  pools : st.conf.getPools = new.getPools
  sockets : st.conf.socketKeys = new.socketKeys
  guests : ∀ x ∈ plan, x.1 ∈ infos
  keys : ∀ info ∈ infos, ∀ pid ∈ info.pid, pid ∈ st.procs.keys
  recorded : ∀ pid p, (pid, p) ∈ st.procs.rows → ∀ z,
    z ∈ cpusOf p.newClist ↔ ∃ x ∈ plan, pid ∈ x.1.pid ∧ z ∈ cpusOf x.2.2.2

/-- **Seating a guest.** -/
theorem Follows.give (h : Follows new infos plan st) (hproc : proc ∈ infos) (cl : String) :
    ∃ st', st.give proc proc.socket cl = .ok st' ∧
      Follows new infos ((proc, (proc.pool, proc.socket, cl)) :: plan) st' ∧
      st'.clistMismatch = st.clistMismatch ∧ st'.socketMismatch = st.socketMismatch := by
  obtain ⟨procs', hok, hadds⟩ := st.procs.addNewClist_ok cl (h.keys proc hproc)
  refine ⟨_, bind_eq_ok.mpr ⟨procs', hok, rfl⟩, ⟨?_, ?_, ?_, ?_, ?_, ?_⟩, rfl, rfl⟩
  · rw [Conf.entries_mapTasks, h.entries, List.map_map]
    exact List.map_congr_left fun e _ =>
      (fill_cons (proc, (proc.pool, proc.socket, cl)) plan e).symm
  · rw [Conf.getPools, Conf.mapTasks, Table.keys_modify, ← Conf.getPools, h.pools]
  · rw [Conf.socketKeys_mapTasks, h.sockets]
  · exact List.forall_mem_cons.mpr ⟨hproc, h.guests⟩
  · exact fun info hinfo pid hpid => (hadds.keys pid).mpr (h.keys info hinfo pid hpid)
  · intro pid p' hp' z
    obtain ⟨p, hp, hz⟩ := hadds.rows pid p' hp'
    rw [hz, h.recorded pid p hp z, List.exists_mem_cons_iff, or_comm]

/-! ## What the loops see -/

/-- The new configuration has a CPU list of the kind wanted. -/
def Served (seats : List Place) (proc : ProcessInfo τ) : Prop :=
  ∃ l ∈ seats, l.kind = proc.wants

omit [DecidableEq τ] in
theorem listsAt_eq_nil {c : Conf String τ} :
    c.listsAt proc.pool proc.socket = [] ↔ ¬ Served c.seats proc := by
  rw [Conf.listsAt, List.map_eq_nil_iff, List.filter_eq_nil_iff, Served]
  constructor
  · rintro h ⟨l, hl, hk⟩
    obtain ⟨e, he, rfl⟩ := List.mem_map.mp hl
    exact h e he (by simpa [Place.kind, ProcessInfo.wants] using hk)
  · intro h e he hk
    exact h ⟨e.loc, List.mem_map_of_mem he, by simpa [Place.kind, ProcessInfo.wants] using hk⟩

omit [DecidableEq τ] in
theorem mem_names_listsAt {c : Conf String τ} :
    proc.oldClist ∈ (c.listsAt proc.pool proc.socket).map CoreList.coreId ↔
      proc.home ∈ c.seats := by
  rw [Conf.listsAt, List.map_map, Conf.seats]
  simp only [List.mem_map, List.mem_filter, decide_eq_true_eq, Function.comp_apply,
    ProcessInfo.home, Entry.loc, Prod.mk.injEq]
  constructor
  · rintro ⟨e, ⟨he, hp, hs⟩, hc⟩
    exact ⟨e, he, hp, hs, hc⟩
  · rintro ⟨e, he, hp, hs, hc⟩
    exact ⟨e, ⟨he, hp, hs⟩, hc⟩

omit [DecidableEq τ] in
theorem clists_ok {p : Pool String τ} {cls : List (CoreList String τ)}
    (h : st.clists proc = .ok (p, cls)) :
    st.conf.getPool proc.pool = .ok p ∧ cls = st.conf.listsAt proc.pool proc.socket := by
  obtain ⟨p', hp, h⟩ := bind_eq_ok.mp h
  obtain ⟨cls', hcls, h⟩ := bind_eq_ok.mp h
  obtain ⟨rfl, rfl⟩ := Prod.mk.inj (pure_eq_ok.mp h)
  have hget := st.conf.getSocketClists_eq proc.pool proc.socket
  rw [bind_eq_ok.mpr ⟨p', hp, hcls⟩] at hget
  split at hget
  · exact ⟨hp, Except.ok.inj hget⟩
  · nomatch hget

omit [DecidableEq τ] in
theorem clists_served (h : Served st.conf.seats proc) :
    ∃ p, st.clists proc = .ok (p, st.conf.listsAt proc.pool proc.socket) := by
  obtain ⟨l, hl, hk⟩ := h
  obtain ⟨e, he, rfl⟩ := List.mem_map.mp hl
  obtain ⟨hpool, hsocket⟩ : e.pool = proc.pool ∧ e.socket = proc.socket := Prod.mk.inj hk
  obtain ⟨p, hp, hep⟩ := Conf.mem_entries.mp he
  obtain ⟨s, hs, cl, -, heq⟩ := Pool.mem_entries.mp hep
  have hkey : (proc.pool, proc.socket) ∈ st.conf.socketKeys := by
    refine Conf.mem_socketKeys.mpr ⟨p, hp, ?_, ?_⟩
    · rw [← hpool, heq]
    · rw [← hsocket, heq]
      exact Table.key_mem_keys hs
  have hget := st.conf.getSocketClists_eq proc.pool proc.socket
  rw [if_pos hkey] at hget
  obtain ⟨p', hp', hcls⟩ := bind_eq_ok.mp hget
  exact ⟨p', bind_eq_ok.mpr ⟨p', hp', bind_eq_ok.mpr ⟨_, hcls, rfl⟩⟩⟩

omit [DecidableEq τ] in
theorem Follows.seats (h : Follows new infos plan st) : st.conf.seats = new.seats := by
  rw [Conf.seats, h.entries, List.map_map]
  exact List.map_congr_left fun e _ => loc_fill plan e

/-! ## The first loop -/

/-- A round for a guest with a home seats it there. -/
theorem sameList_home (hu : UniqueNames new.entries) (h : Follows new infos plan st)
    (hproc : proc ∈ infos) (hhome : proc.home ∈ new.seats) :
    ∃ st', st.sameList proc = .ok st' ∧ Follows new infos ((proc, proc.home) :: plan) st' ∧
      st'.clistMismatch = st.clistMismatch ∧ st'.socketMismatch = st.socketMismatch := by
  rw [← h.seats] at hhome
  have hserved : Served st.conf.seats proc := ⟨_, hhome, rfl⟩
  obtain ⟨p, hclists⟩ := clists_served hserved
  have hne : st.conf.listsAt proc.pool proc.socket ≠ [] := fun hnil =>
    listsAt_eq_nil.mp hnil hserved
  obtain ⟨e, he, heq⟩ := List.mem_map.mp hhome
  simp only [Entry.loc, ProcessInfo.home, Prod.mk.injEq] at heq
  have hu' : UniqueNames st.conf.entries := by
    rw [h.entries]
    exact hu.map (loc_fill plan)
  have hget := getCoreList_home hu' (clists_ok hclists).1 he heq.1
  rw [heq.2.1, heq.2.2] at hget
  obtain ⟨st', hgive, hst'⟩ := h.give hproc proc.oldClist
  refine ⟨st', ?_, hst'⟩
  rw [Matching.sameList, hclists]
  refine bind_eq_ok.mpr ⟨_, rfl, ?_⟩
  dsimp only
  rw [if_neg hne, if_pos (mem_names_listsAt.mpr hhome)]
  exact bind_eq_ok.mpr ⟨_, hget, hgive⟩

/-- A round for another keeps it for the second loop, if there is a list of its kind. -/
theorem sameList_mover (h : Follows new infos plan st) (hserved : Served new.seats proc)
    (hhome : proc.home ∉ new.seats) :
    st.sameList proc = .ok { st with clistMismatch := st.clistMismatch ++ [proc] } := by
  rw [← h.seats] at hhome hserved
  obtain ⟨p, hclists⟩ := clists_served hserved
  rw [Matching.sameList, hclists]
  refine bind_eq_ok.mpr ⟨_, rfl, ?_⟩
  dsimp only
  rw [if_neg fun hnil => listsAt_eq_nil.mp hnil hserved, if_neg (mt mem_names_listsAt.mp hhome)]
  rfl

/-- **The first loop settles every guest who has a home.** -/
theorem foldlM_sameList (hu : UniqueNames new.entries) {gs : List (ProcessInfo τ)}
    (hgs : gs ⊆ infos) (hserved : ∀ g ∈ gs, Served new.seats g)
    (h : Follows new infos plan st) :
    ∃ st', gs.foldlM Matching.sameList st = .ok st' ∧
      Follows new infos (settle ProcessInfo.home new.seats gs ++ plan) st' ∧
      st'.clistMismatch = st.clistMismatch ++ movers ProcessInfo.home new.seats gs ∧
      st'.socketMismatch = st.socketMismatch := by
  induction gs generalizing plan st with
  | nil => exact ⟨st, rfl, h, by simp [movers], rfl⟩
  | cons g gs ih =>
    have hrest := fun g' hg' => hserved g' (List.mem_cons_of_mem _ hg')
    by_cases hhome : g.home ∈ new.seats
    · obtain ⟨st₁, hround, h₁, hcm, hsm⟩ := sameList_home hu h (hgs List.mem_cons_self) hhome
      obtain ⟨st', hloop, h', hcm', hsm'⟩ := ih (List.subset_of_cons_subset hgs) hrest h₁
      refine ⟨st', ?_, ?_, ?_, hsm'.trans hsm⟩
      · rw [List.foldlM_cons, hround]
        exact hloop
      · have hsettle : settle ProcessInfo.home new.seats (g :: gs) =
            settle ProcessInfo.home new.seats gs ++ [(g, g.home)] := by
          simp [settle, settled, hhome]
        rwa [hsettle, List.append_assoc]
      · rw [hcm', hcm]
        simp [movers, hhome]
    · have h₁ : Follows new infos plan { st with clistMismatch := st.clistMismatch ++ [g] } :=
        ⟨h.entries, h.pools, h.sockets, h.guests, h.keys, h.recorded⟩
      obtain ⟨st', hloop, h', hcm', hsm'⟩ := ih (List.subset_of_cons_subset hgs) hrest h₁
      refine ⟨st', ?_, ?_, ?_, hsm'⟩
      · rw [List.foldlM_cons, sameList_mover h (hserved g List.mem_cons_self) hhome]
        exact hloop
      · have hsettle : settle ProcessInfo.home new.seats (g :: gs) =
            settle ProcessInfo.home new.seats gs := by
          simp [settle, settled, hhome]
        rwa [hsettle]
      · rw [hcm']
        simp [movers, hhome]

/-! ## The second loop -/

omit [DecidableEq τ] in
theorem map_find?_congr {α β : Type} {xs : List α} {P Q : α → Bool} {f g : α → β}
    (hPQ : ∀ x ∈ xs, P x = Q x) (hfg : ∀ x ∈ xs, Q x = true → f x = g x) :
    (xs.find? P).map f = (xs.find? Q).map g := by
  rw [List.find?_congr hPQ]
  cases hx : xs.find? Q with
  | none => rfl
  | some x => exact congrArg some (hfg x (List.mem_of_find?_eq_some hx) (List.find?_some hx))

omit [DecidableEq τ] in
/-- The list a round finds is the first open seat. -/
theorem find?_listsAt (hempty : ∀ e ∈ new.entries, e.tasks = [])
    (hpid : ∀ x ∈ plan, x.1.pid ≠ []) (h : Follows new infos plan st) (proc : ProcessInfo τ) :
    ((st.conf.listsAt proc.pool proc.socket).find? fun cl => cl.tasks = []).map
        (fun cl => ((proc.pool, proc.socket, cl.coreId) : Place)) =
      open? ProcessInfo.wants Place.kind new.seats plan proc := by
  have hopen : open? ProcessInfo.wants Place.kind new.seats plan proc = new.seats.find? fun l =>
      l.1 = proc.pool && l.2.1 = proc.socket && plan.all fun x => x.2 ≠ l := by
    refine open?_eq_find? fun l _ => ?_
    simp [Place.kind, ProcessInfo.wants]
  rw [hopen, Conf.listsAt, h.entries, List.filter_map, List.map_map, List.find?_map,
    Option.map_map, List.find?_filter, Conf.seats, List.find?_map]
  refine map_find?_congr (fun e he => ?_) fun e he hkind => ?_
  all_goals
    have hloc := loc_fill plan e
    simp only [Entry.loc, Prod.mk.injEq] at hloc
  · have hfree := tasks_fill_eq_nil (hempty e he) hpid
    rw [Bool.eq_iff_iff]
    simp only [Function.comp_apply, decide_eq_true_eq, Bool.and_eq_true, List.all_eq_true, hloc,
      hfree]
  · simp at hkind
    simp [hloc, hkind]

/-- A round seats the guest, or keeps it for the third loop. -/
theorem sameSocket_eq (hempty : ∀ e ∈ new.entries, e.tasks = [])
    (hinfos : ∀ info ∈ infos, info.pid ≠ []) (h : Follows new infos plan st)
    (hproc : proc ∈ infos) (hserved : Served new.seats proc) :
    match open? ProcessInfo.wants Place.kind new.seats plan proc with
    | some l => ∃ st', st.sameSocket proc = .ok st' ∧ Follows new infos ((proc, l) :: plan) st' ∧
        st'.socketMismatch = st.socketMismatch
    | none => st.sameSocket proc =
        .ok { st with socketMismatch := st.socketMismatch ++ [proc] } := by
  have hfind := find?_listsAt hempty (fun x hx => hinfos _ (h.guests x hx)) h proc
  rw [← h.seats] at hserved
  obtain ⟨p, hclists⟩ := clists_served hserved
  rw [← hfind, Matching.sameSocket, hclists]
  cases hcl : (st.conf.listsAt proc.pool proc.socket).find? fun cl => cl.tasks = [] with
  | none =>
    refine bind_eq_ok.mpr ⟨_, rfl, ?_⟩
    simp only [hcl]
    rfl
  | some cl =>
    obtain ⟨st', hgive, hst', -, hsm⟩ := h.give hproc cl.coreId
    refine ⟨st', bind_eq_ok.mpr ⟨_, rfl, ?_⟩, hst', hsm⟩
    simp only [hcl]
    exact hgive

/-- **The second loop seats the others**, or keeps them for the third. -/
theorem foldlM_sameSocket (hempty : ∀ e ∈ new.entries, e.tasks = [])
    (hinfos : ∀ info ∈ infos, info.pid ≠ []) {gs : List (ProcessInfo τ)} (hgs : gs ⊆ infos)
    (hserved : ∀ g ∈ gs, Served new.seats g) (h : Follows new infos plan st) :
    ∃ st', gs.foldlM Matching.sameSocket st = .ok st' ∧
      Follows new infos (seat ProcessInfo.wants Place.kind new.seats plan gs).1 st' ∧
      st'.socketMismatch =
        st.socketMismatch ++ (seat ProcessInfo.wants Place.kind new.seats plan gs).2 := by
  induction gs generalizing plan st with
  | nil => exact ⟨st, rfl, h, (List.append_nil _).symm⟩
  | cons g gs ih =>
    have hround := sameSocket_eq hempty hinfos h (hgs List.mem_cons_self)
      (hserved g List.mem_cons_self)
    have hrest := fun g' hg' => hserved g' (List.mem_cons_of_mem _ hg')
    rw [seat]
    split at hround
    · rename_i l hl
      obtain ⟨st₁, hok, h₁, hsm⟩ := hround
      obtain ⟨st', hloop, h', hsm'⟩ := ih (List.subset_of_cons_subset hgs) hrest h₁
      rw [hl, List.foldlM_cons, hok]
      exact ⟨st', hloop, h', hsm'.trans (by rw [hsm])⟩
    · rename_i hnone
      have h₁ : Follows new infos plan { st with socketMismatch := st.socketMismatch ++ [g] } :=
        ⟨h.entries, h.pools, h.sockets, h.guests, h.keys, h.recorded⟩
      obtain ⟨st', hloop, h', hsm'⟩ := ih (List.subset_of_cons_subset hgs) hrest h₁
      rw [hnone, List.foldlM_cons, hround]
      exact ⟨st', hloop, h', hsm'.trans (List.append_assoc _ _ _)⟩

/-! ## The third loop -/

omit [DecidableEq τ] in
/-- **The third loop never finds a place.**  Induction on the sockets left to try. -/
theorem otherSockets_ne_ok (hpid : proc.pid ≠ []) : st.otherSockets proc ≠ .ok st' := by
  induction proc using Matching.otherSockets.induct st with
  | case1 proc e he =>
    rw [Matching.otherSockets, he]
    exact fun h => nomatch h
  | case2 proc p cls hcls cl hcl hnil => exact absurd hnil hpid
  | case3 proc p cls hcls cl hcl hne =>
    rw [Matching.otherSockets, hcls]
    simp only [hcl, if_neg hne]
    exact fun h => nomatch h
  | case4 proc p cls hcls hcl e he =>
    rw [Matching.otherSockets, hcls]
    simp only [hcl]
    split
    · exact fun h => nomatch h
    · rename_i proc' hproc'
      rw [he] at hproc'
      nomatch hproc'
  | case5 proc p cls hcls hcl proc' hproc' ih =>
    rw [Matching.otherSockets, hcls]
    simp only [hcl]
    split
    · exact fun h => nomatch h
    · rename_i moved hmoved
      obtain rfl := Except.ok.inj (hproc'.symm.trans hmoved)
      obtain ⟨k, index, -, -, rfl⟩ := ProcessInfo.updateSockets_ok hproc'
      exact ih hpid

omit [DecidableEq τ] in
/-- With anybody to place it does not return. -/
theorem foldlM_otherSockets_ne_ok {procs : List (ProcessInfo τ)}
    (h : ∃ proc ∈ procs, proc.pid ≠ []) : procs.foldlM Matching.otherSockets st ≠ .ok st' := by
  induction procs generalizing st with
  | nil => nomatch h
  | cons g procs ih =>
    intro hloop
    rw [List.foldlM_cons] at hloop
    obtain ⟨st₁, hround, hloop⟩ := bind_eq_ok.mp hloop
    obtain ⟨proc, hproc, hpid⟩ := h
    rcases List.mem_cons.mp hproc with rfl | hproc
    · exact otherSockets_ne_ok hpid hround
    · exact ih ⟨proc, hproc, hpid⟩ hloop

/-! ## Where a pool has no list on the socket -/

theorem give_ok {socket : Scalar} {cl : String} (h : st.give proc socket cl = .ok st') :
    st'.conf.seats = st.conf.seats ∧ st'.socketMismatch = st.socketMismatch := by
  obtain ⟨procs, -, h⟩ := bind_eq_ok.mp h
  obtain rfl := pure_eq_ok.mp h
  exact ⟨Conf.locs_mapTasks _ _ _ _ _, rfl⟩

theorem sameList_ok (h : st.sameList proc = .ok st') :
    st'.conf.seats = st.conf.seats ∧ st.socketMismatch ⊆ st'.socketMismatch ∧
      (¬ Served st.conf.seats proc → ∃ moved ∈ st'.socketMismatch, moved.pid = proc.pid) := by
  obtain ⟨⟨p, cls⟩, hclists, h⟩ := bind_eq_ok.mp h
  obtain ⟨-, rfl⟩ := clists_ok hclists
  dsimp only at h
  split at h
  · obtain ⟨moved, hmoved, h⟩ := bind_eq_ok.mp h
    obtain rfl := pure_eq_ok.mp h
    obtain ⟨k, index, -, -, rfl⟩ := ProcessInfo.updateSockets_ok hmoved
    exact ⟨rfl, List.subset_append_left _ _,
      fun _ => ⟨_, List.mem_append_right _ List.mem_cons_self, rfl⟩⟩
  · rename_i hne
    have hserved : Served st.conf.seats proc := not_not.mp (mt listsAt_eq_nil.mpr hne)
    split at h
    · obtain ⟨found, -, h⟩ := bind_eq_ok.mp h
      split at h
      · obtain ⟨hseats, hsm⟩ := give_ok h
        exact ⟨hseats, hsm ▸ List.Subset.refl _, fun hn => absurd hserved hn⟩
      · simp at h
    · obtain rfl := pure_eq_ok.mp h
      exact ⟨rfl, List.Subset.refl _, fun hn => absurd hserved hn⟩

theorem sameSocket_ok (h : st.sameSocket proc = .ok st') :
    st.socketMismatch ⊆ st'.socketMismatch := by
  obtain ⟨⟨p, cls⟩, -, h⟩ := bind_eq_ok.mp h
  dsimp only at h
  split at h
  · exact (give_ok h).2 ▸ List.Subset.refl _
  · obtain rfl := pure_eq_ok.mp h
    exact List.subset_append_left _ _

/-- **A guest without a list of its kind is left to the third loop.** -/
theorem left_of_unserved {gs : List (ProcessInfo τ)} (h : gs.foldlM Matching.sameList st = .ok st')
    (hg : ∃ g ∈ gs, ¬ Served st.conf.seats g ∧ g.pid ≠ []) :
    ∃ moved ∈ st'.socketMismatch, moved.pid ≠ [] := by
  induction gs generalizing st with
  | nil => nomatch hg
  | cons g' gs ih =>
    rw [List.foldlM_cons] at h
    obtain ⟨st₁, hround, hrest⟩ := bind_eq_ok.mp h
    obtain ⟨hseats, -, hleft⟩ := sameList_ok hround
    obtain ⟨g, hg, hun, hpid⟩ := hg
    rcases List.mem_cons.mp hg with rfl | hg
    · obtain ⟨moved, hmoved, heq⟩ := hleft hun
      have hkeep := foldlM_invariant (f := Matching.sameList)
        (P := fun st => moved ∈ st.socketMismatch)
        (fun _ _ _ hm hok => (sameList_ok hok).2.1 hm) hmoved hrest
      exact ⟨moved, hkeep, heq ▸ hpid⟩
    · exact ih hrest ⟨g, hg, hseats ▸ hun, hpid⟩

/-! ## The whole -/

/-- The seating the loops work out. -/
def seatingOf (new : Conf String τ) (infos : List (ProcessInfo τ)) :
    Plan (ProcessInfo τ) Place × List (ProcessInfo τ) :=
  seating ProcessInfo.wants Place.kind ProcessInfo.home new.seats infos

variable {procs : Procs τ} (hu : UniqueNames new.entries)
  (hempty : ∀ e ∈ new.entries, e.tasks = []) (hpid : ∀ info ∈ infos, info.pid ≠ [])

include hempty hpid in
/-- The first two loops, where every guest has a list of its kind. -/
theorem two_loops (hu : UniqueNames new.entries) (hserved : ∀ g ∈ infos, Served new.seats g) :
    ∃ st₁ st₂, infos.foldlM Matching.sameList ⟨new, procsOf infos, [], []⟩ = .ok st₁ ∧
      st₁.clistMismatch.foldlM Matching.sameSocket st₁ = .ok st₂ ∧
      Follows new infos (seatingOf new infos).1 st₂ ∧
      st₂.socketMismatch = (seatingOf new infos).2 := by
  obtain ⟨hunmoved, hkeys⟩ := procsOf_spec infos
  have hstart : Follows new infos [] ⟨new, procsOf infos, [], []⟩ := by
    refine ⟨?_, rfl, rfl, (fun _ hx => nomatch hx), fun info hinfo pid hp => (hkeys pid).mpr
      ⟨info, hinfo, hp⟩, fun pid p hp z => ?_⟩
    · exact (List.map_id _).symm
    · rw [hunmoved _ hp, cpusOf_empty]
      simp
  obtain ⟨st₁, h₁, hf₁, hcm, hsm⟩ := foldlM_sameList hu (List.Subset.refl _) hserved hstart
  have hmovers : st₁.clistMismatch = movers ProcessInfo.home new.seats infos := hcm
  have hsub : st₁.clistMismatch ⊆ infos := hmovers ▸ List.filter_subset_self _
  obtain ⟨st₂, h₂, hf₂, hsm₂⟩ :=
    foldlM_sameSocket hempty hpid hsub (fun g hg => hserved g (hsub hg)) hf₁
  rw [hmovers, List.append_nil] at hf₂ hsm₂
  exact ⟨st₁, st₂, h₁, h₂, hf₂, by rw [hsm₂, hsm]; rfl⟩

include hempty hpid hu in
/-- **What the matching loops return** is a seating of everybody. -/
theorem matching_ok {new' : Conf String τ} {procs' : Procs τ}
    (h : matching new infos (procsOf infos) = .ok (new', procs')) :
    (seatingOf new infos).2 = [] ∧ ∃ st, Follows new infos (seatingOf new infos).1 st ∧
      st.conf = new' ∧ st.procs = procs' := by
  obtain ⟨st₁, h₁, h⟩ := bind_eq_ok.mp h
  obtain ⟨st₂, h₂, h⟩ := bind_eq_ok.mp h
  obtain ⟨st₃, h₃, h⟩ := bind_eq_ok.mp h
  obtain ⟨rfl, rfl⟩ := Prod.mk.inj (pure_eq_ok.mp h)
  have hserved : ∀ g ∈ infos, Served new.seats g := by
    by_contra hne
    simp only [not_forall] at hne
    obtain ⟨g, hg, hun⟩ := hne
    obtain ⟨moved, hmoved, hp⟩ := left_of_unserved h₁ ⟨g, hg, hun, hpid g hg⟩
    have hkeep := foldlM_invariant (f := Matching.sameSocket)
      (P := fun st => moved ∈ st.socketMismatch) (fun _ _ _ hm hok => sameSocket_ok hok hm)
      hmoved h₂
    exact foldlM_otherSockets_ne_ok ⟨moved, hkeep, hp⟩ h₃
  obtain ⟨st₁', st₂', h₁', h₂', hf, hsm⟩ := two_loops hempty hpid hu hserved
  obtain rfl := Except.ok.inj (h₁.symm.trans h₁')
  obtain rfl := Except.ok.inj (h₂.symm.trans h₂')
  have hnil : st₂.socketMismatch = [] := by
    by_contra hne
    obtain ⟨g, hg⟩ := List.exists_mem_of_ne_nil _ hne
    have hmem : g ∈ infos := (perm_seating infos).mem_iff.mp
      (List.mem_append_right _ (hsm ▸ hg : g ∈ (seatingOf new infos).2))
    exact foldlM_otherSockets_ne_ok ⟨g, hg, hpid g hmem⟩ h₃
  rw [hnil] at h₃
  obtain rfl := pure_eq_ok.mp h₃
  exact ⟨hsm ▸ hnil, st₂, hf, rfl, rfl⟩

include hempty hpid hu in
/-- **The matching loops return exactly when no socket of a pool has more occupied lists than the
new configuration has lists there.** -/
theorem isOk_matching_iff (hhomes : (infos.map ProcessInfo.home).Nodup) :
    IsOk (matching new infos (procsOf infos)) ↔
      ∀ k, infos.countP (ProcessInfo.wants · = k) ≤ new.seats.countP (Place.kind · = k) := by
  have hiff : (seatingOf new infos).2 = [] ↔ _ :=
    seating_complete_iff new.nodup_loc hhomes fun _ _ => rfl
  refine Iff.trans ⟨?_, fun hnil => ?_⟩ hiff
  · rintro ⟨⟨new', procs'⟩, h⟩
    exact (matching_ok hu hempty hpid h).1
  · have hserved : ∀ g ∈ infos, Served new.seats g := by
      intro g hg
      have hvalid : Valid ProcessInfo.wants Place.kind new.seats (seatingOf new infos).1 :=
        valid_seating hhomes fun _ _ => rfl
      have hmem : g ∈ (seatingOf new infos).1.map Prod.fst ++ (seatingOf new infos).2 :=
        (perm_seating infos).mem_iff.mpr hg
      rw [hnil, List.append_nil] at hmem
      obtain ⟨x, hx, rfl⟩ := List.mem_map.mp hmem
      exact ⟨x.2, hvalid.seats x hx, hvalid.kinds x hx⟩
    obtain ⟨st₁, st₂, h₁, h₂, -, hsm⟩ := two_loops hempty hpid hu hserved
    have hsm' : st₂.socketMismatch = [] := hsm.trans hnil
    refine ⟨_, bind_eq_ok.mpr ⟨st₁, h₁, bind_eq_ok.mpr ⟨st₂, h₂, bind_eq_ok.mpr ⟨st₂, ?_, rfl⟩⟩⟩⟩
    rw [hsm']
    rfl

end Cmk
