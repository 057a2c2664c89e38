import Cmk.Isolate.Exact
import Cmk.Node.Exclusion

/-!
# Node/Capacity — what is left of an exclusive pool

The CPU lists of an exclusive pool that `isolate` can give out are those of the configmap as it was
written, less those of live wrappers that have not released them, less the stray ones: lists with a
task that no such wrapper was allocated.  So a request is granted exactly when it fits
(`request_granted_iff`).

Where no wrapper starts under a pid that is still recorded, and none stops half-way through its
allocation, a reconciliation leaves no stray list (`reconciled_granted_iff`).
-/

open Machinery

namespace Cmk

/-! ## What is held and what is stray -/

/-- The lists of a pool that the wrapper was allocated and has not released. -/
def Wrapper.heldIn (w : Wrapper) (pool : String) : List String :=
  match w with
  | holding _ p clists => if p = pool then clists else []
  | ended _ p clists (.error _) => if p = pool then clists else []
  | _ => []

/-- How many CPU lists a configmap has in a pool. -/
def ConfDict.capacity (d : ConfDict String String) (pool : String) : ℕ :=
  (d.entries.filter fun e => e.pool = pool).length

variable {ι : Type}

/-- The lists of a pool that have a task and that no wrapper holds. -/
def Node.strayIn [Fintype ι] (s : Node ι) (pool : String) : List (Entry String String) :=
  s.config.entries.filter fun e =>
    e.pool = pool ∧ e.tasks ≠ [] ∧ ∀ i, e.coreId ∉ (s.wrappers i).heldIn pool

/-- What the wrappers hold of a pool, and what is stray there. -/
def Node.inUse [Fintype ι] (s : Node ι) (pool : String) : ℕ :=
  (∑ i, ((s.wrappers i).heldIn pool).length) + (s.strayIn pool).length

/-- A wrapper's lists in a pool are what it holds in the ledger there. -/
theorem Wrapper.mem_held_party {w : Wrapper} {pool cl : String} :
    (pool, cl) ∈ w.party.held ↔ cl ∈ w.heldIn pool := by
  match w with
  | absent | started _ | failed _ | ended _ _ _ (.ok ()) | dead =>
    simp [Wrapper.party, Wrapper.heldIn, Lease.Party.held]
  | holding _ p clists | ended _ p clists (.error _) =>
    by_cases hp : p = pool
    · simp [Wrapper.party, Wrapper.heldIn, Lease.Party.held, hp]
    · simp [Wrapper.party, Wrapper.heldIn, Lease.Party.held, hp]

/-- What a wrapper holds of a pool it was allocated at once. -/
theorem Wrapper.heldIn_cases (w : Wrapper) (pool : String) :
    w.heldIn pool = [] ∨ ∃ pid, w.Unreleased pid pool (w.heldIn pool) := by
  match w with
  | absent | started _ | failed _ | ended _ _ _ (.ok ()) | dead => exact .inl rfl
  | holding pid p clists =>
    by_cases hp : p = pool
    · subst hp
      exact .inr ⟨pid, by simpa [Wrapper.heldIn] using .holding pid p clists⟩
    · exact .inl (if_neg hp)
  | ended pid p clists (.error e) =>
    by_cases hp : p = pool
    · subst hp
      exact .inr ⟨pid, by simpa [Wrapper.heldIn] using .ended pid p clists e⟩
    · exact .inl (if_neg hp)

section Runs

variable [DecidableEq ι] {ctor : Except PyErr Unit} {d : ConfDict String String} {s s' : Node ι}

/-! ## No list is allocated twice to one wrapper -/

/-- No wrapper was allocated a list twice. -/
def Node.Tidy (s : Node ι) : Prop :=
  ∀ i pid pool clists, (s.wrappers i).Unreleased pid pool clists → clists.Nodup

theorem Node.Tidy.update {config : ConfDict String String} (h : s.Tidy) {i : ι} {w : Wrapper}
    (hw : ∀ pid pool clists, w.Unreleased pid pool clists → clists.Nodup) :
    (⟨config, Function.update s.wrappers i w⟩ : Node ι).Tidy :=
  (Function.forall_update_iff s.wrappers fun _ x =>
    ∀ pid pool clists, x.Unreleased pid pool clists → clists.Nodup).mpr ⟨hw, fun j _ => h j⟩

theorem Node.Tidy.step (h : s.Tidy) (hu : UniqueNames s.config.entries)
    (hs : Node.Step ctor s s') : s'.Tidy := by
  cases hs with
  | start i pid hi hp => exact h.update fun _ _ _ hw => nomatch hw
  | allocate i pid args env c c' clists hi hread hpid hrun =>
    obtain ⟨done, hnd, hok, -⟩ := isolateSection_spec hpid hread.known (hread.book hu).1 hrun
    obtain rfl := hok clists rfl
    refine h.update fun _ _ _ hw => ?_
    cases hw
    exact hnd
  | allocateError i pid args env c c' e hi hread hpid hrun =>
    exact h.update fun _ _ _ hw => nomatch hw
  | finish i pid pool clists getpid c c' hi hread hpid hrun =>
    exact h.update fun _ _ _ hw => nomatch hw
  | finishError i pid pool clists getpid c e hi hread hpid hrun =>
    refine h.update fun _ _ _ hw => ?_
    cases hw
    exact h i pid pool clists (hi ▸ .holding pid pool clists)
  | reconcile procExists c c' hread hlive hrun => exact h
  | die i => exact h.update fun _ _ _ hw => nomatch hw

/-- What every run from a fresh configmap keeps of that configmap's layout, and of its wrappers. -/
theorem Node.Run.locs (hd : d.Fresh) (h : Node.Run ctor d s) :
    (s.config.entries.map Entry.loc).Perm (d.entries.map Entry.loc) ∧ s.Tidy := by
  induction h with
  | refl => exact ⟨.refl _, fun i pid pool clists hw => nomatch hw⟩
  | tail hrun hs ih =>
    have hu := (Node.Run.sound hd hrun).unique
    exact ⟨(Node.sim hu hs).1.trans ih.1, ih.2.step hu hs⟩

end Runs

/-! ## Counting -/

theorem Determined.card_filter_names {κ τ : Type} [DecidableEq κ] {es : List (Entry κ τ)}
    (h : Determined es) (hnd : es.Nodup) (P : String × κ → Prop) [DecidablePred P] :
    ((es.map Entry.name).toFinset.filter P).card = (es.filter fun e => P e.name).length := by
  have hnames : (es.map Entry.name).Nodup :=
    hnd.map_on fun e he e' he' hn => h e he e' he' hn
  have hfilter : (es.map Entry.name).toFinset.filter P =
      ((es.map Entry.name).filter fun r => P r).toFinset := by
    ext r
    simp
  rw [hfilter, List.toFinset_card_of_nodup (hnames.filter _), List.filter_map, List.length_map]
  rfl

/-- The CPU lists of a pool. -/
def Node.listsIn (s : Node ι) (pool : String) : List (Entry String String) :=
  s.config.entries.filter fun e => e.pool = pool

/-- Their names. -/
def Node.namesIn (s : Node ι) (pool : String) : Finset (String × String) :=
  ((s.listsIn pool).map Entry.name).toFinset

theorem Node.mem_listsIn {s : Node ι} {pool : String} {e : Entry String String} :
    e ∈ s.listsIn pool ↔ e ∈ s.config.entries ∧ e.pool = pool := by
  simp [Node.listsIn]

section Account

variable {s : Node ι} {pool : String}

theorem Node.Sound.determined (h : s.Sound) : Determined s.config.entries :=
  h.unique.determined s.config.nodup_loc

theorem Node.Sound.book_name (h : s.Sound) {e : Entry String String} (he : e ∈ s.config.entries) :
    s.ledger.book e.name = e.tasks := bookOf_eq_tasks h.determined he

theorem Node.Sound.stray_iff (h : s.Sound) {e : Entry String String}
    (he : e ∈ s.config.entries) :
    s.ledger.Stray e.name ↔ e.tasks ≠ [] ∧ ∀ i, e.coreId ∉ (s.wrappers i).heldIn e.pool := by
  rw [Lease.Ledger.Stray, h.book_name he]
  exact and_congr_right fun _ => forall_congr' fun i => not_congr Wrapper.mem_held_party

theorem Node.Sound.card_filter_namesIn (h : s.Sound) (P : String × String → Prop)
    [DecidablePred P] : ((s.namesIn pool).filter P).card =
      ((s.listsIn pool).filter fun e => P e.name).length := by
  have hnd : s.config.entries.Nodup := .of_map _ s.config.nodup_loc
  refine Determined.card_filter_names (fun e he e' he' => ?_) (hnd.filter _) P
  exact h.determined e (mem_listsIn.mp he).1 e' (mem_listsIn.mp he').1

/-- The lists with a task, counted by their names. -/
theorem Node.Sound.card_occupied (h : s.Sound) :
    ((s.namesIn pool).filter fun r => s.ledger.book r ≠ []).card =
      ((s.listsIn pool).filter fun e => e.tasks ≠ []).length := by
  rw [h.card_filter_namesIn]
  refine congrArg List.length (List.filter_congr fun e he => ?_)
  rw [h.book_name (mem_listsIn.mp he).1]

theorem Node.Sound.card_stray [Fintype ι] (h : s.Sound) :
    ((s.namesIn pool).filter s.ledger.Stray).card = (s.strayIn pool).length := by
  rw [h.card_filter_namesIn, Node.listsIn, List.filter_filter, Node.strayIn]
  refine congrArg List.length (List.filter_congr fun e he => ?_)
  rw [Bool.eq_iff_iff, Bool.and_eq_true, decide_eq_true_eq, decide_eq_true_eq, decide_eq_true_eq,
    h.stray_iff he, and_comm]
  exact and_congr_right fun hp => hp ▸ Iff.rfl

theorem Node.Sound.card_held (h : s.Sound) (htidy : s.Tidy) (i : ι) :
    ((s.namesIn pool).filter fun r => r ∈ (s.ledger.party i).held).card =
      ((s.wrappers i).heldIn pool).length := by
  have hheld : ((s.namesIn pool).filter fun r => r ∈ (s.ledger.party i).held) =
      (((s.wrappers i).heldIn pool).map (pool, ·)).toFinset := by
    ext ⟨p, cl⟩
    simp only [Node.namesIn, Finset.mem_filter, List.mem_toFinset, List.mem_map, mem_listsIn]
    constructor
    · rintro ⟨⟨e, ⟨he, hp⟩, hn⟩, hmem⟩
      obtain rfl : pool = p := hp.symm.trans (congrArg Prod.fst hn)
      exact ⟨cl, Wrapper.mem_held_party.mp hmem, rfl⟩
    · rintro ⟨cl', hmem, heq⟩
      obtain ⟨rfl, rfl⟩ := Prod.mk.inj heq
      refine ⟨?_, Wrapper.mem_held_party.mpr hmem⟩
      obtain hnil | ⟨pid, hw⟩ := (s.wrappers i).heldIn_cases pool
      · rw [hnil] at hmem
        exact absurd hmem List.not_mem_nil
      · obtain ⟨e, he, hp, hc, -⟩ := h.inv.listed hw cl' hmem
        exact ⟨e, ⟨he, hp⟩, by rw [Entry.name, hp, hc]⟩
  have hnd : ((s.wrappers i).heldIn pool).Nodup := by
    obtain hnil | ⟨pid, hw⟩ := (s.wrappers i).heldIn_cases pool
    · exact hnil ▸ List.nodup_nil
    · exact htidy i pid pool _ hw
  rw [hheld, List.toFinset_card_of_nodup (hnd.map fun _ _ hp => (Prod.mk.inj hp).2),
    List.length_map]

/-- **The account of an exclusive pool**: its lists are those without a task, those in use by a
wrapper and the stray ones. -/
theorem Node.Sound.account [Fintype ι] (h : s.Sound) (htidy : s.Tidy)
    (hex : exclusivity pool = some true) :
    ((s.listsIn pool).filter fun e => e.tasks = []).length + s.inUse pool =
      (s.listsIn pool).length := by
  have hnames : ∀ r ∈ s.namesIn pool, ExclusiveList r := by
    intro r hr
    obtain ⟨e, he, rfl⟩ := List.mem_map.mp (List.mem_toFinset.mp hr)
    rw [ExclusiveList, Entry.name, (mem_listsIn.mp he).2]
    exact hex
  have hcount : ((s.listsIn pool).filter fun e => e.tasks ≠ []).length = s.inUse pool := by
    rw [← h.card_occupied, h.ledger.card_occupied hnames, h.card_stray, Node.inUse]
    refine congrArg (· + _) (Finset.sum_congr rfl fun i _ => ?_)
    convert h.card_held htidy i
  rw [← hcount]
  have hsplit := List.length_eq_length_filter_add (l := s.listsIn pool)
    fun e => decide (e.tasks = [])
  rw [hsplit]
  simp only [decide_not]

end Account

/-! ## What a request is granted -/

section Requests

variable [DecidableEq ι] {ctor : Except PyErr Unit} {d : ConfDict String String} {s s' : Node ι}

omit [DecidableEq ι] in
/-- The free lists that a section reads are those of the stored dictionary. -/
theorem Node.Reads.length_freeIn {c : Conf String String} (h : s.Reads c) (pool : String) :
    (c.freeIn pool).length = ((s.listsIn pool).filter fun e => e.tasks = []).length := by
  have hempty : ∀ e : Entry String String, e.tasks.isEmpty = decide (e.tasks = []) := fun e => by
    cases e.tasks <;> rfl
  rw [Conf.freeIn, Conf.listsIn, Node.listsIn]
  simp only [hempty]
  exact (((h.entries.filter _).filter _).symm).length_eq

omit [DecidableEq ι] in
theorem length_listsIn_of_locs
    (h : (s.config.entries.map Entry.loc).Perm (d.entries.map Entry.loc)) (pool : String) :
    (s.listsIn pool).length = d.capacity pool := by
  have hcount : ∀ es : List (Entry String String), (es.filter fun e => e.pool = pool).length =
      ((es.map Entry.loc).filter fun l => l.1 = pool).length := fun es => by
    rw [List.filter_map, List.length_map]
    rfl
  rw [Node.listsIn, ConfDict.capacity, hcount, hcount]
  exact (h.filter _).length_eq

omit [DecidableEq ι] in
/-- A request is granted exactly when that many lists are not in use. -/
theorem Node.Sound.granted_iff [Fintype ι] (h : s.Sound) (htidy : s.Tidy) {c : Conf String String}
    (hread : s.Reads c) {args : IsolateArgs} {env : IsolateEnv} {pid n : ℤ}
    (hex : exclusivity args.poolName = some true) (hsel : args.selectedSocket = none)
    (hpid : ∀ k, env.getpid k = .ok pid) (hn : env.nCpus = .ok n) :
    IsOk (isolateSection args env c).1 ↔
      1 ≤ n ∧ n + s.inUse args.poolName ≤ (s.listsIn args.poolName).length := by
  have haccount := h.account htidy hex
  rw [← hread.length_freeIn] at haccount
  rw [isOk_isolateSection_iff hread.known hsel hpid, exists_asked_of_exclusive hex]
  constructor
  · rintro ⟨m, hm, hpos, hle⟩
    obtain rfl := Except.ok.inj (hm.symm.trans hn)
    exact ⟨hpos, by omega⟩
  · rintro ⟨hpos, hle⟩
    exact ⟨n, hn, hpos, by omega⟩

/-- **A request to an exclusive pool is granted exactly when it fits**, in every state of every run
from a fresh configmap: into what the configmap was written with, less what wrappers hold and what
is stray. -/
theorem request_granted_iff [Fintype ι] (ctor : Except PyErr Unit) (d : ConfDict String String)
    (hd : d.Fresh) (s : Node ι) (h : Node.Run ctor d s) (c : Conf String String)
    (hread : s.Reads c) (args : IsolateArgs) (env : IsolateEnv) (pid n : ℤ)
    (hex : exclusivity args.poolName = some true) (hsel : args.selectedSocket = none)
    (hpid : ∀ k, env.getpid k = .ok pid) (hn : env.nCpus = .ok n) :
    IsOk (isolateSection args env c).1 ↔
      1 ≤ n ∧ n + s.inUse args.poolName ≤ d.capacity args.poolName := by
  obtain ⟨hlocs, htidy⟩ := h.locs hd
  rw [← length_listsIn_of_locs hlocs]
  exact (h.sound hd).granted_iff htidy hread hex hsel hpid hn

/-! ## Careful runs -/

omit [DecidableEq ι] in
theorem mem_bookOf {es : List (Entry String String)} {r : String × String} {t : String}
    (h : t ∈ bookOf es r) : ∃ e ∈ es, e.name = r ∧ t ∈ e.tasks := by
  rw [bookOf] at h
  cases hf : es.find? fun e => e.name = r with
  | none =>
    rw [hf] at h
    exact absurd h List.not_mem_nil
  | some e =>
    rw [hf] at h
    exact ⟨e, List.mem_of_find?_eq_some hf, by simpa using List.find?_some hf, h⟩

/-- A wrapper that starts does so under a pid that is recorded nowhere, and one whose allocation
fails has recorded nothing. -/
structure Node.Careful (s s' : Node ι) : Prop where
  start : ∀ i pid, (s.wrappers i).pid? = none → (s'.wrappers i).pid? = some pid →
    ∀ e ∈ s.config.entries, taskOf String pid ∉ e.tasks
  failed : ∀ i pid, s.wrappers i = .started pid → s'.wrappers i = .failed pid →
    s.config.SameData s'.config

/-- What the node can reach by such steps. -/
def Node.CarefulRun (ctor : Except PyErr Unit) (d : ConfDict String String) : Node ι → Prop :=
  Relation.ReflTransGen (fun s s' => Node.Step ctor s s' ∧ s.Careful s') (Node.fresh d)

theorem Node.CarefulRun.run (h : Node.CarefulRun ctor d s) : Node.Run ctor d s :=
  Relation.ReflTransGen.mono (fun _ _ hs => hs.1) _ _ h

/-- Of a wrapper that was waiting and is done, the allocation has failed. -/
theorem Node.Step.failed_of_done (hs : Node.Step ctor s s') {i : ι} {t t' : String}
    (hi : (s.wrappers i).party = .waiting t) (hi' : (s'.wrappers i).party = .done t') :
    ∃ pid, s.wrappers i = .started pid ∧ s'.wrappers i = .failed pid := by
  have hput : ∀ {j : ι} {w : Wrapper}, (Function.update s.wrappers j w i).party = .done t' →
      i = j ∧ w.party = .done t' := by
    intro j w hw
    by_cases hij : i = j
    · subst hij
      exact ⟨rfl, by rwa [Function.update_self] at hw⟩
    · rw [Function.update_of_ne hij, hi] at hw
      nomatch hw
  cases hs with
  | start j pid hj _ => nomatch (hput hi').2
  | allocate j pid args env c c' clists hj _ _ _ => nomatch (hput hi').2
  | allocateError j pid args env c c' e hj _ _ _ =>
    obtain rfl := (hput hi').1
    exact ⟨pid, hj, Function.update_self ..⟩
  | finish j pid pool clists getpid c c' hj _ _ _ =>
    obtain rfl := (hput hi').1
    rw [hj] at hi
    nomatch hi
  | finishError j pid pool clists getpid c e hj _ _ _ => nomatch (hput hi').2
  | reconcile procExists c c' _ _ _ =>
    rw [hi] at hi'
    nomatch hi'
  | die j => nomatch (hput hi').2

/-- A careful step of the node is a careful step of the ledger. -/
theorem Node.Careful.ledger (h : s.Careful s') (hu : UniqueNames s.config.entries)
    (hs : Node.Step ctor s s') : Lease.Careful s.ledger s'.ledger where
  arrival i t hnone hsome r ht := by
    obtain ⟨pid, hpid, rfl⟩ := Option.map_eq_some_iff.mp ((s'.wrappers i).token?_party ▸ hsome)
    have hnone' := Option.map_eq_none_iff.mp ((s.wrappers i).token?_party ▸ hnone)
    obtain ⟨e, he, -, hmem⟩ := mem_bookOf ht
    exact h.start i pid hnone' hpid e he hmem
  failure i t hwait hdone := by
    obtain ⟨pid, hi, hi'⟩ := hs.failed_of_done hwait hdone
    exact (bookOf_perm (hu.determined s.config.nodup_loc) (h.failed i pid hi hi').entries).symm

/-- **In a careful run** a wrapper's pid is recorded under what the wrapper holds and nothing else,
and every task is the text of a pid. -/
theorem Node.CarefulRun.owned (hd : d.Fresh) (h : Node.CarefulRun ctor d s) :
    Lease.Owned s.ledger ∧ ∀ r, ∀ t ∈ s.ledger.book r, ∃ pid, t = taskOf String pid := by
  induction h with
  | refl =>
    have hbook : ∀ r, (Node.fresh d : Node ι).ledger.book r = [] := bookOf_of_no_tasks hd.empty
    refine ⟨fun i t _ r ht => ?_, fun r t ht => ?_⟩
    · exact absurd (hbook r ▸ ht) List.not_mem_nil
    · exact absurd (hbook r ▸ ht) List.not_mem_nil
  | @tail s s' hrun hstep ih =>
    obtain ⟨hs, hcareful⟩ := hstep
    have hsound := (Node.CarefulRun.run hrun).sound hd
    rcases (Node.sim hsound.unique hs).2 with hsame | hledger
    · exact hsame ▸ ih
    · refine ⟨ih.1.step hsound.ledger hledger (hcareful.ledger hsound.unique hs), fun r t ht => ?_⟩
      obtain hold | ⟨i, hi⟩ := hledger.mem_book ht
      · exact ih.2 r t hold
      · obtain ⟨pid, -, rfl⟩ := Option.map_eq_some_iff.mp ((s.wrappers i).token?_party ▸ hi)
        exact ⟨pid, rfl⟩

/-- A reconciliation is a careful step. -/
theorem Node.CarefulRun.reconcile (h : Node.CarefulRun ctor d s)
    {procExists : ℕ → ℤ → Except PyErr Bool} {c c' : Conf String String} (hread : s.Reads c)
    (hlive : ∀ pid, s.Live pid → ∀ k, procExists k pid = .ok true)
    (hrun : reconcileSection procExists c = .ok c') :
    Node.CarefulRun ctor d { s with config := buildConfigmap c' } := by
  refine h.tail ⟨.reconcile procExists c c' hread hlive hrun, fun i pid hnone hsome => ?_,
    fun i pid hi hi' => ?_⟩
  · exact absurd (hnone.symm.trans hsome) (by simp)
  · exact absurd (hi.symm.trans hi') (by simp)

/-- **After a reconciliation that follows a careful run**, and that finds no process but the
wrappers', nothing is stray. -/
theorem Node.CarefulRun.not_stray (hd : d.Fresh) (h : Node.CarefulRun ctor d s)
    {procExists : ℕ → ℤ → Except PyErr Bool} {c c' : Conf String String} (hread : s.Reads c)
    (hlive : ∀ pid, s.Live pid → ∀ k, procExists k pid = .ok true)
    (hfound : ∀ k pid, procExists k pid = .ok true → s.Live pid)
    (hrun : reconcileSection procExists c = .ok c') (r : String × String) :
    ¬ ({ s with config := buildConfigmap c' } : Node ι).ledger.Stray r := by
  have huc := (hread.book (h.run.sound hd).unique).1
  obtain ⟨hown, htext⟩ := (h.reconcile hread hlive hrun).owned hd
  refine hown.not_stray (fun r t ht => ?_) r
  obtain ⟨pid, rfl⟩ := htext r t ht
  obtain ⟨e, he, -, hmem⟩ := mem_bookOf ht
  rw [entries_buildConfigmap] at he
  obtain ⟨k, hk⟩ := exists_there_of_reconcileSection intOfStr_toString huc hrun he hmem
  obtain ⟨i, hi⟩ := hfound k pid hk
  exact ⟨i, by rw [Node.ledger, Wrapper.token?_party, hi]; rfl⟩

/-- After it only what wrappers hold is in use. -/
theorem Node.CarefulRun.inUse_reconciled [Fintype ι] (hd : d.Fresh) (h : Node.CarefulRun ctor d s)
    {procExists : ℕ → ℤ → Except PyErr Bool} {c c' : Conf String String} (hread : s.Reads c)
    (hlive : ∀ pid, s.Live pid → ∀ k, procExists k pid = .ok true)
    (hfound : ∀ k pid, procExists k pid = .ok true → s.Live pid)
    (hrun : reconcileSection procExists c = .ok c') (pool : String) :
    ({ s with config := buildConfigmap c' } : Node ι).inUse pool =
      ∑ i, ((s.wrappers i).heldIn pool).length := by
  have hsound := (h.reconcile hread hlive hrun).run.sound hd
  have hstray : ({ s with config := buildConfigmap c' } : Node ι).strayIn pool = [] := by
    refine List.filter_eq_nil_iff.mpr fun e he hstray => ?_
    obtain ⟨hp, hne⟩ := of_decide_eq_true hstray
    exact h.not_stray hd hread hlive hfound hrun e.name ((hsound.stray_iff he).mpr (hp ▸ hne))
  rw [Node.inUse, hstray, List.length_nil, Nat.add_zero]

end Requests

/-- What `isolate` stores when it takes one of the two lists. -/
def oneTaken : Conf String String :=
  (isolateSection (τ := String) ⟨"exclusive", some "-1"⟩ ⟨none, 0, fun _ => .ok 7⟩
    ⟨twoLists.map buildPool name_buildPool⟩).2

/-- The node after a wrapper was allocated a list and died. -/
def oneDied : Node Unit := ⟨buildConfigmap oneTaken, fun _ => .dead⟩

theorem oneDied_run : Node.CarefulRun (.ok ()) twoLists oneDied := by
  have h : Node.CarefulRun (.ok ()) twoLists (Node.fresh twoLists : Node Unit) := .refl
  have hnew : ∀ pid : ℤ, ∀ e ∈ twoLists.entries, taskOf String pid ∉ e.tasks :=
    fun pid e he => by simp [twoLists_fresh.empty e he]
  replace h := h.tail ⟨.start () 7 rfl (by unfold Node.Live; decide),
    ⟨fun _ pid _ _ => hnew pid, fun _ _ hi => (nomatch hi)⟩⟩
  replace h := h.tail ⟨.allocate () 7 ⟨"exclusive", some "-1"⟩ ⟨none, 0, fun _ => .ok 7⟩ _ oneTaken
    ["1"] rfl ⟨_, .refl _, rfl⟩ (by simp) rfl,
    ⟨fun _ _ hi => (nomatch hi), fun _ _ _ hi => (nomatch hi)⟩⟩
  exact h.tail ⟨.die (), ⟨fun _ _ hi => (nomatch hi), fun _ _ _ hi => (nomatch hi)⟩⟩

/-- Of two lists one is stray, so a request for two is refused. -/
theorem request_granted_iff_died : ¬ IsOk (isolateSection ⟨"exclusive", some "-1"⟩
    ⟨some "2", 0, fun _ => .ok 8⟩ oneTaken).1 := by
  rw [request_granted_iff (.ok ()) twoLists twoLists_fresh oneDied oneDied_run.run oneTaken
    ⟨_, .refl _, rfl⟩ ⟨"exclusive", some "-1"⟩ ⟨some "2", 0, fun _ => .ok 8⟩ 8 2 rfl rfl
    (fun _ => rfl) rfl]
  decide

end Cmk
