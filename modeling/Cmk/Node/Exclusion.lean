import Cmk.Machinery.Lease
import Cmk.Node.System

/-!
# Node/Exclusion — a CPU list of an exclusive pool has one task

The configmap is a ledger in the sense of `Machinery/Lease`: its resources are the CPU lists, under
pool and name, and its tokens are the texts of the wrappers' pids (`Node.ledger`).  From a configmap
with unique names every step of the node is a step of the ledger or none at all (`Node.sim`), so the
ledger's invariant holds of the node and gives the guarantee (`exclusive_mutual_exclusion`).
-/

open Machinery

namespace Cmk

/-! ## The tasks recorded under a name -/

section Book

variable {κ τ : Type}

/-- Pool and name of an entry. -/
def Entry.name (e : Entry κ τ) : String × κ := (e.pool, e.coreId)

@[simp] theorem Entry.name_rewrite (F : String × κ → List τ → List τ) (e : Entry κ τ) :
    (e.rewrite F).name = e.name := rfl

/-- Pool and name say which entry it is. -/
def Determined (es : List (Entry κ τ)) : Prop :=
  ∀ e ∈ es, ∀ e' ∈ es, e.name = e'.name → e = e'

theorem UniqueNames.determined {es : List (Entry κ τ)} (hu : UniqueNames es)
    (hnd : (es.map Entry.loc).Nodup) : Determined es := by
  intro e he e' he' h
  have hp : e.pool = e'.pool := congrArg Prod.fst h
  have hc : e.coreId = e'.coreId := congrArg Prod.snd h
  exact List.inj_on_of_nodup_map hnd he he'
    (Prod.ext hp (Prod.ext (hu e he e' he' hp hc) hc))

theorem Determined.perm {es es' : List (Entry κ τ)} (h : Determined es) (hp : es.Perm es') :
    Determined es' := fun e he e' he' =>
  h e (hp.symm.subset he) e' (hp.symm.subset he')

variable [DecidableEq κ]

/-- The tasks recorded under a pool and a name. -/
def bookOf (es : List (Entry κ τ)) (r : String × κ) : List τ :=
  ((es.find? fun e => e.name = r).map Entry.tasks).getD []

theorem bookOf_eq_tasks {es : List (Entry κ τ)} (h : Determined es) {e : Entry κ τ} (he : e ∈ es) :
    bookOf es e.name = e.tasks := by
  rw [bookOf]
  cases hf : es.find? fun x => x.name = e.name with
  | none => simpa using List.find?_eq_none.mp hf e he
  | some x =>
    have hx : x.name = e.name := by simpa using List.find?_some hf
    rw [h x (List.mem_of_find?_eq_some hf) e he hx]
    rfl

theorem bookOf_eq_nil {es : List (Entry κ τ)} {r : String × κ} (h : ∀ e ∈ es, e.name ≠ r) :
    bookOf es r = [] := by
  have hf : es.find? (fun e => e.name = r) = none := List.find?_eq_none.mpr (by simpa using h)
  rw [bookOf, hf]
  rfl

theorem bookOf_of_no_tasks {es : List (Entry κ τ)} (h : ∀ e ∈ es, e.tasks = []) (r : String × κ) :
    bookOf es r = [] := by
  rw [bookOf]
  cases hf : es.find? fun e => e.name = r with
  | none => rfl
  | some e => exact h e (List.mem_of_find?_eq_some hf)

theorem bookOf_perm {es es' : List (Entry κ τ)} (h : Determined es) (hp : es.Perm es') :
    bookOf es = bookOf es' := by
  funext r
  by_cases hex : ∃ e ∈ es, e.name = r
  · obtain ⟨e, he, rfl⟩ := hex
    rw [bookOf_eq_tasks h he, bookOf_eq_tasks (h.perm hp) (hp.subset he)]
  · have hno : ∀ e ∈ es, e.name ≠ r := fun e he hr => hex ⟨e, he, hr⟩
    rw [bookOf_eq_nil hno, bookOf_eq_nil fun e he => hno e (hp.symm.subset he)]

omit [DecidableEq κ] in
theorem Determined.map_rewrite {es : List (Entry κ τ)} (h : Determined es)
    (F : String × κ → List τ → List τ) : Determined (es.map (Entry.rewrite F)) := by
  intro e he e' he' hn
  obtain ⟨x, hx, rfl⟩ := List.mem_map.mp he
  obtain ⟨y, hy, rfl⟩ := List.mem_map.mp he'
  rw [h x hx y hy hn]

/-- **Rewriting by name rewrites the book.** -/
theorem bookOf_map_rewrite {es : List (Entry κ τ)} (h : Determined es)
    (F : String × κ → List τ → List τ) (r : String × κ) :
    bookOf (es.map (Entry.rewrite F)) r =
      if ∃ e ∈ es, e.name = r then F r (bookOf es r) else [] := by
  split
  · rename_i hex
    obtain ⟨e, he, rfl⟩ := hex
    have hm := bookOf_eq_tasks (h.map_rewrite F) (List.mem_map_of_mem he)
    rw [Entry.name_rewrite] at hm
    rw [hm, bookOf_eq_tasks h he]
    rfl
  · rename_i hno
    refine bookOf_eq_nil fun e he hr => hno ?_
    obtain ⟨x, hx, rfl⟩ := List.mem_map.mp he
    exact ⟨x, hx, hr⟩

end Book

/-! ## The node as a ledger -/

def Wrapper.party : Wrapper → Lease.Party String (String × String)
  | absent => .absent
  | started pid => .waiting (taskOf String pid)
  | failed pid => .done (taskOf String pid)
  | holding pid pool clists => .holding (taskOf String pid) (clists.map (pool, ·))
  | ended pid pool clists (.error _) => .holding (taskOf String pid) (clists.map (pool, ·))
  | ended pid _ _ (.ok ()) => .done (taskOf String pid)
  | dead => .gone

theorem Wrapper.token?_party (w : Wrapper) : w.party.token? = w.pid?.map (taskOf String) := by
  match w with
  | absent | started _ | failed _ | holding _ _ _ | ended _ _ _ (.error _) | ended _ _ _ (.ok ())
  | dead => rfl

theorem Wrapper.Unreleased.party {w : Wrapper} {pid : ℤ} {pool : String} {clists : List String}
    (h : w.Unreleased pid pool clists) :
    w.party = .holding (taskOf String pid) (clists.map (pool, ·)) := by
  cases h <;> rfl

variable {ι : Type}

def Node.ledger (s : Node ι) : Lease.Ledger ι String (String × String) :=
  ⟨bookOf s.config.entries, fun i => (s.wrappers i).party⟩

theorem Node.live_ledger {s : Node ι} {pid : ℤ} (h : s.ledger.Live (taskOf String pid)) :
    s.Live pid := by
  obtain ⟨i, hi⟩ := h
  obtain ⟨q, hq, hqp⟩ := Option.map_eq_some_iff.mp ((s.wrappers i).token?_party ▸ hi)
  exact ⟨i, taskOf_string_injective hqp ▸ hq⟩

/-- The exclusive resources. -/
def ExclusiveList (r : String × String) : Prop := exclusivity r.1 = some true

/-- What a section reads, where names are unique: they still are, and the book is the same. -/
theorem Node.Reads.book {s : Node ι} {c : Conf String String} (h : s.Reads c)
    (hu : UniqueNames s.config.entries) :
    UniqueNames c.entries ∧ bookOf s.config.entries = bookOf c.entries := by
  have hp := h.entries
  have huc : UniqueNames c.entries := fun e he e' he' =>
    hu e (hp.symm.subset he) e' (hp.symm.subset he')
  exact ⟨huc, bookOf_perm ((huc.determined c.nodup_loc).perm hp.symm) hp⟩

/-- Recording a pid under names that are there. -/
theorem bookOf_appendAt {c c' : Conf String String} (hd : Determined c.entries) {pool : String}
    {clists : List String} {t : String}
    (hent : c'.entries = c.entries.map (Entry.rewrite (appendAt pool clists t)))
    (hex : ∀ cl ∈ clists, ∃ e ∈ c.entries, e.name = (pool, cl)) :
    bookOf (buildConfigmap c').entries =
      Lease.record (bookOf c.entries) t (clists.map (pool, ·)) := by
  funext r
  have hmem : r ∈ clists.map (pool, ·) ↔ r.1 = pool ∧ r.2 ∈ clists := by
    simp [Prod.ext_iff, and_comm, eq_comm]
  rw [entries_buildConfigmap, hent, bookOf_map_rewrite hd, Lease.record]
  split
  · simp only [appendAt, hmem]
  · rename_i hno
    have hr : r ∉ clists.map (pool, ·) := fun hr => by
      obtain ⟨cl, hcl, rfl⟩ := List.mem_map.mp hr
      exact hno (hex cl hcl)
    rw [if_neg hr, bookOf_eq_nil fun e he h => hno ⟨e, he, h⟩]

theorem bookOf_dropAt {c c' : Conf String String} (hd : Determined c.entries) {pool : String}
    {clists : List String} {t : String}
    (hent : c'.entries = c.entries.map (Entry.rewrite (dropAt pool clists t))) :
    bookOf (buildConfigmap c').entries =
      Lease.erase (bookOf c.entries) t (clists.map (pool, ·)) := by
  funext r
  have hmem : r ∈ clists.map (pool, ·) ↔ r.1 = pool ∧ r.2 ∈ clists := by
    simp [Prod.ext_iff, and_comm, eq_comm]
  rw [entries_buildConfigmap, hent, bookOf_map_rewrite hd, Lease.erase]
  split
  · simp only [dropAt, hmem]
  · rename_i hno
    rw [bookOf_eq_nil fun e he h => hno ⟨e, he, h⟩]
    split <;> rfl

section Simulation

variable [DecidableEq ι] {ctor : Except PyErr Unit} {s s' : Node ι}

theorem Node.ledger_update (config : ConfDict String String) (wrappers : ι → Wrapper) (i : ι)
    (w : Wrapper) :
    (⟨config, Function.update wrappers i w⟩ : Node ι).ledger =
      ⟨bookOf config.entries, Function.update (fun j => (wrappers j).party) i w.party⟩ := by
  rw [Node.ledger, Lease.Ledger.mk.injEq]
  exact ⟨rfl, Function.comp_update Wrapper.party wrappers i w⟩

/-- To the ledger a wrapper whose last block raised still holds its lists. -/
theorem Node.ledger_ended_error {i : ι} {pid : ℤ} {pool : String} {clists : List String}
    (hi : s.wrappers i = .holding pid pool clists) (e : PyErr) :
    ({ s with wrappers := Function.update s.wrappers i (.ended pid pool clists (.error e)) } :
      Node ι).ledger = s.ledger := by
  rw [Node.ledger_update, Node.ledger, Lease.Ledger.mk.injEq]
  refine ⟨rfl, funext fun j => ?_⟩
  by_cases hj : j = i
  · rw [hj, Function.update_self, hi]
    rfl
  · rw [Function.update_of_ne hj]

omit [DecidableEq ι] in
/-- A section that rewrites tasks by name moves no entry. -/
theorem locs_of_rewrite {c c' : Conf String String} (hread : s.Reads c)
    {F : String × String → List String → List String}
    (hent : c'.entries = c.entries.map (Entry.rewrite F)) :
    ((buildConfigmap c').entries.map Entry.loc).Perm (s.config.entries.map Entry.loc) := by
  rw [entries_buildConfigmap, hent, map_loc_map (Entry.loc_rewrite F)]
  exact (hread.entries.map Entry.loc).symm

omit [DecidableEq ι] in
/-- What an allocation section does to the ledger, whether it raises or not. -/
theorem isolateSection_ledger (hu : UniqueNames s.config.entries) {args : IsolateArgs}
    {env : IsolateEnv} {pid : ℤ} (hpid : ∀ k q, env.getpid k = .ok q → q = pid)
    {c c' : Conf String String} (hread : s.Reads c) {r : Except PyErr (List String)}
    (hrun : isolateSection args env c = (r, c')) :
    ∃ done, (∀ clists, r = .ok clists → done = clists) ∧
      ((buildConfigmap c').entries.map Entry.loc).Perm (s.config.entries.map Entry.loc) ∧
      bookOf (buildConfigmap c').entries =
        Lease.record s.ledger.book (taskOf String pid) (done.map (args.poolName, ·)) ∧
      ∀ r ∈ done.map (args.poolName, ·), ExclusiveList r → s.ledger.book r = [] := by
  obtain ⟨huc, hbook⟩ := hread.book hu
  obtain ⟨done, -, hok, hrec, hfree⟩ := isolateSection_spec hpid hread.known huc hrun
  have hent := hrec ▸ c.entries_rewrite (appendAt args.poolName done (taskOf String pid))
  have hname : ∀ cl ∈ done, ∃ e ∈ c.entries, e.name = (args.poolName, cl) ∧
      (exclusivity args.poolName = some true → e.tasks = []) := fun cl hcl => by
    obtain ⟨e, he, hp, rfl, hempty⟩ := hfree cl hcl
    exact ⟨e, he, by rw [Entry.name, hp], hempty⟩
  refine ⟨done, hok, locs_of_rewrite hread hent, ?_, fun r hr hex => ?_⟩
  · rw [bookOf_appendAt (huc.determined c.nodup_loc) hent fun cl hcl => ?_, ← hbook]
    · rfl
    · obtain ⟨e, he, hn, -⟩ := hname cl hcl
      exact ⟨e, he, hn⟩
  · obtain ⟨cl, hcl, rfl⟩ := List.mem_map.mp hr
    obtain ⟨e, he, hn, hempty⟩ := hname cl hcl
    have hb := bookOf_eq_tasks (huc.determined c.nodup_loc) he
    rw [hn, hempty hex] at hb
    exact (congrFun hbook _).trans hb

/-- **The simulation.**  Where names are unique, a step of the node moves no CPU list and is a step
of the ledger or leaves it alone. -/
theorem Node.sim (hu : UniqueNames s.config.entries) (h : Node.Step ctor s s') :
    (s'.config.entries.map Entry.loc).Perm (s.config.entries.map Entry.loc) ∧
      (s'.ledger = s.ledger ∨ Lease.Step ExclusiveList s.ledger s'.ledger) := by
  have hparty : ∀ {i : ι} {w : Wrapper}, s.wrappers i = w → s.ledger.party i = w.party :=
    fun hi => congrArg Wrapper.party hi
  cases h with
  | start i pid hi hp =>
    refine ⟨.refl _, .inr ?_⟩
    rw [Node.ledger_update]
    exact .arrive i (taskOf String pid) (hparty hi) fun hl => hp (live_ledger hl)
  | allocate i pid args env c c' clists hi hread hpid hrun =>
    obtain ⟨done, hok, hlocs, hbook, hfree⟩ := isolateSection_ledger hu hpid hread hrun
    obtain rfl := hok clists rfl
    refine ⟨hlocs, .inr ?_⟩
    rw [Node.ledger_update, hbook]
    exact .grant i (taskOf String pid) _ (hparty hi) hfree
  | allocateError i pid args env c c' e hi hread hpid hrun =>
    obtain ⟨done, -, hlocs, hbook, hfree⟩ := isolateSection_ledger hu hpid hread hrun
    refine ⟨hlocs, .inr ?_⟩
    rw [Node.ledger_update, hbook]
    exact .fail i (taskOf String pid) _ (hparty hi) hfree
  | finish i pid pool clists getpid c c' hi hread hpid hrun =>
    obtain ⟨huc, hbook⟩ := hread.book hu
    obtain ⟨q, hq, hent⟩ := releaseSection_spec huc (finallyBlock_ok hrun).2
    obtain rfl := hpid q hq
    refine ⟨locs_of_rewrite hread hent, .inr ?_⟩
    rw [Node.ledger_update, bookOf_dropAt (huc.determined c.nodup_loc) hent, ← hbook]
    exact .release i (taskOf String q) _ (hparty hi)
  | finishError i pid pool clists getpid c e hi hread hpid hrun =>
    exact ⟨.refl _, .inl (Node.ledger_ended_error hi e)⟩
  | reconcile procExists c c' hread hlive hrun =>
    obtain ⟨huc, hbook⟩ := hread.book hu
    obtain ⟨keep, hent, hkeep⟩ := reconcileSection_spec taskOf_string_injective huc hrun
    refine ⟨locs_of_rewrite hread hent, .inr ?_⟩
    have hnew : ∀ r, bookOf (buildConfigmap c').entries r = (s.ledger.book r).filter (keep r) := by
      intro r
      rw [entries_buildConfigmap, hent, bookOf_map_rewrite (huc.determined c.nodup_loc),
        Node.ledger, hbook]
      split
      · rfl
      · rename_i hno
        exact (congrArg (List.filter (keep r)) (bookOf_eq_nil fun e he h => hno ⟨e, he, h⟩)).symm
    refine .sweep _ (fun r => hnew r ▸ List.filter_sublist) fun r t ht hl => ?_
    rw [hnew r]
    obtain ⟨j, hj⟩ := hl
    obtain ⟨q, hq, rfl⟩ := Option.map_eq_some_iff.mp ((s.wrappers j).token?_party ▸ hj)
    exact List.mem_filter.mpr ⟨ht, hkeep r q (hlive q ⟨j, hq⟩)⟩
  | die i =>
    refine ⟨.refl _, .inr ?_⟩
    rw [Node.ledger_update]
    exact .leave i

/-! ## From a configmap as `new` writes it -/

/-- **What every run from a fresh configmap keeps**: its layout and the two invariants. -/
structure Node.Sound (s : Node ι) : Prop where
  layout : ∃ d : ConfDict String String, d.Fresh ∧
    (s.config.entries.map Entry.loc).Perm (d.entries.map Entry.loc)
  ledger : Lease.Inv ExclusiveList s.ledger
  inv : s.Inv

omit [DecidableEq ι] in
theorem Node.Sound.unique (h : s.Sound) : UniqueNames s.config.entries := by
  obtain ⟨d, hd, hlocs⟩ := h.layout
  exact hd.unique.of_locs hlocs

omit [DecidableEq ι] in
theorem Node.Sound.fresh {d : ConfDict String String} (hd : d.Fresh) :
    (Node.fresh d : Node ι).Sound where
  layout := ⟨d, hd, .refl _⟩
  ledger := .init (bookOf_of_no_tasks hd.empty) fun _ => rfl
  inv := .fresh d

theorem Node.Sound.step (h : s.Sound) (hs : Node.Step ctor s s') : s'.Sound := by
  obtain ⟨d, hd, hlocs⟩ := h.layout
  obtain ⟨hp, hl⟩ := Node.sim h.unique hs
  refine ⟨⟨d, hd, hp.trans hlocs⟩, ?_, h.inv.step hs⟩
  rcases hl with hl | hl
  · exact hl ▸ h.ledger
  · exact h.ledger.step hl

theorem Node.Run.sound {d : ConfDict String String} (hd : d.Fresh) (h : Node.Run ctor d s) :
    s.Sound := by
  induction h with
  | refl => exact .fresh hd
  | tail _ hs ih => exact ih.step hs

/-! ## The guarantee -/

/-- What holds in every state reached from a fresh configmap. -/
structure Node.Exclusive (s : Node ι) : Prop where
  /-- Pool and name still say which CPU list it is. -/
  unique : UniqueNames s.config.entries
  /-- A CPU list of an exclusive pool has at most one task. -/
  single : ∀ e ∈ s.config.entries, exclusivity e.pool = some true → e.tasks.length ≤ 1
  /-- The pid of a live wrapper that has not released is in every list it was allocated. -/
  recorded : ∀ i pid pool clists, (s.wrappers i).Unreleased pid pool clists →
    ∀ cl ∈ clists, Listed s.config.entries pool cl (taskOf String pid)
  /-- Two such wrappers have no CPU of an exclusive pool in common. -/
  disjoint : ∀ i j pid pid' pool pool' clists clists', i ≠ j →
    (s.wrappers i).Unreleased pid pool clists → (s.wrappers j).Unreleased pid' pool' clists' →
    exclusivity pool = some true →
    ∀ cl ∈ clists, ∀ cl' ∈ clists', CpuDisjoint cl cl'

omit [DecidableEq ι] in
theorem Node.Sound.exclusive (h : s.Sound) : s.Exclusive := by
  obtain ⟨d, hd, hlocs⟩ := h.layout
  have hdet := h.unique.determined s.config.nodup_loc
  refine ⟨h.unique, fun e he hex => ?_, fun i pid pool clists hi => h.inv.listed hi, ?_⟩
  · exact bookOf_eq_tasks hdet he ▸ h.ledger.single e.name hex
  · intro i j pid pid' pool pool' clists clists' hij hi hj hex cl hcl cl' hcl'
    obtain ⟨e, he, hp, hc, -⟩ := h.inv.listed hi cl hcl
    obtain ⟨e', he', hp', hc', -⟩ := h.inv.listed hj cl' hcl'
    have hne : e.loc ≠ e'.loc := fun hl => by
      simp only [Entry.loc, Prod.mk.injEq] at hl
      have hr : (pool, cl) = (pool', cl') := by rw [← hp, ← hc, ← hp', ← hc', hl.1, hl.2.2]
      exact hij (h.ledger.mutual_exclusion hi.party hj.party (r := (pool, cl)) hex
        (List.mem_map_of_mem hcl) (hr ▸ List.mem_map_of_mem hcl'))
    obtain ⟨x, hx, hxe⟩ := List.mem_map.mp (hlocs.subset (List.mem_map_of_mem he))
    obtain ⟨y, hy, hye⟩ := List.mem_map.mp (hlocs.subset (List.mem_map_of_mem he'))
    have hdisj := hd.disjoint x hx y hy fun hxy => hne (hxe ▸ hye ▸ hxy)
    have hxc : x.coreId = cl := (congrArg (·.2.2) hxe).trans hc
    have hyc : y.coreId = cl' := (congrArg (·.2.2) hye).trans hc'
    rwa [hxc, hyc] at hdisj

/-- **Exclusive mutual exclusion.**  From a fresh configmap, whatever the wrappers ask for, wherever
they raise, whenever they die and whichever pids are reused. -/
theorem exclusive_mutual_exclusion (ctor : Except PyErr Unit) (d : ConfDict String String)
    (hd : d.Fresh) (s : Node ι) (h : Node.Run ctor d s) : s.Exclusive := (h.sound hd).exclusive

end Simulation

/-- One socket with two exclusive CPU lists. -/
def twoLists : ConfDict String String :=
  ⟨[("exclusive", ⟨[(.int 0, ⟨[("1", []), ("2", [])], by decide⟩)], by decide⟩),
    ("shared", ⟨[(.int 0, ⟨[("3", [])], by decide⟩)], by decide⟩),
    ("infra", ⟨[(.int 0, ⟨[("0", [])], by decide⟩)], by decide⟩)], by decide⟩

theorem twoLists_fresh : twoLists.Fresh := ⟨by decide, by decide, by decide⟩

/-- Two wrappers are allocated a list each; one dies and its pid, reused by a third, is still in the
list it left. -/
theorem exclusive_mutual_exclusion_reuse : ∃ s : Node (Fin 3),
    s.wrappers 1 = .holding 8 "exclusive" ["2"] ∧ s.wrappers 2 = .started 7 ∧
      (∃ e ∈ s.config.entries, e.name = ("exclusive", "1") ∧ e.tasks = ["7"]) ∧ s.Exclusive := by
  have h : Node.Run (.ok ()) twoLists (Node.fresh twoLists : Node (Fin 3)) := .refl
  replace h := h.tail (.start 0 7 rfl (by unfold Node.Live; decide))
  replace h := h.tail (.allocate 0 7 ⟨"exclusive", some "-1"⟩ ⟨none, 0, fun _ => .ok 7⟩ _ _ _ rfl
    ⟨_, .refl _, rfl⟩ (by simp) rfl)
  replace h := h.tail (.start 1 8 rfl (by unfold Node.Live; decide))
  replace h := h.tail (.allocate 1 8 ⟨"exclusive", some "-1"⟩ ⟨none, 0, fun _ => .ok 8⟩ _ _ _ rfl
    ⟨_, .refl _, rfl⟩ (by simp) rfl)
  replace h := h.tail (.die 0)
  replace h := h.tail (.start 2 7 rfl (by unfold Node.Live; decide))
  exact ⟨_, rfl, rfl, by decide, exclusive_mutual_exclusion _ _ twoLists_fresh _ h⟩

end Cmk
