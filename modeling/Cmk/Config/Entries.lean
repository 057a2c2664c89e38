import Cmk.Config.Conf

/-!
# Config/Entries — a configuration as the list of its CPU lists

Everything a run does to a configuration rewrites the `tasks` of CPU lists that are already there,
so it is a map over `Conf.entries` that moves no entry (`entries_mapTasks`, `entries_mapFirst`).
The search by name of `update_clist` and `remove_task` comes to the first list of that name.
-/

open Machinery

namespace Cmk

variable {κ τ : Type} [DecidableEq κ]

/-! ## Membership and places -/

omit [DecidableEq κ] in
theorem Pool.mem_entries {p : Pool κ τ} {e : Entry κ τ} :
    e ∈ p.entries ↔ ∃ s ∈ p.sockets.rows, ∃ cl ∈ s.coreLists.rows,
      e = ⟨p.name, s.socketId, cl.coreId, cl.tasks⟩ := by
  simp only [Pool.entries, List.mem_flatMap, List.mem_map, eq_comm (a := e)]

omit [DecidableEq κ] in
theorem Conf.mem_entries {c : Conf κ τ} {e : Entry κ τ} :
    e ∈ c.entries ↔ ∃ p ∈ c.pools.rows, e ∈ p.entries := List.mem_flatMap

omit [DecidableEq κ] in
theorem Pool.pool_of_mem_entries {p : Pool κ τ} {e : Entry κ τ} (h : e ∈ p.entries) :
    e.pool = p.name := by
  obtain ⟨s, -, cl, -, rfl⟩ := mem_entries.mp h
  rfl

omit [DecidableEq κ] in
theorem Pool.getCoreLists_none (p : Pool κ τ) :
    p.getCoreLists none = .ok (p.entries.map fun e => ⟨e.coreId, e.tasks⟩) := by
  simp only [Pool.getCoreLists, Pool.entries, List.map_flatMap, List.map_map, Function.comp_def,
    List.map_id']

omit [DecidableEq κ] in
theorem Pool.nodup_loc (p : Pool κ τ) : (p.entries.map Entry.loc).Nodup := by
  rw [Pool.entries, List.map_flatMap, List.nodup_flatMap]
  refine ⟨fun s _ => ?_, ?_⟩
  · rw [List.map_map]
    exact List.Nodup.of_map (fun l : String × Scalar × κ => l.2.2) (by
      rw [List.map_map]; exact s.coreLists.nodup)
  · refine (List.pairwise_map.mp p.sockets.nodup).imp fun {s s'} hne => ?_
    intro l hl hl'
    simp only [List.map_map, List.mem_map, Function.comp_apply] at hl hl'
    obtain ⟨cl, -, rfl⟩ := hl
    obtain ⟨cl', -, heq⟩ := hl'
    exact hne (congrArg (fun l : String × Scalar × κ => l.2.1) heq).symm

omit [DecidableEq κ] in
/-- **No two CPU lists share a place.** -/
theorem Conf.nodup_loc (c : Conf κ τ) : (c.entries.map Entry.loc).Nodup := by
  rw [Conf.entries, List.map_flatMap, List.nodup_flatMap]
  refine ⟨fun p _ => p.nodup_loc, ?_⟩
  refine (List.pairwise_map.mp c.pools.nodup).imp fun {p p'} hne => ?_
  intro l hl hl'
  obtain ⟨e, he, rfl⟩ := List.mem_map.mp hl
  obtain ⟨e', he', heq⟩ := List.mem_map.mp hl'
  refine hne ?_
  rw [← Pool.pool_of_mem_entries he, ← Pool.pool_of_mem_entries he']
  exact (congrArg Prod.fst heq).symm

omit [DecidableEq κ] in
theorem Conf.eq_of_loc_eq {c : Conf κ τ} {e e' : Entry κ τ} (he : e ∈ c.entries)
    (he' : e' ∈ c.entries) (h : e.loc = e'.loc) : e = e' :=
  List.inj_on_of_nodup_map c.nodup_loc he he' h

omit [DecidableEq κ] in
/-- The CPU lists of a pool are those of the configuration under its name. -/
theorem Conf.filter_entries (c : Conf κ τ) {p : Pool κ τ} (hp : p ∈ c.pools.rows) :
    c.entries.filter (fun e => e.pool = p.name) = p.entries := by
  obtain ⟨before, after, hrows⟩ := List.append_of_mem hp
  have hnd := c.pools.nodup
  rw [hrows, List.map_append, List.map_cons, List.nodup_middle, List.nodup_cons] at hnd
  have hother : ∀ ps : List (Pool κ τ), (∀ q ∈ ps, q ∈ before ++ after) →
      (ps.flatMap Pool.entries).filter (fun e => e.pool = p.name) = [] := by
    intro ps hps
    refine List.filter_eq_nil_iff.mpr fun e he hname => hnd.1 ?_
    obtain ⟨q, hq, he⟩ := List.mem_flatMap.mp he
    rw [← List.map_append]
    refine List.mem_map.mpr ⟨q, hps q hq, ?_⟩
    rw [← Pool.pool_of_mem_entries he]
    simpa using hname
  have hself : p.entries.filter (fun e => e.pool = p.name) = p.entries :=
    List.filter_eq_self.mpr fun e he => by simpa using Pool.pool_of_mem_entries he
  rw [Conf.entries, hrows, List.flatMap_append, List.flatMap_cons, List.filter_append,
    List.filter_append, hself, hother before (fun q hq => List.mem_append_left _ hq),
    hother after (fun q hq => List.mem_append_right _ hq), List.nil_append, List.append_nil]

omit [DecidableEq κ] in
theorem Entry.eq_of_loc_eq {e e' : Entry κ τ} (h : e.loc = e'.loc) (ht : e.tasks = e'.tasks) :
    e = e' := by
  obtain ⟨pool, socket, coreId, tasks⟩ := e
  obtain ⟨rfl, rfl, rfl⟩ := by simpa using h
  exact congrArg _ ht

/-! ## Rewriting the tasks at one place -/

/-- Rewrite the tasks of an entry if it is at the given place. -/
def Entry.mapAt (l : String × Scalar × κ) (f : List τ → List τ) (e : Entry κ τ) : Entry κ τ :=
  if e.loc = l then { e with tasks := f e.tasks } else e

@[simp] theorem Entry.loc_mapAt (l : String × Scalar × κ) (f : List τ → List τ) (e : Entry κ τ) :
    (e.mapAt l f).loc = e.loc := by
  unfold Entry.mapAt
  split <;> rfl

theorem Pool.entries_mapTasks (p : Pool κ τ) (s : Scalar) (cl : κ) (f : List τ → List τ) :
    (p.mapTasks s cl f).entries = p.entries.map (Entry.mapAt (p.name, s, cl) f) := by
  simp only [Pool.entries, Pool.mapTasks, Table.rows_modify, List.flatMap_map, List.map_flatMap]
  refine List.flatMap_congr fun x _ => ?_
  by_cases hx : x.socketId = s
  · rw [if_pos hx]
    simp only [Socket.mapTasks, Table.rows_modify, List.map_map]
    refine List.map_congr_left fun y _ => ?_
    by_cases hy : y.coreId = cl <;> simp [Entry.mapAt, CoreList.mapTasks, hx, hy]
  · rw [if_neg hx, List.map_map]
    refine List.map_congr_left fun y _ => ?_
    simp [Entry.mapAt, hx]

/-- **Rewriting the tasks at a place is a map over the entries.** -/
theorem Conf.entries_mapTasks (c : Conf κ τ) (pool : String) (s : Scalar) (cl : κ)
    (f : List τ → List τ) :
    (c.mapTasks pool s cl f).entries = c.entries.map (Entry.mapAt (pool, s, cl) f) := by
  simp only [Conf.entries, Conf.mapTasks, Table.rows_modify, List.flatMap_map, List.map_flatMap]
  refine List.flatMap_congr fun p _ => ?_
  by_cases hp : p.name = pool
  · rw [if_pos hp, Pool.entries_mapTasks, hp]
  · rw [if_neg hp]
    refine ((List.map_congr_left fun e he => ?_).trans (List.map_id _)).symm
    have hne : e.loc ≠ (pool, s, cl) := fun h =>
      hp ((Pool.pool_of_mem_entries he).symm.trans (congrArg Prod.fst h))
    simp [Entry.mapAt, hne]

/-! ## Searching by name -/

/-- The socket the search for a name in a pool stops at. -/
def Conf.socketOf (c : Conf κ τ) (pool : String) (cl : κ) : Option Scalar :=
  (c.pools.get? pool).bind fun p => p.socketOf cl

theorem Pool.socketOf_eq_some {p : Pool κ τ} {cl : κ} {s : Scalar} (h : p.socketOf cl = some s) :
    ∃ tasks, (⟨p.name, s, cl, tasks⟩ : Entry κ τ) ∈ p.entries := by
  obtain ⟨x, hx, rfl⟩ := Option.map_eq_some_iff.mp h
  obtain ⟨y, hy, rfl⟩ := Table.mem_keys.mp (by simpa using List.find?_some hx)
  exact ⟨y.tasks, mem_entries.mpr ⟨x, List.mem_of_find?_eq_some hx, y, hy, rfl⟩⟩

theorem Pool.socketOf_eq_none {p : Pool κ τ} {cl : κ} :
    p.socketOf cl = none ↔ ∀ e ∈ p.entries, e.coreId ≠ cl := by
  rw [Pool.socketOf, Option.map_eq_none_iff, List.find?_eq_none]
  constructor
  · intro h e he
    obtain ⟨s, hs, y, hy, rfl⟩ := mem_entries.mp he
    exact fun hcl => h s hs (by simpa using Table.mem_keys.mpr ⟨y, hy, hcl⟩)
  · intro h s hs hcl
    obtain ⟨y, hy, hyc⟩ := Table.mem_keys.mp (by simpa using hcl)
    exact h _ (mem_entries.mpr ⟨s, hs, y, hy, rfl⟩) hyc

theorem Conf.socketOf_eq_some {c : Conf κ τ} {pool : String} {cl : κ} {s : Scalar}
    (h : c.socketOf pool cl = some s) :
    ∃ tasks, (⟨pool, s, cl, tasks⟩ : Entry κ τ) ∈ c.entries := by
  obtain ⟨p, hp, hs⟩ := Option.bind_eq_some_iff.mp h
  obtain ⟨hmem, rfl⟩ := Table.get?_eq_some.mp hp
  obtain ⟨tasks, ht⟩ := Pool.socketOf_eq_some hs
  exact ⟨tasks, mem_entries.mpr ⟨p, hmem, ht⟩⟩

theorem Conf.socketOf_eq_none {c : Conf κ τ} {pool : String} {cl : κ} :
    c.socketOf pool cl = none ↔ ∀ e ∈ c.entries, e.pool = pool → e.coreId ≠ cl := by
  rw [Conf.socketOf]
  constructor
  · intro h e he hpool
    obtain ⟨p, hp, hep⟩ := mem_entries.mp he
    obtain rfl : p.name = pool := (Pool.pool_of_mem_entries hep).symm.trans hpool
    rw [Table.get?_key hp, Option.bind_some] at h
    exact Pool.socketOf_eq_none.mp h e hep
  · intro h
    cases hp : c.pools.get? pool with
    | none => rfl
    | some p =>
      obtain ⟨hmem, rfl⟩ := Table.get?_eq_some.mp hp
      exact Pool.socketOf_eq_none.mpr fun e he =>
        h e (mem_entries.mpr ⟨p, hmem, he⟩) (Pool.pool_of_mem_entries he)

theorem Conf.mapFirst_eq (c : Conf κ τ) (pool : String) (cl : κ) (f : List τ → List τ) :
    c.mapFirst pool cl f = match c.socketOf pool cl with
      | some s => c.mapTasks pool s cl f
      | none => c := by
  have hrow : ∀ p ∈ c.pools.rows, p.name = pool → c.socketOf pool cl = p.socketOf cl := by
    rintro p hp rfl
    rw [Conf.socketOf, Table.get?_key hp, Option.bind_some]
  have hmap : ∀ (q : Pool κ τ → Pool κ τ) (hq : ∀ p, (q p).name = p.name),
      (∀ p ∈ c.pools.rows, p.name = pool → p.mapFirst cl f = q p) →
      c.mapFirst pool cl f = { c with pools := c.pools.modify pool q hq } := by
    intro q hq hall
    simp only [Conf.mapFirst, Conf.mk.injEq]
    refine Table.ext (List.map_congr_left fun p hp => ?_)
    by_cases hname : p.name = pool
    · simp only [hname, if_true, hall p hp hname]
    · simp only [hname, if_false]
  split
  · rename_i s hs
    refine hmap (fun p => p.mapTasks s cl f) (fun p => p.name_mapTasks s cl f) fun p hp hname => ?_
    rw [hrow p hp hname] at hs
    simp [Pool.mapFirst, hs]
  · rename_i hs
    refine (hmap id (fun _ => rfl) fun p hp hname => ?_).trans ?_
    · rw [hrow p hp hname] at hs
      simp [Pool.mapFirst, hs]
    · have hid : c.pools.modify pool id (fun _ => rfl) = c.pools :=
        Table.ext ((List.map_congr_left fun p _ => by simp).trans (List.map_id _))
      rw [hid]

/-- **A search by name rewrites at most one place.** -/
theorem Conf.entries_mapFirst (c : Conf κ τ) (pool : String) (cl : κ) (f : List τ → List τ) :
    (c.mapFirst pool cl f).entries = match c.socketOf pool cl with
      | some s => c.entries.map (Entry.mapAt (pool, s, cl) f)
      | none => c.entries := by
  rw [Conf.mapFirst_eq]
  split
  · exact c.entries_mapTasks pool _ cl f
  · rfl

omit [DecidableEq κ] in
theorem map_loc_map {g : Entry κ τ → Entry κ τ} (hg : ∀ e, (g e).loc = e.loc)
    (es : List (Entry κ τ)) : (es.map g).map Entry.loc = es.map Entry.loc := by
  rw [List.map_map]
  exact List.map_congr_left fun e _ => hg e

theorem Conf.locs_mapTasks (c : Conf κ τ) (pool : String) (s : Scalar) (cl : κ)
    (f : List τ → List τ) :
    (c.mapTasks pool s cl f).entries.map Entry.loc = c.entries.map Entry.loc := by
  rw [Conf.entries_mapTasks, map_loc_map fun e => e.loc_mapAt _ f]

/-- **No update moves, adds or drops a CPU list.** -/
theorem Conf.locs_mapFirst (c : Conf κ τ) (pool : String) (cl : κ) (f : List τ → List τ) :
    (c.mapFirst pool cl f).entries.map Entry.loc = c.entries.map Entry.loc := by
  rw [Conf.mapFirst_eq]
  split
  · exact c.locs_mapTasks pool _ cl f
  · rfl

/-- CPU-list names are unique inside each pool: a name is filed under one socket only. -/
def UniqueNames (es : List (Entry κ τ)) : Prop :=
  ∀ e ∈ es, ∀ e' ∈ es, e.pool = e'.pool → e.coreId = e'.coreId → e.socket = e'.socket

instance (es : List (Entry κ τ)) : Decidable (UniqueNames es) :=
  inferInstanceAs (Decidable (∀ e ∈ es, ∀ e' ∈ es, _ → _ → _))

omit [DecidableEq κ] in
theorem UniqueNames.eq_of_name {c : Conf κ τ} (hu : UniqueNames c.entries) {e e' : Entry κ τ}
    (he : e ∈ c.entries) (he' : e' ∈ c.entries) (hp : e.pool = e'.pool)
    (hc : e.coreId = e'.coreId) : e = e' :=
  Conf.eq_of_loc_eq he he' (by simp [Entry.loc, hp, hc, hu e he e' he' hp hc])

omit [DecidableEq κ] in
theorem UniqueNames.map {es : List (Entry κ τ)} (hu : UniqueNames es) {g : Entry κ τ → Entry κ τ}
    (hg : ∀ e, (g e).loc = e.loc) : UniqueNames (es.map g) := by
  intro e he e' he' hp hc
  obtain ⟨x, hx, rfl⟩ := List.mem_map.mp he
  obtain ⟨y, hy, rfl⟩ := List.mem_map.mp he'
  have hgx := hg x
  have hgy := hg y
  simp only [Entry.loc, Prod.mk.injEq] at hgx hgy
  rw [hgx.2.1, hgy.2.1]
  exact hu x hx y hy (by rw [← hgx.1, ← hgy.1, hp]) (by rw [← hgx.2.2, ← hgy.2.2, hc])

omit [DecidableEq κ] in
/-- Whether names are unique depends on the places only. -/
theorem UniqueNames.of_locs {es es' : List (Entry κ τ)} (hu : UniqueNames es)
    (hp : (es'.map Entry.loc).Perm (es.map Entry.loc)) : UniqueNames es' := by
  intro e he e' he' hpool hcl
  obtain ⟨x, hx, hxe⟩ := List.mem_map.mp (hp.subset (List.mem_map_of_mem he))
  obtain ⟨y, hy, hye⟩ := List.mem_map.mp (hp.subset (List.mem_map_of_mem he'))
  simp only [Entry.loc, Prod.mk.injEq] at hxe hye
  rw [← hxe.2.1, ← hye.2.1]
  exact hu x hx y hy (by rw [hxe.1, hye.1, hpool]) (by rw [hxe.2.2, hye.2.2, hcl])

/-- The CPU-list names of a pool. -/
def Pool.names (p : Pool κ τ) : List κ := p.entries.map Entry.coreId

omit [DecidableEq κ] in
theorem UniqueNames.nodup_names {c : Conf κ τ} (hu : UniqueNames c.entries) {p : Pool κ τ}
    (hp : p ∈ c.pools.rows) : p.names.Nodup := by
  refine List.Nodup.map_on (fun e he e' he' hc => ?_) p.nodup_loc.of_map
  exact hu.eq_of_name (Conf.mem_entries.mpr ⟨p, hp, he⟩) (Conf.mem_entries.mpr ⟨p, hp, he'⟩)
    ((Pool.pool_of_mem_entries he).trans (Pool.pool_of_mem_entries he').symm) hc

/-! ## Rewriting by name -/

/-- Rewrite the tasks of an entry as its pool and name say. -/
def Entry.rewrite (F : String × κ → List τ → List τ) (e : Entry κ τ) : Entry κ τ :=
  { e with tasks := F (e.pool, e.coreId) e.tasks }

omit [DecidableEq κ] in
@[simp] theorem Entry.loc_rewrite (F : String × κ → List τ → List τ) (e : Entry κ τ) :
    (e.rewrite F).loc = e.loc := rfl

/-! ## Where a task is listed -/

/-- The tasks of a configuration in stored order, each with its pool and list. -/
def Conf.visited (c : Conf κ τ) : List (String × κ × τ) :=
  c.entries.flatMap fun e => e.tasks.map fun t => (e.pool, e.coreId, t)

/-- Some CPU list of that name in the pool has the task. -/
def Listed (es : List (Entry κ τ)) (pool : String) (cl : κ) (t : τ) : Prop :=
  ∃ e ∈ es, e.pool = pool ∧ e.coreId = cl ∧ t ∈ e.tasks

omit [DecidableEq κ] in
theorem Listed.perm {es es' : List (Entry κ τ)} {pool : String} {cl : κ} {t : τ}
    (h : Listed es pool cl t) (hp : es.Perm es') : Listed es' pool cl t := by
  obtain ⟨e, he, hrest⟩ := h
  exact ⟨e, hp.subset he, hrest⟩

omit [DecidableEq κ] in
theorem Listed.map {es : List (Entry κ τ)} {pool : String} {cl : κ} {t : τ}
    {g : Entry κ τ → Entry κ τ} (h : Listed es pool cl t) (hloc : ∀ e, (g e).loc = e.loc)
    (hkeep : ∀ e ∈ es, t ∈ e.tasks → t ∈ (g e).tasks) : Listed (es.map g) pool cl t := by
  obtain ⟨e, he, rfl, rfl, ht⟩ := h
  have hge := hloc e
  simp only [Entry.loc, Prod.mk.injEq] at hge
  exact ⟨g e, List.mem_map_of_mem he, hge.1, hge.2.2, hkeep e he ht⟩

theorem Entry.mem_mapAt {e : Entry κ τ} {l : String × Scalar × κ} {f : List τ → List τ} {t : τ}
    (hf : t ∈ e.tasks → t ∈ f e.tasks) (h : t ∈ e.tasks) : t ∈ (e.mapAt l f).tasks := by
  unfold Entry.mapAt
  split
  · exact hf h
  · exact h

theorem Listed.mapTasks {c : Conf κ τ} {pool : String} {cl : κ} {t : τ} {f : List τ → List τ}
    (h : Listed c.entries pool cl t) (hf : ∀ tasks, t ∈ tasks → t ∈ f tasks) (pool' : String)
    (s : Scalar) (cl' : κ) : Listed (c.mapTasks pool' s cl' f).entries pool cl t := by
  rw [Conf.entries_mapTasks]
  exact h.map (fun e => e.loc_mapAt _ f) fun e _ => Entry.mem_mapAt (hf e.tasks)

theorem Listed.mapFirst {c : Conf κ τ} {pool : String} {cl : κ} {t : τ} {f : List τ → List τ}
    (h : Listed c.entries pool cl t) (hf : ∀ tasks, t ∈ tasks → t ∈ f tasks) (pool' : String)
    (cl' : κ) : Listed (c.mapFirst pool' cl' f).entries pool cl t := by
  rw [Conf.mapFirst_eq]
  split
  · exact h.mapTasks hf pool' _ cl'
  · exact h

/-- Some CPU list of the pool has that name. -/
def Named (es : List (Entry κ τ)) (pool : String) (cl : κ) : Prop :=
  ∃ s, (pool, s, cl) ∈ es.map Entry.loc

omit [DecidableEq κ] in
theorem Listed.named {es : List (Entry κ τ)} {pool : String} {cl : κ} {t : τ}
    (h : Listed es pool cl t) : Named es pool cl := by
  obtain ⟨e, he, rfl, rfl, -⟩ := h
  exact ⟨e.socket, List.mem_map_of_mem he⟩

omit [DecidableEq κ] in
theorem Conf.listed_of_visited {c : Conf κ τ} {pool : String} {cl : κ} {t : τ}
    (h : (pool, cl, t) ∈ c.visited) : Listed c.entries pool cl t := by
  obtain ⟨e, he, ht⟩ := List.mem_flatMap.mp h
  obtain ⟨t', ht', heq⟩ := List.mem_map.mp ht
  simp only [Prod.mk.injEq] at heq
  exact ⟨e, he, heq.1, heq.2.1, heq.2.2 ▸ ht'⟩

omit [DecidableEq κ] in
theorem Named.exists_entry {es : List (Entry κ τ)} {pool : String} {cl : κ}
    (h : Named es pool cl) : ∃ e ∈ es, e.pool = pool ∧ e.coreId = cl := by
  obtain ⟨s, hs⟩ := h
  obtain ⟨e, he, hl⟩ := List.mem_map.mp hs
  simp only [Entry.loc, Prod.mk.injEq] at hl
  exact ⟨e, he, hl.1, hl.2.2⟩

theorem Named.mapFirst {c : Conf κ τ} {pool : String} {cl : κ} (h : Named c.entries pool cl)
    (pool' : String) (cl' : κ) (f : List τ → List τ) :
    Named (c.mapFirst pool' cl' f).entries pool cl := by
  rwa [Named, Conf.locs_mapFirst]

/-- `update_clist` lists the task, if the pool has a CPU list of that name. -/
theorem listed_updateClist {c : Conf κ τ} {pool : String} {cl : κ} (t : τ)
    (h : Named c.entries pool cl) : Listed (c.updateClist pool cl t).entries pool cl t := by
  rw [Conf.updateClist, Conf.entries_mapFirst]
  split
  · rename_i s hs
    obtain ⟨tasks, ht⟩ := Conf.socketOf_eq_some hs
    exact ⟨_, List.mem_map_of_mem ht, by simp [Entry.mapAt], by simp [Entry.mapAt],
      by simp [Entry.mapAt]⟩
  · rename_i hs
    obtain ⟨e, he, hp, hc⟩ := h.exists_entry
    exact absurd hc (Conf.socketOf_eq_none.mp hs e he hp)

/-- `remove_task` leaves every other task where it is. -/
theorem Listed.removeTask [DecidableEq τ] {c : Conf κ τ} {pool : String} {cl : κ} {t t' : τ}
    (h : Listed c.entries pool cl t) (hne : t ≠ t') (pool' : String) (cl' : κ) :
    Listed (c.removeTask pool' cl' t').entries pool cl t :=
  h.mapFirst (fun _ ht => List.mem_filter.mpr ⟨ht, by simpa using hne⟩) pool' cl'

theorem Listed.updateClist {c : Conf κ τ} {pool : String} {cl : κ} {t : τ}
    (h : Listed c.entries pool cl t) (pool' : String) (cl' : κ) (t' : τ) :
    Listed (c.updateClist pool' cl' t').entries pool cl t :=
  h.mapFirst (fun _ => List.mem_append_left _) pool' cl'

/-! ## The lists of a socket -/

/-- The sockets of a configuration, also those without a CPU list. -/
def Conf.socketKeys (c : Conf κ τ) : List (String × Scalar) :=
  c.pools.rows.flatMap fun p => p.sockets.keys.map fun s => (p.name, s)

/-- The CPU lists filed under a socket of a pool. -/
def Conf.listsAt (c : Conf κ τ) (pool : String) (s : Scalar) : List (CoreList κ τ) :=
  (c.entries.filter fun e => e.pool = pool ∧ e.socket = s).map fun e => ⟨e.coreId, e.tasks⟩

omit [DecidableEq κ] in
theorem Conf.mem_socketKeys {c : Conf κ τ} {pool : String} {s : Scalar} :
    (pool, s) ∈ c.socketKeys ↔ ∃ p ∈ c.pools.rows, p.name = pool ∧ s ∈ p.sockets.keys := by
  simp only [Conf.socketKeys, List.mem_flatMap, List.mem_map, Prod.mk.injEq]
  constructor
  · rintro ⟨p, hp, s', hs', hname, rfl⟩
    exact ⟨p, hp, hname, hs'⟩
  · rintro ⟨p, hp, hname, hs⟩
    exact ⟨p, hp, s, hs, hname, rfl⟩

omit [DecidableEq κ] in
theorem Conf.listsAt_eq {c : Conf κ τ} {p : Pool κ τ} (hp : p ∈ c.pools.rows) {s : Socket κ τ}
    (hs : s ∈ p.sockets.rows) : c.listsAt p.name s.socketId = s.coreLists.rows := by
  have hpools : c.entries.filter (fun e => e.pool = p.name ∧ e.socket = s.socketId) =
      p.entries.filter fun e => e.pool = p.name ∧ e.socket = s.socketId := by
    rw [Conf.entries, List.filter_flatMap]
    refine Table.flatMap_of_key hp fun q _ hne => List.filter_eq_nil_iff.mpr fun e he => ?_
    have hname : e.pool ≠ p.name := Pool.pool_of_mem_entries he ▸ hne
    simp [hname]
  have hsockets : p.entries.filter (fun e => e.pool = p.name ∧ e.socket = s.socketId) =
      s.coreLists.rows.map fun cl => ⟨p.name, s.socketId, cl.coreId, cl.tasks⟩ := by
    rw [Pool.entries, List.filter_flatMap]
    refine (Table.flatMap_of_key hs fun s' _ hne => ?_).trans ?_
    · refine List.filter_eq_nil_iff.mpr fun e he => ?_
      obtain ⟨cl, -, rfl⟩ := List.mem_map.mp he
      simp [hne]
    · refine List.filter_eq_self.mpr fun e he => ?_
      obtain ⟨cl, -, rfl⟩ := List.mem_map.mp he
      simp
  rw [Conf.listsAt, hpools, hsockets, List.map_map]
  exact List.map_id _

omit [DecidableEq κ] in
/-- **What `get_pool` and `get_socket_clists` return** is read off the entries and sockets. -/
theorem Conf.getSocketClists_eq (c : Conf κ τ) (pool : String) (s : Scalar) :
    (c.getPool pool >>= fun p => p.getSocketClists s) =
      if (pool, s) ∈ c.socketKeys then .ok (c.listsAt pool s) else .error (.keyError none) := by
  rw [Conf.getPool]
  cases hp : c.pools.get? pool with
  | none =>
    rw [if_neg]
    · rfl
    · intro h
      obtain ⟨p, hp', hname, -⟩ := Conf.mem_socketKeys.mp h
      exact Table.get?_eq_none.mp hp (hname ▸ Table.key_mem_keys hp')
  | some p =>
    obtain ⟨hrow, rfl⟩ := Table.get?_eq_some.mp hp
    refine Eq.trans (b := p.getSocketClists s) rfl ?_
    rw [Pool.getSocketClists, Pool.getSocket]
    cases hs : p.sockets.get? s with
    | none =>
      have hnot : (p.name, s) ∉ c.socketKeys := by
        intro h
        obtain ⟨q, hq, hname, hsk⟩ := Conf.mem_socketKeys.mp h
        rw [Table.eq_of_key_eq hq hrow hname] at hsk
        exact Table.get?_eq_none.mp hs hsk
      rw [if_neg hnot]
      rfl
    | some x =>
      obtain ⟨hx, rfl⟩ := Table.get?_eq_some.mp hs
      rw [if_pos (Conf.mem_socketKeys.mpr ⟨p, hrow, rfl, Table.key_mem_keys hx⟩),
        Conf.listsAt_eq hrow hx]
      rfl

theorem Conf.socketKeys_mapTasks (c : Conf κ τ) (pool : String) (s : Scalar) (cl : κ)
    (f : List τ → List τ) : (c.mapTasks pool s cl f).socketKeys = c.socketKeys := by
  rw [Conf.socketKeys, Conf.mapTasks, Table.rows_modify, List.flatMap_map]
  refine List.flatMap_congr fun p _ => ?_
  split
  · rw [Pool.mapTasks, Table.keys_modify]
  · rfl

/-- **A name is found where it is filed**, if names are unique. -/
theorem getCoreList_home {c : Conf κ τ} (hu : UniqueNames c.entries) {p : Pool κ τ}
    {pool : String} (hp : c.getPool pool = .ok p) {e : Entry κ τ} (he : e ∈ c.entries)
    (hpool : e.pool = pool) : p.getCoreList e.coreId (some e.socket) = .ok (some e.socket) := by
  rw [Conf.getPool] at hp
  split at hp
  · rename_i q hq
    obtain rfl := Except.ok.inj hp
    obtain ⟨hrow, rfl⟩ := Table.get?_eq_some.mp hq
    obtain ⟨q', hq', hep⟩ := Conf.mem_entries.mp he
    obtain rfl := Table.eq_of_key_eq hq' hrow ((Pool.pool_of_mem_entries hep).symm.trans hpool)
    obtain ⟨s, hs, cl, hcl, rfl⟩ := Pool.mem_entries.mp hep
    rw [Pool.getCoreList]
    split
    · rw [Pool.getSocket, Table.get?_key hs]
      exact if_pos (Table.key_mem_keys hcl)
    · cases hof : q'.socketOf cl.coreId with
      | none => exact absurd rfl (Pool.socketOf_eq_none.mp hof _ hep)
      | some s' =>
        obtain ⟨tasks, hmem⟩ := Pool.socketOf_eq_some hof
        have hsocket : s' = s.socketId :=
          hu _ (Conf.mem_entries.mpr ⟨q', hrow, hmem⟩) _ he rfl rfl
        rw [hsocket]
  · nomatch hp

end Cmk
