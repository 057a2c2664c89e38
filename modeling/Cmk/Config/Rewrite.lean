import Cmk.Config.Entries

/-!
# Config/Rewrite — the tasks of a whole configuration rewritten

`Conf.rewriteAt` rewrites the tasks of every CPU list as its place says and leaves pools, sockets
and lists as they are.  Every update of a command is such a rewriting (`mapTasks_eq_rewriteAt`), and
where names are unique the search by name is one that looks at pool and name only
(`mapFirst_eq_rewrite`).
-/

open Machinery

namespace Cmk

variable {κ τ : Type}

/-- Rewrite the tasks of each CPU list of a socket. -/
def Socket.rewrite (f : κ → List τ → List τ) (s : Socket κ τ) : Socket κ τ :=
  ⟨s.socketId, s.coreLists.map (fun cl => cl.mapTasks (f cl.coreId))
    fun cl => cl.coreId_mapTasks (f cl.coreId)⟩

@[simp] theorem Socket.socketId_rewrite (f : κ → List τ → List τ) (s : Socket κ τ) :
    (s.rewrite f).socketId = s.socketId := rfl

/-- Rewrite the tasks of each CPU list of a pool. -/
def Pool.rewrite (f : Scalar × κ → List τ → List τ) (p : Pool κ τ) : Pool κ τ :=
  ⟨p.exclusive, p.name, p.sockets.map (fun s => s.rewrite fun cl => f (s.socketId, cl))
    fun s => s.socketId_rewrite fun cl => f (s.socketId, cl)⟩

@[simp] theorem Pool.name_rewrite (f : Scalar × κ → List τ → List τ) (p : Pool κ τ) :
    (p.rewrite f).name = p.name := rfl

/-- Rewrite the tasks of each CPU list of a configuration, as its place says. -/
def Conf.rewriteAt (F : String × Scalar × κ → List τ → List τ) (c : Conf κ τ) : Conf κ τ :=
  ⟨c.pools.map (fun p => p.rewrite fun l => F (p.name, l))
    fun p => p.name_rewrite fun l => F (p.name, l)⟩

/-- Rewrite the tasks of each CPU list of a configuration, as its pool and name say. -/
def Conf.rewrite (F : String × κ → List τ → List τ) (c : Conf κ τ) : Conf κ τ :=
  c.rewriteAt fun l => F (l.1, l.2.2)

/-- Rewrite the tasks of an entry as its place says. -/
def Entry.rewriteAt (F : String × Scalar × κ → List τ → List τ) (e : Entry κ τ) : Entry κ τ :=
  { e with tasks := F e.loc e.tasks }

/-! ## What stays -/

theorem Conf.entries_rewriteAt (c : Conf κ τ) (F : String × Scalar × κ → List τ → List τ) :
    (c.rewriteAt F).entries = c.entries.map (Entry.rewriteAt F) := by
  simp only [Conf.entries, Conf.rewriteAt, Table.rows_map, List.flatMap_map, List.map_flatMap,
    Pool.entries, Pool.rewrite, Socket.rewrite, List.map_map]
  rfl

theorem Conf.entries_rewrite (c : Conf κ τ) (F : String × κ → List τ → List τ) :
    (c.rewrite F).entries = c.entries.map (Entry.rewrite F) := c.entries_rewriteAt _

theorem UniqueNames.rewrite {c : Conf κ τ} (hu : UniqueNames c.entries)
    (F : String × κ → List τ → List τ) : UniqueNames (c.rewrite F).entries :=
  c.entries_rewrite F ▸ hu.map (Entry.loc_rewrite F)

/-- The pools of a configuration, with their kind. -/
def Conf.kinds (c : Conf κ τ) : List (String × Bool) :=
  c.pools.rows.map fun p => (p.name, p.exclusive)

theorem Conf.kinds_rewrite (c : Conf κ τ) (F : String × κ → List τ → List τ) :
    (c.rewrite F).kinds = c.kinds := by
  simp only [Conf.kinds, Conf.rewrite, Conf.rewriteAt, Table.rows_map, List.map_map]
  rfl

theorem Conf.socketKeys_rewrite (c : Conf κ τ) (F : String × κ → List τ → List τ) :
    (c.rewrite F).socketKeys = c.socketKeys := by
  simp only [Conf.socketKeys, Conf.rewrite, Conf.rewriteAt, Table.rows_map, List.flatMap_map,
    Pool.rewrite, Table.keys_map]

/-! ## Rewritings that agree -/

/-- **Rewritings that agree on the CPU lists there are** give the same configuration. -/
theorem Conf.rewriteAt_congr {c : Conf κ τ} {F G : String × Scalar × κ → List τ → List τ}
    (h : ∀ e ∈ c.entries, F e.loc e.tasks = G e.loc e.tasks) : c.rewriteAt F = c.rewriteAt G := by
  have hlist : ∀ p ∈ c.pools.rows, ∀ s ∈ p.sockets.rows, ∀ cl ∈ s.coreLists.rows,
      F (p.name, s.socketId, cl.coreId) cl.tasks = G (p.name, s.socketId, cl.coreId) cl.tasks :=
    fun p hp s hs cl hcl =>
      h _ (mem_entries.mpr ⟨p, hp, Pool.mem_entries.mpr ⟨s, hs, cl, hcl, rfl⟩⟩)
  have hsocket : ∀ p ∈ c.pools.rows, ∀ s ∈ p.sockets.rows,
      s.rewrite (fun cl => F (p.name, s.socketId, cl)) =
        s.rewrite fun cl => G (p.name, s.socketId, cl) := fun p hp s hs =>
    congrArg (Socket.mk s.socketId) (Table.ext (List.map_congr_left fun cl hcl =>
      congrArg (CoreList.mk cl.coreId) (hlist p hp s hs cl hcl)))
  have hpool : ∀ p ∈ c.pools.rows,
      p.rewrite (fun l => F (p.name, l)) = p.rewrite fun l => G (p.name, l) := fun p hp =>
    congrArg (Pool.mk p.exclusive p.name) (Table.ext (List.map_congr_left fun s hs =>
      hsocket p hp s hs))
  exact congrArg Conf.mk (Table.ext (List.map_congr_left hpool))

theorem Conf.rewriteAt_id (c : Conf κ τ) : c.rewriteAt (fun _ tasks => tasks) = c := by
  have hsocket : ∀ s : Socket κ τ, s.rewrite (fun _ tasks => tasks) = s := fun s =>
    congrArg (Socket.mk s.socketId) (Table.ext (List.map_id _))
  have hpool : ∀ p : Pool κ τ, p.rewrite (fun _ tasks => tasks) = p := fun p =>
    congrArg (Pool.mk p.exclusive p.name) (Table.ext ((List.map_congr_left fun s _ =>
      hsocket s).trans (List.map_id _)))
  exact congrArg Conf.mk (Table.ext ((List.map_congr_left fun p _ => hpool p).trans
    (List.map_id _)))

theorem Conf.rewrite_rewrite (c : Conf κ τ) (F G : String × κ → List τ → List τ) :
    (c.rewrite F).rewrite G = c.rewrite fun r tasks => G r (F r tasks) := by
  have hsocket : ∀ (p : Pool κ τ) (s : Socket κ τ),
      (s.rewrite fun cl => F (p.name, cl)).rewrite (fun cl => G (p.name, cl)) =
        s.rewrite fun cl tasks => G (p.name, cl) (F (p.name, cl) tasks) := fun p s =>
    congrArg (Socket.mk s.socketId) (Table.ext (List.map_map ..))
  have hpool : ∀ p : Pool κ τ, (p.rewrite fun l => F (p.name, l.2)).rewrite
      (fun l => G (p.name, l.2)) =
        p.rewrite fun l tasks => G (p.name, l.2) (F (p.name, l.2) tasks) :=
    fun p => congrArg (Pool.mk p.exclusive p.name) (Table.ext
      ((List.map_map ..).trans (List.map_congr_left fun s _ => hsocket p s)))
  exact congrArg Conf.mk (Table.ext
    ((List.map_map ..).trans (List.map_congr_left fun p _ => hpool p)))

/-- **Rewritings by pool and name that agree on the CPU lists there are.** -/
theorem Conf.rewrite_congr {c : Conf κ τ} {F G : String × κ → List τ → List τ}
    (h : ∀ e ∈ c.entries, F (e.pool, e.coreId) e.tasks = G (e.pool, e.coreId) e.tasks) :
    c.rewrite F = c.rewrite G := rewriteAt_congr h

theorem Conf.rewrite_eq_self {c : Conf κ τ} {F : String × κ → List τ → List τ}
    (h : ∀ e ∈ c.entries, F (e.pool, e.coreId) e.tasks = e.tasks) : c.rewrite F = c :=
  (rewriteAt_congr h).trans c.rewriteAt_id

/-! ## The updates of the commands -/

variable [DecidableEq κ]

/-- Rewriting at one place. -/
theorem Conf.mapTasks_eq_rewriteAt (c : Conf κ τ) (pool : String) (s : Scalar) (cl : κ)
    (f : List τ → List τ) : c.mapTasks pool s cl f =
      c.rewriteAt fun l tasks => if l = (pool, s, cl) then f tasks else tasks := by
  have hsocket : ∀ (p : Pool κ τ) (x : Socket κ τ), (if p.name = pool then
        if x.socketId = s then x.mapTasks cl f else x else x) =
      x.rewrite fun y tasks =>
        if (p.name, x.socketId, y) = (pool, s, cl) then f tasks else tasks := by
    intro p x
    by_cases hp : p.name = pool
    · by_cases hx : x.socketId = s
      · rw [if_pos hp, if_pos hx]
        refine congrArg (Socket.mk x.socketId) (Table.ext (List.map_congr_left fun y _ => ?_))
        by_cases hy : y.coreId = cl <;> simp [CoreList.mapTasks, hp, hx, hy]
      · rw [if_pos hp, if_neg hx]
        refine (congrArg (Socket.mk x.socketId) (Table.ext ?_)).symm
        refine (List.map_congr_left fun y _ => ?_).trans (List.map_id _)
        simp [CoreList.mapTasks, hx]
    · rw [if_neg hp]
      refine (congrArg (Socket.mk x.socketId) (Table.ext ?_)).symm
      refine (List.map_congr_left fun y _ => ?_).trans (List.map_id _)
      simp [CoreList.mapTasks, hp]
  have hpool : ∀ p : Pool κ τ, (if p.name = pool then p.mapTasks s cl f else p) =
      p.rewrite fun l tasks => if (p.name, l) = (pool, s, cl) then f tasks else tasks := by
    intro p
    have hrows := List.map_congr_left fun x (_ : x ∈ p.sockets.rows) => hsocket p x
    by_cases hp : p.name = pool
    · simp only [if_pos hp] at hrows ⊢
      exact congrArg (Pool.mk p.exclusive p.name) (Table.ext hrows)
    · simp only [if_neg hp] at hrows ⊢
      exact congrArg (Pool.mk p.exclusive p.name)
        (Table.ext ((List.map_id _).symm.trans hrows))
  exact congrArg Conf.mk (Table.ext (List.map_congr_left fun p _ => hpool p))

/-- **Where names are unique, the search by name** rewrites by pool and name. -/
theorem Conf.mapFirst_eq_rewrite {c : Conf κ τ} (hu : UniqueNames c.entries) (pool : String)
    (cl : κ) (f : List τ → List τ) : c.mapFirst pool cl f =
      c.rewrite fun r tasks => if r = (pool, cl) then f tasks else tasks := by
  rw [Conf.mapFirst_eq]
  cases hs : c.socketOf pool cl with
  | none =>
    refine (Conf.rewrite_eq_self fun e he => if_neg fun heq => ?_).symm
    obtain ⟨hp, hc⟩ := Prod.mk.inj heq
    exact Conf.socketOf_eq_none.mp hs e he hp hc
  | some s =>
    obtain ⟨tasks, hmem⟩ := Conf.socketOf_eq_some hs
    dsimp only
    rw [Conf.mapTasks_eq_rewriteAt]
    refine Conf.rewriteAt_congr fun e he => ?_
    have hiff : e.loc = (pool, s, cl) ↔ (e.pool, e.coreId) = (pool, cl) := by
      simp only [Entry.loc, Prod.mk.injEq]
      exact ⟨fun h => ⟨h.1, h.2.2⟩, fun h => ⟨h.1, hu e he _ hmem h.1 h.2, h.2⟩⟩
    simp only [hiff]


end Cmk
