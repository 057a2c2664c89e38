import Cmk.Config.Store

/-!
# Config/RoundTrip — the loops of `build_config` and `build_configmap`

`build_config` files pools, sockets, CPU lists and tasks into the configuration built so far, each
found again by its path.  The record last filed is the one a path leads to (`Table.modify_insert`),
so every loop runs inside one record (`foldl_within`) and the loops build what `buildConfig` says
(`buildConfigLoop_eq`).  The two directions stay inverse under any changes of the tasks
(`store_round_trip`).
-/

open Machinery

namespace Cmk

variable {κ τ : Type}

/-! ## The methods that file something -/

def CoreList.addTask (cl : CoreList κ τ) (task : τ) : CoreList κ τ :=
  { cl with tasks := cl.tasks ++ [task] }

def Conf.addPool (c : Conf κ τ) (exclusive : Bool) (name : String) : Conf κ τ :=
  { c with pools := c.pools.insert ⟨exclusive, name, .empty⟩ }

def Pool.addSocket (p : Pool κ τ) (socketId : Scalar) : Pool κ τ :=
  { p with sockets := p.sockets.insert ⟨socketId, .empty⟩ }

/-- `pools[pool].add_socket(socket)`. -/
def Conf.addSocket (c : Conf κ τ) (pool : String) (socket : Scalar) : Conf κ τ :=
  { c with pools := c.pools.modify pool (fun p => p.addSocket socket) fun _ => rfl }

variable [DecidableEq κ]

def Socket.addCoreList (s : Socket κ τ) (coreId : κ) : Socket κ τ :=
  { s with coreLists := s.coreLists.insert ⟨coreId, []⟩ }

/-- `sockets[socket].add_core_list(core_id)`. -/
def Pool.addCoreList (p : Pool κ τ) (socket : Scalar) (coreId : κ) : Pool κ τ :=
  { p with sockets := p.sockets.modify socket (fun s => s.addCoreList coreId) fun _ => rfl }

/-- `pools[pool].sockets[socket].add_core_list(core_id)`. -/
def Conf.addCoreList (c : Conf κ τ) (pool : String) (socket : Scalar) (coreId : κ) : Conf κ τ :=
  { c with pools := c.pools.modify pool (fun p => p.addCoreList socket coreId) fun _ => rfl }

/-- `core_lists[core_list].add_task(task)`. -/
def Socket.addTask (s : Socket κ τ) (cl : κ) (task : τ) : Socket κ τ :=
  { s with coreLists := s.coreLists.modify cl (fun cl => cl.addTask task) fun _ => rfl }

/-- `sockets[socket].core_lists[core_list].add_task(task)`. -/
def Pool.addTask (p : Pool κ τ) (socket : Scalar) (cl : κ) (task : τ) : Pool κ τ :=
  { p with sockets := p.sockets.modify socket (fun s => s.addTask cl task) fun _ => rfl }

/-- `pools[pool].sockets[socket].core_lists[core_list].add_task(task)`. -/
def Conf.addTask (c : Conf κ τ) (pool : String) (socket : Scalar) (cl : κ) (task : τ) : Conf κ τ :=
  { c with pools := c.pools.modify pool (fun p => p.addTask socket cl task) fun _ => rfl }

/-! ## The loops -/

def loadCoreList (pool : String) (socket : Scalar) (c : Conf κ τ) (row : κ × List τ) : Conf κ τ :=
  row.2.foldl (fun c task => c.addTask pool socket row.1 task) (c.addCoreList pool socket row.1)

def loadSocket (pool : String) (c : Conf κ τ) (row : Scalar × Dict κ (List τ)) : Conf κ τ :=
  row.2.rows.foldl (loadCoreList pool row.1) (c.addSocket pool row.1)

def loadPool (c : Conf κ τ) (row : String × Dict Scalar (Dict κ (List τ))) :
    Except PyErr (Conf κ τ) :=
  match exclusivity row.1 with
  | some exclusive => .ok (row.2.rows.foldl (loadSocket row.1) (c.addPool exclusive row.1))
  | none => .error (.keyError none)

/-- `build_config`, loop by loop. -/
def buildConfigLoop (d : ConfDict κ τ) : Except PyErr (Conf κ τ) := d.rows.foldlM loadPool ⟨.empty⟩

def dumpSocket (s : Socket κ τ) : Dict κ (List τ) :=
  s.coreLists.rows.foldl (fun d cl => d.insert (cl.coreId, cl.tasks)) .empty

def dumpPool (p : Pool κ τ) : Dict Scalar (Dict κ (List τ)) :=
  p.sockets.rows.foldl (fun d s => d.insert (s.socketId, dumpSocket s)) .empty

/-- `build_configmap`, loop by loop. -/
def buildConfigmapLoop (c : Conf κ τ) : ConfDict κ τ :=
  c.pools.rows.foldl (fun d p => d.insert (p.name, dumpPool p)) .empty

/-! ## Loops inside one record -/

/-- A loop whose rounds all change one part of a state is a loop on that part. -/
theorem foldl_within {α β γ : Type} (emb : α → γ) (P : α → Prop) (g : γ → β → γ)
    (step : α → β → α) (hstep : ∀ a b, P a → P (step a b))
    (h : ∀ a b, P a → g (emb a) b = emb (step a b)) {a : α} (ha : P a) (bs : List β) :
    bs.foldl g (emb a) = emb (bs.foldl step a) := by
  induction bs generalizing a with
  | nil => rfl
  | cons b bs ih => rw [List.foldl_cons, h a b ha, ih (hstep a b ha), List.foldl_cons]

/-- File a CPU list in a socket. -/
def Socket.file (s : Socket κ τ) (cl : CoreList κ τ) : Socket κ τ :=
  { s with coreLists := s.coreLists.insert cl }

/-- File a socket in a pool. -/
def Pool.file (p : Pool κ τ) (s : Socket κ τ) : Pool κ τ :=
  { p with sockets := p.sockets.insert s }

/-- File a pool in a configuration. -/
def Conf.file (c : Conf κ τ) (p : Pool κ τ) : Conf κ τ := { c with pools := c.pools.insert p }

/-- The rounds for a CPU list, on its socket. -/
def Socket.loadCoreList (s : Socket κ τ) (row : κ × List τ) : Socket κ τ :=
  row.2.foldl (fun s task => s.addTask row.1 task) (s.addCoreList row.1)

/-- The rounds for a CPU list, on its pool. -/
def Pool.loadCoreList (socket : Scalar) (p : Pool κ τ) (row : κ × List τ) : Pool κ τ :=
  row.2.foldl (fun p task => p.addTask socket row.1 task) (p.addCoreList socket row.1)

/-- The rounds for a socket, on its pool. -/
def Pool.loadSocket (p : Pool κ τ) (row : Scalar × Dict κ (List τ)) : Pool κ τ :=
  row.2.rows.foldl (Pool.loadCoreList row.1) (p.addSocket row.1)

/-! ## The rounds for a CPU list -/

omit [DecidableEq κ] in
theorem CoreList.foldl_addTask (cl : CoreList κ τ) (tasks : List τ) :
    tasks.foldl CoreList.addTask cl = ⟨cl.coreId, cl.tasks ++ tasks⟩ := by
  induction tasks generalizing cl with
  | nil => rw [List.append_nil]; rfl
  | cons task tasks ih =>
    rw [List.foldl_cons, ih, CoreList.addTask, List.append_assoc, List.singleton_append]

theorem Socket.addTask_file (s : Socket κ τ) {cl : CoreList κ τ} {id : κ} (h : cl.coreId = id)
    (task : τ) : (s.file cl).addTask id task = s.file (cl.addTask task) :=
  congrArg (Socket.mk s.socketId) (Table.modify_insert h)

/-- **A CPU list is filed with its tasks.** -/
theorem Socket.loadCoreList_eq (s : Socket κ τ) (row : κ × List τ) :
    s.loadCoreList row = s.file (buildCoreList row) := by
  have hloop : s.loadCoreList row = s.file (row.2.foldl CoreList.addTask ⟨row.1, []⟩) :=
    foldl_within s.file (fun cl => cl.coreId = row.1) (fun s task => s.addTask row.1 task)
      CoreList.addTask (fun _ _ h => h) (fun _ task h => s.addTask_file h task) rfl row.2
  rw [hloop, CoreList.foldl_addTask, List.nil_append]
  rfl

/-- **A socket is filed with its CPU lists.** -/
theorem Socket.foldl_loadCoreList (row : Scalar × Dict κ (List τ)) :
    row.2.rows.foldl Socket.loadCoreList ⟨row.1, .empty⟩ = buildSocket row := by
  have hloop : row.2.rows.foldl Socket.loadCoreList ⟨row.1, .empty⟩ =
      (⟨row.1, row.2.rows.foldl (fun t cl => t.insert (buildCoreList cl)) .empty⟩ :
        Socket κ τ) :=
    foldl_within (Socket.mk row.1) (fun _ => True) Socket.loadCoreList _ (fun _ _ h => h)
      (fun t cl _ => Socket.loadCoreList_eq ⟨row.1, t⟩ cl) trivial row.2.rows
  rw [hloop, ← List.foldl_map, ← Table.ofList, Table.ofList_map row.2 _ coreId_buildCoreList]
  rfl

/-! ## The rounds for a socket -/

theorem Pool.addCoreList_file (p : Pool κ τ) {s : Socket κ τ} {socket : Scalar}
    (h : s.socketId = socket) (id : κ) :
    (p.file s).addCoreList socket id = p.file (s.addCoreList id) :=
  congrArg (Pool.mk p.exclusive p.name) (Table.modify_insert h)

theorem Pool.addTask_file (p : Pool κ τ) {s : Socket κ τ} {socket : Scalar}
    (h : s.socketId = socket) (id : κ) (task : τ) :
    (p.file s).addTask socket id task = p.file (s.addTask id task) :=
  congrArg (Pool.mk p.exclusive p.name) (Table.modify_insert h)

theorem Pool.loadCoreList_file (p : Pool κ τ) {s : Socket κ τ} {socket : Scalar}
    (h : s.socketId = socket) (row : κ × List τ) :
    (p.file s).loadCoreList socket row = p.file (s.loadCoreList row) := by
  have hadd : (s.addCoreList row.1).socketId = socket := h
  rw [Pool.loadCoreList, p.addCoreList_file h, Socket.loadCoreList]
  exact foldl_within p.file (fun s => s.socketId = socket)
    (fun p task => p.addTask socket row.1 task) (fun s task => s.addTask row.1 task)
    (fun _ _ h => h) (fun _ task h => p.addTask_file h row.1 task) hadd row.2

/-- **A socket is filed in its pool**, whatever the pool has. -/
theorem Pool.loadSocket_eq (p : Pool κ τ) (row : Scalar × Dict κ (List τ)) :
    p.loadSocket row = p.file (buildSocket row) := by
  have hid : ∀ (s : Socket κ τ) (cl : κ × List τ), s.socketId = row.1 →
      (s.loadCoreList cl).socketId = row.1 := fun s cl h => by
    rw [Socket.loadCoreList_eq]
    exact h
  rw [← Socket.foldl_loadCoreList]
  exact foldl_within p.file (fun s => s.socketId = row.1) (Pool.loadCoreList row.1)
    Socket.loadCoreList hid (fun _ cl h => p.loadCoreList_file h cl) rfl row.2.rows

/-- **A pool is filed with its sockets.** -/
theorem Pool.foldl_loadSocket {row : String × Dict Scalar (Dict κ (List τ))} {exclusive : Bool}
    (h : exclusivity row.1 = some exclusive) :
    row.2.rows.foldl Pool.loadSocket ⟨exclusive, row.1, .empty⟩ = buildPool row := by
  have hloop : row.2.rows.foldl Pool.loadSocket ⟨exclusive, row.1, .empty⟩ =
      (⟨exclusive, row.1, row.2.rows.foldl (fun t s => t.insert (buildSocket s)) .empty⟩ :
        Pool κ τ) :=
    foldl_within (Pool.mk exclusive row.1) (fun _ => True) Pool.loadSocket _ (fun _ _ h => h)
      (fun t s _ => Pool.loadSocket_eq ⟨exclusive, row.1, t⟩ s) trivial row.2.rows
  rw [hloop, ← List.foldl_map, ← Table.ofList, Table.ofList_map row.2 _ socketId_buildSocket,
    buildPool, h]
  rfl

/-! ## The rounds for a pool -/

omit [DecidableEq κ] in
theorem Conf.addSocket_file (c : Conf κ τ) {p : Pool κ τ} {pool : String} (h : p.name = pool)
    (socket : Scalar) : (c.file p).addSocket pool socket = c.file (p.addSocket socket) :=
  congrArg Conf.mk (Table.modify_insert h)

theorem Conf.addCoreList_file (c : Conf κ τ) {p : Pool κ τ} {pool : String} (h : p.name = pool)
    (socket : Scalar) (id : κ) :
    (c.file p).addCoreList pool socket id = c.file (p.addCoreList socket id) :=
  congrArg Conf.mk (Table.modify_insert h)

theorem Conf.addTask_file (c : Conf κ τ) {p : Pool κ τ} {pool : String} (h : p.name = pool)
    (socket : Scalar) (id : κ) (task : τ) :
    (c.file p).addTask pool socket id task = c.file (p.addTask socket id task) :=
  congrArg Conf.mk (Table.modify_insert h)

theorem Pool.name_loadCoreList (p : Pool κ τ) (socket : Scalar) (row : κ × List τ) :
    (p.loadCoreList socket row).name = p.name := by
  have hloop : ∀ (tasks : List τ) (p : Pool κ τ),
      (tasks.foldl (fun p task => p.addTask socket row.1 task) p).name = p.name := by
    intro tasks
    induction tasks with
    | nil => exact fun _ => rfl
    | cons task tasks ih => exact fun p => ih _
  exact hloop row.2 _

theorem loadCoreList_file (c : Conf κ τ) {p : Pool κ τ} {pool : String} (h : p.name = pool)
    (socket : Scalar) (row : κ × List τ) :
    loadCoreList pool socket (c.file p) row = c.file (p.loadCoreList socket row) := by
  have hadd : (p.addCoreList socket row.1).name = pool := h
  rw [loadCoreList, c.addCoreList_file h, Pool.loadCoreList]
  exact foldl_within c.file (fun p => p.name = pool)
    (fun c task => c.addTask pool socket row.1 task) (fun p task => p.addTask socket row.1 task)
    (fun _ _ h => h) (fun _ task h => c.addTask_file h socket row.1 task) hadd row.2

theorem loadSocket_file (c : Conf κ τ) {p : Pool κ τ} {pool : String} (h : p.name = pool)
    (row : Scalar × Dict κ (List τ)) :
    loadSocket pool (c.file p) row = c.file (p.loadSocket row) := by
  have hadd : (p.addSocket row.1).name = pool := h
  rw [loadSocket, c.addSocket_file h]
  exact foldl_within c.file (fun p => p.name = pool) (loadCoreList pool row.1)
    (Pool.loadCoreList row.1)
    (fun p cl h => (p.name_loadCoreList row.1 cl).trans h)
    (fun _ cl h => loadCoreList_file c h row.1 cl) hadd row.2.rows

/-- **A pool is filed as `buildPool` makes it**, if its name is known. -/
theorem loadPool_eq (c : Conf κ τ) {row : String × Dict Scalar (Dict κ (List τ))}
    {exclusive : Bool} (h : exclusivity row.1 = some exclusive) :
    loadPool c row = .ok (c.file (buildPool row)) := by
  have hname : ∀ (p : Pool κ τ) (s : Scalar × Dict κ (List τ)), p.name = row.1 →
      (p.loadSocket s).name = row.1 := fun p s hp => by
    rw [Pool.loadSocket_eq]
    exact hp
  have hloop : row.2.rows.foldl (loadSocket row.1) (c.addPool exclusive row.1) =
      c.file (row.2.rows.foldl Pool.loadSocket ⟨exclusive, row.1, .empty⟩) :=
    foldl_within c.file (fun p => p.name = row.1) (loadSocket row.1) Pool.loadSocket hname
      (fun _ s hp => loadSocket_file c hp s) rfl row.2.rows
  rw [Pool.foldl_loadSocket h] at hloop
  rw [loadPool, h, ← hloop]

/-- **The loops of `build_config`** build what `buildConfig` says. -/
theorem buildConfigLoop_eq (d : ConfDict κ τ) : buildConfigLoop d = buildConfig d := by
  have hrun : ∀ (rows : List (String × Dict Scalar (Dict κ (List τ)))) (t : Table Pool.name),
      rows.foldlM loadPool ⟨t⟩ =
        if ∀ row ∈ rows, (exclusivity row.1).isSome then
          .ok (⟨(rows.map buildPool).foldl Table.insert t⟩ : Conf κ τ)
        else .error (.keyError none) := by
    intro rows
    induction rows with
    | nil => exact fun t => (if_pos (List.forall_mem_nil _)).symm
    | cons row rows ih =>
      intro t
      rw [List.foldlM_cons]
      cases h : exclusivity row.1 with
      | none =>
        have hno : ¬ ∀ r ∈ row :: rows, (exclusivity r.1).isSome := fun hall => by
          simpa [h] using hall row (.head _)
        rw [loadPool, h, if_neg hno]
        rfl
      | some exclusive =>
        rw [loadPool_eq ⟨t⟩ h]
        refine (ih (t.insert (buildPool row))).trans (if_congr ?_ rfl rfl)
        rw [List.forall_mem_cons, h]
        exact (and_iff_right rfl).symm
  rw [buildConfigLoop, hrun, buildConfig, ← Table.ofList, Table.ofList_map d _ name_buildPool]
  refine if_congr ?_ rfl rfl
  rw [Table.keys, List.forall_mem_map]

/-! ## The other direction -/

theorem dumpSocket_eq (s : Socket κ τ) : (s.socketId, dumpSocket s) = s.toDict := by
  rw [dumpSocket, Socket.toDict, ← Table.ofList_map, Table.ofList, List.foldl_map]
  rfl

theorem dumpPool_eq (p : Pool κ τ) : (p.name, dumpPool p) = p.toDict := by
  rw [dumpPool, Pool.toDict, ← Table.ofList_map, Table.ofList, List.foldl_map]
  simp only [dumpSocket_eq]

/-- **The loops of `build_configmap`** write what `buildConfigmap` says. -/
theorem buildConfigmapLoop_eq (c : Conf κ τ) : buildConfigmapLoop c = buildConfigmap c := by
  rw [buildConfigmapLoop, buildConfigmap, ← Table.ofList_map, Table.ofList, List.foldl_map]
  simp only [dumpPool_eq]

/-! ## Changes of the tasks -/

/-- A call of `update_clist` or `remove_task`, on a pool of the configuration. -/
inductive TaskOp (κ τ : Type)
  | updateClist (pool : String) (cl : κ) (pid : τ)
  | removeTask (pool : String) (cl : κ) (pid : τ)

variable [DecidableEq τ]

def TaskOp.run (c : Conf κ τ) : TaskOp κ τ → Conf κ τ
  | .updateClist pool cl pid => c.updateClist pool cl pid
  | .removeTask pool cl pid => c.removeTask pool cl pid

/-- No call changes what pools there are. -/
theorem Conf.Known.run {c : Conf κ τ} (h : c.Known) (op : TaskOp κ τ) : (op.run c).Known := by
  cases op with
  | updateClist pool cl pid => exact h.mapFirst pool cl _
  | removeTask pool cl pid => exact h.mapFirst pool cl _

theorem Conf.Known.runAll {c : Conf κ τ} (h : c.Known) (ops : List (TaskOp κ τ)) :
    (ops.foldl TaskOp.run c).Known := by
  induction ops generalizing c with
  | nil => exact h
  | cons op ops ih => exact ih (h.run op)

/-- **The store round-trips.**  A dictionary of known pools is what is written for the configuration
read from it, and that configuration is read back from what is written for it, now and after any
calls that change its tasks. -/
theorem store_round_trip {d : ConfDict κ τ} (h : ∀ pool ∈ d.keys, (exclusivity pool).isSome) :
    ∃ c, buildConfigLoop d = .ok c ∧ buildConfigmapLoop c = d ∧
      ∀ ops : List (TaskOp κ τ), buildConfigLoop (buildConfigmapLoop (ops.foldl TaskOp.run c)) =
        .ok (ops.foldl TaskOp.run c) := by
  have hbuild : buildConfig d = .ok ⟨d.map buildPool name_buildPool⟩ := if_pos h
  refine ⟨_, (buildConfigLoop_eq d).trans hbuild, ?_, fun ops => ?_⟩
  · rw [buildConfigmapLoop_eq]
    exact buildConfigmap_of_buildConfig hbuild
  · rw [buildConfigmapLoop_eq, buildConfigLoop_eq]
    exact buildConfig_buildConfigmap ((Conf.Known.of_buildConfig hbuild).runAll ops)

/-- An empty socket under an integer and one under a text, with two tasks and an empty CPU list. -/
def mixedSockets : ConfDict String String :=
  .ofList _ [("shared", .ofList _ [(.int 0, .empty),
    (.str "1", .ofList _ [("4,5", ["12", "11"]), ("6", [])])])]

theorem store_round_trip_mixedSockets :
    ∃ c, buildConfigLoop mixedSockets = .ok c ∧ buildConfigmapLoop c = mixedSockets ∧
      ∀ ops : List (TaskOp String String),
        buildConfigLoop (buildConfigmapLoop (ops.foldl TaskOp.run c)) =
          .ok (ops.foldl TaskOp.run c) :=
  store_round_trip (by decide)

end Cmk
