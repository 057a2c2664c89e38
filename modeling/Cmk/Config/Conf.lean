import Cmk.Machinery.Table
import Cmk.Python

/-!
# Config/Conf — the configuration objects

`Conf`, `Pool`, `Socket` and `CoreList` are the objects of the same names; every dictionary among
them files an object under one of its own attributes, which `Table` makes part of the type.
Core-list names and tasks stay generic: the YAML reader may hand over any value there.

A configuration is read through `Conf.entries`, its CPU lists in stored order with the pool and
socket each is filed under.  Every update of a run rewrites the `tasks` of one entry
(`entries_mapTasks`), so what an update does is said once, on entries.
-/

open Machinery

namespace Cmk

/-- Which pools hand a CPU list to one task only; `none` for a name that is not a pool. -/
def exclusivity (pool : String) : Option Bool :=
  if pool = "exclusive" then some true
  else if pool = "exclusive-non-isolcpus" then some true
  else if pool = "shared" then some false
  else if pool = "infra" then some false
  else none

structure CoreList (κ τ : Type) where
  coreId : κ
  tasks : List τ
deriving DecidableEq

structure Socket (κ τ : Type) where
  socketId : Scalar
  coreLists : Table (CoreList.coreId : CoreList κ τ → κ)

structure Pool (κ τ : Type) where
  exclusive : Bool
  name : String
  sockets : Table (Socket.socketId : Socket κ τ → Scalar)

structure Conf (κ τ : Type) where
  pools : Table (Pool.name : Pool κ τ → String)

deriving instance DecidableEq for Socket
deriving instance DecidableEq for Pool
deriving instance DecidableEq for Conf

/-- A CPU list of a configuration with the place it is filed under. -/
structure Entry (κ τ : Type) where
  pool : String
  socket : Scalar
  coreId : κ
  tasks : List τ
deriving DecidableEq

/-- The place of an entry. -/
abbrev Entry.loc {κ τ : Type} (e : Entry κ τ) : String × Scalar × κ := (e.pool, e.socket, e.coreId)

variable {κ τ : Type} [DecidableEq κ]

/-! ## Reading -/

namespace Pool

/-- The CPU lists of a pool, sockets and lists in stored order. -/
def entries (p : Pool κ τ) : List (Entry κ τ) :=
  p.sockets.rows.flatMap fun s => s.coreLists.rows.map fun cl =>
    ⟨p.name, s.socketId, cl.coreId, cl.tasks⟩

def getSocket (p : Pool κ τ) (socketId : Scalar) : Except PyErr (Socket κ τ) :=
  match p.sockets.get? socketId with
  | some s => .ok s
  | none => .error (.keyError none)

def getSocketClists (p : Pool κ τ) (socketId : Scalar) : Except PyErr (List (CoreList κ τ)) := do
  let s ← p.getSocket socketId
  return s.coreLists.rows

/-- `get_core_lists(socket_id=None)`: a socket id that is falsy counts as none given. -/
def getCoreLists (p : Pool κ τ) (socketId : Option Scalar) : Except PyErr (List (CoreList κ τ)) :=
  match socketId with
  | some s =>
    if s.truthy then p.getSocketClists s
    else .ok (p.sockets.rows.flatMap fun s => s.coreLists.rows)
  | none => .ok (p.sockets.rows.flatMap fun s => s.coreLists.rows)

/-- The first socket that has a CPU list of that name. -/
def socketOf (p : Pool κ τ) (cl : κ) : Option Scalar :=
  (p.sockets.rows.find? fun s => cl ∈ s.coreLists.keys).map Socket.socketId

/-- `get_core_list(cl, socket_id=None)`, as the socket the list found is filed under; `none` is the
`None` the search over all sockets falls through to. -/
def getCoreList (p : Pool κ τ) (cl : κ) (socketId : Option Scalar) :
    Except PyErr (Option Scalar) :=
  match socketId with
  | some s =>
    if s.truthy then do
      let found ← p.getSocket s
      if cl ∈ found.coreLists.keys then return some s else .error (.keyError none)
    else .ok (p.socketOf cl)
  | none => .ok (p.socketOf cl)

end Pool

namespace Conf

/-- The CPU lists of a configuration, pools, sockets and lists in stored order. -/
def entries (c : Conf κ τ) : List (Entry κ τ) := c.pools.rows.flatMap Pool.entries

def getPool (c : Conf κ τ) (name : String) : Except PyErr (Pool κ τ) :=
  match c.pools.get? name with
  | some p => .ok p
  | none => .error (.keyError none)

/-- `get_pools`. -/
def getPools (c : Conf κ τ) : List String := c.pools.keys

end Conf

/-! ## Writing -/

def CoreList.mapTasks (cl : CoreList κ τ) (f : List τ → List τ) : CoreList κ τ :=
  { cl with tasks := f cl.tasks }

omit [DecidableEq κ] in
@[simp] theorem CoreList.coreId_mapTasks (cl : CoreList κ τ) (f : List τ → List τ) :
    (cl.mapTasks f).coreId = cl.coreId := rfl

/-- Rewrite the tasks of the CPU list `cl`, if the socket has it. -/
def Socket.mapTasks (s : Socket κ τ) (cl : κ) (f : List τ → List τ) : Socket κ τ :=
  { s with coreLists := s.coreLists.modify cl (fun c => c.mapTasks f) fun c => c.coreId_mapTasks f }

@[simp] theorem Socket.socketId_mapTasks (s : Socket κ τ) (cl : κ) (f : List τ → List τ) :
    (s.mapTasks cl f).socketId = s.socketId := rfl

/-- Rewrite the tasks of the CPU list `cl` of a socket, if the pool has it there. -/
def Pool.mapTasks (p : Pool κ τ) (socket : Scalar) (cl : κ) (f : List τ → List τ) : Pool κ τ :=
  { p with
    sockets :=
      p.sockets.modify socket (fun s => s.mapTasks cl f) fun s => s.socketId_mapTasks cl f }

@[simp] theorem Pool.name_mapTasks (p : Pool κ τ) (s : Scalar) (cl : κ) (f : List τ → List τ) :
    (p.mapTasks s cl f).name = p.name := rfl

/-- Rewrite the tasks at a place of a configuration, if it has it. -/
def Conf.mapTasks (c : Conf κ τ) (pool : String) (socket : Scalar) (cl : κ)
    (f : List τ → List τ) : Conf κ τ :=
  { c with
    pools := c.pools.modify pool (fun p => p.mapTasks socket cl f) fun p =>
      p.name_mapTasks socket cl f }

/-- The `for socket … try … except KeyError: continue` of `update_clist` and `remove_task`: rewrite
the tasks of the first CPU list of that name, if there is one. -/
def Pool.mapFirst (p : Pool κ τ) (cl : κ) (f : List τ → List τ) : Pool κ τ :=
  match p.socketOf cl with
  | some s => p.mapTasks s cl f
  | none => p

def Pool.updateClist (p : Pool κ τ) (cl : κ) (pid : τ) : Pool κ τ :=
  p.mapFirst cl fun tasks => tasks ++ [pid]

def Pool.removeTask [DecidableEq τ] (p : Pool κ τ) (cl : κ) (pid : τ) : Pool κ τ :=
  p.mapFirst cl fun tasks => tasks.filter (· ≠ pid)

@[simp] theorem Pool.name_mapFirst (p : Pool κ τ) (cl : κ) (f : List τ → List τ) :
    (p.mapFirst cl f).name = p.name := by
  unfold Pool.mapFirst
  split <;> rfl

/-- `mapFirst` in one pool of a configuration. -/
def Conf.mapFirst (c : Conf κ τ) (pool : String) (cl : κ) (f : List τ → List τ) : Conf κ τ :=
  { c with pools := c.pools.modify pool (fun p => p.mapFirst cl f) fun p => p.name_mapFirst cl f }

def Conf.updateClist (c : Conf κ τ) (pool : String) (cl : κ) (pid : τ) : Conf κ τ :=
  c.mapFirst pool cl fun tasks => tasks ++ [pid]

def Conf.removeTask [DecidableEq τ] (c : Conf κ τ) (pool : String) (cl : κ) (pid : τ) : Conf κ τ :=
  c.mapFirst pool cl fun tasks => tasks.filter (· ≠ pid)

end Cmk
