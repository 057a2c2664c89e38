import Cmk.Machinery.Deal
import Cmk.Machinery.Table
import Cmk.Python

/-!
# Topology/Platform — sockets, physical cores and CPUs

The objects of `topology.py`, every dictionary a `Table`.  A core also carries the socket it is
filed under, so that a value says which object it is; the one attribute that changes, `pool`, is
kept apart in a `Marking` of the cores.

The lists of cores the allocation works on all come from `allocatePacked` and `allocateSpread`; up
to order both are the cores of a kind (`perm_getCoresGeneral`).
-/

open Machinery Machinery.Deal

namespace Cmk.Topology

structure CPU where
  cpuId : ℤ
  isolated : Bool
  sstBf : Bool
deriving DecidableEq

structure Core where
  socketId : ℤ
  coreId : ℤ
  cpus : Table CPU.cpuId
deriving DecidableEq

structure Socket where
  socketId : ℤ
  cores : Table Core.coreId
deriving DecidableEq

structure Platform where
  sockets : Table Socket.socketId
deriving DecidableEq

/-- The attribute `pool` of every core. -/
abbrev Pools := Marking Core String

/-! ## Reading -/

namespace Core

def cpuIds (core : Core) : List ℤ := core.cpus.keys

def isIsolated (core : Core) : Bool :=
  core.cpus.rows ≠ [] && core.cpus.rows.all CPU.isolated

def isSstBf (core : Core) : Bool :=
  core.cpus.rows ≠ [] && core.cpus.rows.all CPU.sstBf

end Core

namespace Socket

def hasIsolatedCores (s : Socket) : Bool := s.cores.rows.any Core.isIsolated

def hasIsolatedSstBfCores (s : Socket) : Bool :=
  s.cores.rows.any fun core => core.isSstBf && core.isIsolated

def getCores (s : Socket) : List Core := s.cores.rows

def getIsolatedCores (s : Socket) : List Core := s.cores.rows.filter Core.isIsolated

def getSstBfCores (s : Socket) : List Core := s.cores.rows.filter Core.isSstBf

def getIsolatedSstBfCores (s : Socket) : List Core :=
  s.cores.rows.filter fun core => core.isSstBf && core.isIsolated

def getSharedCores (s : Socket) : List Core := s.cores.rows.filter fun core => !core.isIsolated

def getCoresFromPool (s : Socket) (pools : Pools) (pool : String) : List Core :=
  holders pools s.cores.rows pool

/-- The four cases of the allocation loops. -/
def select (s : Socket) (isolated sstBf : Bool) : List Core :=
  if isolated && sstBf then s.getIsolatedSstBfCores
  else if isolated && !sstBf then s.getIsolatedCores
  else if !isolated && sstBf then s.getSstBfCores
  else s.getCores

end Socket

namespace Platform

def hasIsolatedCores (p : Platform) : Bool := p.sockets.rows.any Socket.hasIsolatedCores

def hasIsolatedSstBfCores (p : Platform) : Bool := p.sockets.rows.any Socket.hasIsolatedSstBfCores

def allocatePacked (p : Platform) (isolated sstBf : Bool) : List Core :=
  p.sockets.rows.flatMap fun s => s.select isolated sstBf

/-- One core of every socket in turn, a socket without cores left being dropped. -/
def allocateSpread (p : Platform) (isolated sstBf : Bool) : List Core :=
  roundRobin (p.sockets.rows.map fun s => s.select isolated sstBf)

/-- A mode that is neither `spread` nor `packed` counts as `packed`. -/
def getCoresGeneral (p : Platform) (mode : String) (isolated sstBf : Bool) : List Core :=
  if mode = "spread" then p.allocateSpread isolated sstBf else p.allocatePacked isolated sstBf

def getCores (p : Platform) (mode : String) : List Core := p.getCoresGeneral mode false false

def getIsolatedCores (p : Platform) (mode : String) : List Core := p.getCoresGeneral mode true false

def getIsolatedSstBfCores (p : Platform) (mode : String) : List Core :=
  p.getCoresGeneral mode true true

def getSharedCores (p : Platform) : List Core := p.sockets.rows.flatMap Socket.getSharedCores

/-- The cores of the platform, socket by socket. -/
def cores (p : Platform) : List Core := p.sockets.rows.flatMap fun s => s.cores.rows

end Platform

/-! ## Platforms as `parse` builds them -/

/-- Every core is filed under its socket, has a CPU, and shares none. -/
structure Platform.Ok (p : Platform) : Prop where
  placed : ∀ s ∈ p.sockets.rows, ∀ core ∈ s.cores.rows, core.socketId = s.socketId
  nonempty : ∀ core ∈ p.cores, core.cpuIds ≠ []
  disjoint : ∀ core ∈ p.cores, ∀ core' ∈ p.cores, ∀ z ∈ core.cpuIds, z ∈ core'.cpuIds →
    core = core'

variable {p : Platform}

theorem mem_cores {core : Core} :
    core ∈ p.cores ↔ ∃ s ∈ p.sockets.rows, core ∈ s.cores.rows := List.mem_flatMap

/-- Cores filed under their socket are there once. -/
theorem nodup_cores_of_placed
    (h : ∀ s ∈ p.sockets.rows, ∀ core ∈ s.cores.rows, core.socketId = s.socketId) :
    p.cores.Nodup := by
  rw [Platform.cores, List.nodup_flatMap]
  refine ⟨fun s _ => s.cores.nodup_rows, ?_⟩
  refine (List.pairwise_map.mp p.sockets.nodup).imp_of_mem fun {s s'} hs hs' hne => ?_
  intro core hc hc'
  exact hne ((h s hs core hc).symm.trans (h s' hs' core hc'))

theorem Platform.Ok.nodup_cores (h : p.Ok) : p.cores.Nodup := nodup_cores_of_placed h.placed

theorem select_eq_filter (s : Socket) (isolated sstBf : Bool) :
    s.select isolated sstBf =
      s.cores.rows.filter fun core =>
        (!isolated || core.isIsolated) && (!sstBf || core.isSstBf) := by
  cases isolated <;> cases sstBf <;>
    simp [Socket.select, Socket.getCores, Socket.getIsolatedCores, Socket.getSstBfCores,
      Socket.getIsolatedSstBfCores, Bool.and_comm]

/-- **Whatever the mode, the cores of the kind, each once.** -/
theorem perm_getCoresGeneral (p : Platform) (mode : String) (isolated sstBf : Bool) :
    (p.getCoresGeneral mode isolated sstBf).Perm
      (p.cores.filter fun core => (!isolated || core.isIsolated) && (!sstBf || core.isSstBf)) := by
  have hpacked : p.allocatePacked isolated sstBf = p.cores.filter fun core =>
      (!isolated || core.isIsolated) && (!sstBf || core.isSstBf) := by
    rw [Platform.allocatePacked, Platform.cores, List.filter_flatMap]
    exact List.flatMap_congr fun s _ => select_eq_filter s isolated sstBf
  rw [Platform.getCoresGeneral, ← hpacked]
  split
  · rw [Platform.allocateSpread, Platform.allocatePacked, List.flatMap_def]
    exact perm_roundRobin _
  · exact .refl _

theorem perm_getCores (p : Platform) (mode : String) : (p.getCores mode).Perm p.cores := by
  simpa [Platform.getCores] using perm_getCoresGeneral p mode false false

theorem getSharedCores_eq (p : Platform) :
    p.getSharedCores = p.cores.filter fun core => !core.isIsolated := by
  rw [Platform.getSharedCores, Platform.cores, List.filter_flatMap]
  rfl

theorem hasIsolatedCores_of_sstBf (h : p.hasIsolatedSstBfCores) : p.hasIsolatedCores := by
  obtain ⟨s, hs, h⟩ := List.any_eq_true.mp h
  obtain ⟨core, hc, h⟩ := List.any_eq_true.mp h
  exact List.any_eq_true.mpr ⟨s, hs, List.any_eq_true.mpr ⟨core, hc,
    (Bool.and_eq_true_iff.mp h).2⟩⟩

end Cmk.Topology
