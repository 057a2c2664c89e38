import Cmk.Machinery.Seating
import Cmk.Reconfigure.Procs

/-!
# Reconfigure/Matching — the matching loops of `reconfigure_directory`

Three loops move the pids of every occupied CPU list to the new configuration: to the list of the
same name, to a free list of the same socket, to a free list of another socket.  The third is
entered for a list whose socket has no place for it, and never returns: every round of it raises or
goes on to the next socket, until none is left (`otherSockets_ne_ok`).  So the loops return exactly
when the first two place everything: when no socket of a pool has more occupied lists than the new
configuration has lists there (`isOk_matching_iff` of `Seats`).
-/

open Machinery Machinery.Seating

namespace Cmk

variable {τ : Type} [DecidableEq τ]

/-! ## The sockets left to try -/

/-- The position a Python index means, if it is in range. -/
def pyIndex (length : ℕ) (i : ℤ) : Option ℕ :=
  if 0 ≤ i ∧ i < length then some i.toNat
  else if i < 0 ∧ -length ≤ i then some (i + length).toNat
  else none

namespace ProcessInfo

/-- The position of the flag of its socket. -/
def flagIndex (proc : ProcessInfo τ) : Except PyErr ℕ := do
  let i ← proc.socket.toInt
  match pyIndex proc.sockets.length i with
  | some k => return k
  | none => .error .indexError

/-- `update_sockets`: give up the socket and go to the first that is not given up. -/
def updateSockets (proc : ProcessInfo τ) : Except PyErr (ProcessInfo τ) := do
  let k ← proc.flagIndex
  match (proc.sockets.set k false).findIdx? id with
  | some index =>
    return { proc with
      sockets := proc.sockets.set k false
      socket := .str (toString (index : ℤ)) }
  | none => .error .indexError

/-- How often `updateSockets` can be repeated. -/
def tries (proc : ProcessInfo τ) : ℕ :=
  proc.sockets.count true +
    if proc.flagIndex.toOption.bind (proc.sockets[·]?) = some true then 0 else 1

omit [DecidableEq τ] in
theorem flagIndex_lt {proc : ProcessInfo τ} {k : ℕ} (h : proc.flagIndex = .ok k) :
    k < proc.sockets.length := by
  obtain ⟨i, -, h⟩ := bind_eq_ok.mp h
  split at h
  · rename_i k' hk
    obtain rfl := pure_eq_ok.mp h
    unfold pyIndex at hk
    split at hk
    · obtain rfl := Option.some.inj hk
      omega
    · split at hk
      · obtain rfl := Option.some.inj hk
        omega
      · nomatch hk
  · nomatch h

omit [DecidableEq τ] in
theorem updateSockets_ok {proc proc' : ProcessInfo τ} (h : proc.updateSockets = .ok proc') :
    ∃ k index : ℕ, proc.flagIndex = .ok k ∧ (proc.sockets.set k false)[index]? = some true ∧
      proc' = { proc with
        sockets := proc.sockets.set k false
        socket := .str (toString (index : ℤ)) } := by
  obtain ⟨k, hk, h⟩ := bind_eq_ok.mp h
  split at h
  · rename_i index hidx
    obtain rfl := pure_eq_ok.mp h
    obtain ⟨hlt, ht, -⟩ := List.findIdx?_eq_some_iff_getElem.mp hidx
    exact ⟨k, index, hk, by rw [List.getElem?_eq_getElem hlt]; simpa using ht, rfl⟩
  · nomatch h

omit [DecidableEq τ] in
/-- **Every call gives up one socket**, or moves to one that is not given up. -/
theorem tries_updateSockets {proc proc' : ProcessInfo τ} (h : proc.updateSockets = .ok proc') :
    proc'.tries < proc.tries := by
  obtain ⟨k, index, hk, hidx, rfl⟩ := updateSockets_ok h
  have hlt : index < (proc.sockets.set k false).length := by
    by_contra hge
    rw [List.getElem?_eq_none (by omega)] at hidx
    nomatch hidx
  have hflag : ({ proc with
      sockets := proc.sockets.set k false
      socket := .str (toString (index : ℤ)) } : ProcessInfo τ).flagIndex = .ok index := by
    refine bind_eq_ok.mpr ⟨index, intOfStr_toString index, ?_⟩
    simp only [pyIndex]
    rw [if_pos ⟨by omega, by omega⟩]
    rfl
  have hk' := flagIndex_lt hk
  simp only [tries, hflag, hk, Except.toOption, Option.bind_some]
  rw [if_pos hidx, List.count_set hk', List.getElem?_eq_getElem hk']
  cases hb : proc.sockets[k] with
  | false => simp
  | true =>
    have hmem : true ∈ proc.sockets := hb ▸ List.getElem_mem hk'
    simpa using hmem

end ProcessInfo

/-! ## The three loops -/

structure Matching (τ : Type) where
  conf : Conf String τ
  procs : Procs τ
  clistMismatch : List (ProcessInfo τ)
  socketMismatch : List (ProcessInfo τ)

namespace Matching

/-- `cl.tasks = proc.pid`, with the list recorded for every pid. -/
def give (st : Matching τ) (proc : ProcessInfo τ) (socket : Scalar) (cl : String) :
    Except PyErr (Matching τ) := do
  let procs ← st.procs.addNewClist cl proc.pid
  return { st with
    conf := st.conf.mapTasks proc.pool socket cl fun _ => proc.pid
    procs := procs }

/-- The CPU lists of the socket of a process in its new pool; nothing here raises the
`FileNotFoundError` the source catches. -/
def clists (st : Matching τ) (proc : ProcessInfo τ) :
    Except PyErr (Pool String τ × List (CoreList String τ)) := do
  let newPool ← st.conf.getPool proc.pool
  let clists ← newPool.getSocketClists proc.socket
  return (newPool, clists)

/-- A round of the first loop. -/
def sameList (st : Matching τ) (proc : ProcessInfo τ) : Except PyErr (Matching τ) := do
  let (newPool, clists) ← st.clists proc
  if clists = [] then
    let moved ← proc.updateSockets
    return { st with socketMismatch := st.socketMismatch ++ [moved] }
  else if proc.oldClist ∈ clists.map CoreList.coreId then
    match ← newPool.getCoreList proc.oldClist (some proc.socket) with
    | some socket => st.give proc socket proc.oldClist
    | none => .error .attributeError
  else return { st with clistMismatch := st.clistMismatch ++ [proc] }

/-- A round of the second loop. -/
def sameSocket (st : Matching τ) (proc : ProcessInfo τ) : Except PyErr (Matching τ) := do
  let (_, clists) ← st.clists proc
  match clists.find? fun cl => cl.tasks = [] with
  | some cl => st.give proc proc.socket cl.coreId
  | none => return { st with socketMismatch := st.socketMismatch ++ [proc] }

/-- A round of the third loop, with its `while`.  For a free list it calls `cl.cpus()`, a method no
`CoreList` has. -/
def otherSockets (st : Matching τ) (proc : ProcessInfo τ) : Except PyErr (Matching τ) :=
  match st.clists proc with
  | .error e => .error e
  | .ok (_, clists) =>
    match clists.find? fun cl => cl.tasks = [] with
    | some cl =>
      if proc.pid = [] then
        .ok { st with conf := st.conf.mapTasks proc.pool proc.socket cl.coreId fun _ => proc.pid }
      else .error .attributeError
    | none =>
      match _h : proc.updateSockets with
      | .error e => .error e
      | .ok proc' => otherSockets st proc'
termination_by proc.tries
decreasing_by exact ProcessInfo.tries_updateSockets _h

end Matching

/-- The matching loops, on the new configuration and what `build_proc_info` returned. -/
def matching (new : Conf String τ) (procInfo : List (ProcessInfo τ)) (procs : Procs τ) :
    Except PyErr (Conf String τ × Procs τ) := do
  let st ← procInfo.foldlM Matching.sameList ⟨new, procs, [], []⟩
  let st ← st.clistMismatch.foldlM Matching.sameSocket st
  let st ← st.socketMismatch.foldlM Matching.otherSockets st
  return (st.conf, st.procs)

end Cmk
