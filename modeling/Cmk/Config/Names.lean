import Cmk.Config.New
import Cmk.Proc

/-!
# Config/Names — CPU lists and their two decoders

A CPU list is decoded by `unfold_cpu_list` or by `parse_cpus_str`.  On every text in the Linux
format the two give the same ids, and the names `init` files its CPU lists under are such texts of
just the ids they were made from (`decoders_agree`).
-/

open Machinery Machinery.Deal Cmk.Topology

namespace Cmk

/-- Either decoder reads these ids. -/
def DecodesTo (name : String) (cpus : List ℤ) : Prop :=
  unfoldCpuList name = .ok cpus ∧ parseCpusStr (splitText ',' name) = .ok cpus

instance (name : String) (cpus : List ℤ) : Decidable (DecodesTo name cpus) := instDecidableAnd

/-- A list of CPU ids. -/
def AreCpuIds (cpus : List ℤ) : Prop := cpus ≠ [] ∧ ∀ z ∈ cpus, 0 ≤ z

/-- The names of the CPU lists filed under a pool and a socket. -/
def namesAt (config : ConfDict String String) (pool : String) (socket : Scalar) : List String :=
  ((config.get? pool).bind fun row => (row.2.get? socket).map fun lists => lists.2.keys).getD []

/-! ## Both decoders -/

/-- **A text in the Linux format** is its ids in written order, to either decoder. -/
theorem decodesTo_cpusIn {text : String} (h : IsCpuList text) :
    DecodesTo text ((cpusIn text).map Int.ofNat) :=
  ⟨unfoldCpuList_eq h, parseCpusStr_eq h⟩

/-- **Ids joined with commas** come back. -/
theorem decodesTo_encodeInts {cpus : List ℤ} (h : AreCpuIds cpus) :
    DecodesTo (encodeInts cpus) cpus := by
  have hids : (cpus.map Int.toNat).map Int.ofNat = cpus := by
    rw [List.map_map]
    exact (List.map_congr_left fun z hz => Int.toNat_of_nonneg (h.2 z hz)).trans (List.map_id _)
  have hne : cpus.map Int.toNat ≠ [] := by simpa using h.1
  have hdecode := decodesTo_cpusIn (isCpuList_encodeInts hne)
  rwa [cpusIn_encodeInts hne, hids] at hdecode

/-! ## The names `init` writes -/

theorem mem_keys_listDict {names : List String} {name : String} :
    name ∈ (listDict names).keys ↔ name ∈ names := by
  rw [listDict, Table.mem_keys_ofList, List.map_map]
  simp

/-- The lists of a socket, of the pool added last. -/
theorem namesAt_addPool {p : Platform} {s : Topology.Socket} (hs : s ∈ p.sockets.rows)
    (pool : String) (names : Topology.Socket → List String) (config : ConfDict String String) :
    namesAt (addPool pool p names config) pool (.int s.socketId) = (listDict (names s)).keys := by
  have hget : (addPool pool p names config).get? pool = some (pool, socketDict p names) := by
    rw [addPool, Table.get?_insert, if_pos rfl]
  have hmem : (Scalar.int s.socketId, listDict (names s)) ∈ (socketDict p names).rows := by
    rw [rows_socketDict]
    exact List.mem_map_of_mem hs
  rw [namesAt, hget, Option.bind_some, Table.get?_key hmem]
  rfl

/-- The names of an exclusive pool are those of its cores. -/
theorem mem_namesAt_exclusive {p : Platform} {s : Topology.Socket} (hs : s ∈ p.sockets.rows)
    (pools : Pools) (pool : String) (config : ConfDict String String) {name : String} :
    name ∈ namesAt (updateConfigmapExclusive pool p pools config) pool (.int s.socketId) ↔
      ∃ core ∈ s.getCoresFromPool pools pool, encodeInts core.cpuIds = name := by
  rw [updateConfigmapExclusive, namesAt_addPool hs, mem_keys_listDict, exclusiveNames,
    List.mem_map]

/-- The name of a shared pool is that of all its cores. -/
theorem namesAt_shared {p : Platform} {s : Topology.Socket} (hs : s ∈ p.sockets.rows)
    (pools : Pools) (pool : String) (config : ConfDict String String)
    (hne : (s.getCoresFromPool pools pool).flatMap Core.cpuIds ≠ []) :
    namesAt (updateConfigmapShared pool p pools config) pool (.int s.socketId) =
      [encodeInts ((s.getCoresFromPool pools pool).flatMap Core.cpuIds)] := by
  rw [updateConfigmapShared, namesAt_addPool hs, sharedNames, if_neg hne]
  rfl

/-- **The decoders agree**, on every text in the Linux format, and undo what `init` writes for an
exclusive or a shared pool. -/
theorem decoders_agree :
    (∀ text, IsCpuList text → DecodesTo text ((cpusIn text).map Int.ofNat)) ∧
    (∀ cpus, AreCpuIds cpus → DecodesTo (encodeInts cpus) cpus) ∧
    ∀ (p : Platform) (pools : Pools) (pool : String) (config : ConfDict String String),
      ∀ s ∈ p.sockets.rows,
        ((∀ core ∈ s.getCoresFromPool pools pool, AreCpuIds core.cpuIds →
          ∃ name ∈ namesAt (updateConfigmapExclusive pool p pools config) pool (.int s.socketId),
            DecodesTo name core.cpuIds) ∧
        ∀ name ∈ namesAt (updateConfigmapExclusive pool p pools config) pool (.int s.socketId),
          ∃ core ∈ s.getCoresFromPool pools pool, name = encodeInts core.cpuIds) ∧
        (AreCpuIds ((s.getCoresFromPool pools pool).flatMap Core.cpuIds) →
          ∃ name, namesAt (updateConfigmapShared pool p pools config) pool (.int s.socketId) =
              [name] ∧
            DecodesTo name ((s.getCoresFromPool pools pool).flatMap Core.cpuIds)) := by
  refine ⟨fun _ => decodesTo_cpusIn, fun _ => decodesTo_encodeInts,
    fun p pools pool config s hs => ⟨⟨fun core hc hids => ?_, fun name hname => ?_⟩,
      fun hids => ?_⟩⟩
  · exact ⟨_, (mem_namesAt_exclusive hs pools pool config).mpr ⟨core, hc, rfl⟩,
      decodesTo_encodeInts hids⟩
  · obtain ⟨core, hc, rfl⟩ := (mem_namesAt_exclusive hs pools pool config).mp hname
    exact ⟨core, hc, rfl⟩
  · exact ⟨_, namesAt_shared hs pools pool config hids.1, decodesTo_encodeInts hids⟩

/-- One core with two CPUs. -/
def twoCpus : Platform where
  sockets := .ofList _ [⟨0, .ofList _ [⟨0, 0, .ofList _ [⟨0, false, false⟩, ⟨4, false, false⟩]⟩]⟩]

theorem decoders_agree_twoCpus :
    DecodesTo "0-2,8" [0, 1, 2, 8] ∧
      ∃ name, namesAt (updateConfigmapShared "infra" twoCpus (fun _ => some "infra") .empty)
          "infra" (.int 0) = [name] ∧
        DecodesTo name [0, 4] :=
  ⟨decoders_agree.1 "0-2,8" (by decide),
    (decoders_agree.2.2 twoCpus (fun _ => some "infra") "infra" .empty _ (.head _)).2
      ⟨by decide, by decide⟩⟩

end Cmk
