import Cmk.Topology.Platform

/-!
# Topology/Parse — platforms from the output of `lscpu -p`

Every line that is no comment is one CPU; `parse` files it under its socket and core, making them as
they turn up.  What it builds holds the records of the lines and nothing else (`Built.addCpu`), so
with distinct CPU ids no two cores share a CPU (`ok_of_parse`).
-/

open Machinery

namespace Cmk.Topology

/-- The first three columns of a line. -/
structure Record where
  cpuId : ℤ
  coreId : ℤ
  socketId : ℤ
deriving DecidableEq

/-- `int(fields[i])`. -/
def column (fields : List String) (i : ℕ) : Except PyErr ℤ :=
  match fields[i]? with
  | some field => intOfStr field
  | none => .error .indexError

def parseLine (line : String) : Except PyErr Record := do
  let cpuinfo := splitText ',' line
  let socketId ← column cpuinfo 2
  let coreId ← column cpuinfo 1
  let cpuId ← column cpuinfo 0
  return ⟨cpuId, coreId, socketId⟩

/-- The records of the lines that are neither empty nor comments. -/
def records (lscpuOutput : String) : Except PyErr (List Record) :=
  ((splitText '\n' lscpuOutput).filter fun line =>
    line ≠ "" && line.toList.head? ≠ some '#').mapM parseLine

def Core.addCpu (core : Core) (cpu : CPU) : Core := { core with cpus := core.cpus.insert cpu }

def Socket.addCpu (s : Socket) (coreId : ℤ) (cpu : CPU) : Socket :=
  { s with
    cores := s.cores.insert (((s.cores.get? coreId).getD ⟨s.socketId, coreId, .empty⟩).addCpu cpu) }

def Platform.addCpu (p : Platform) (r : Record) (cpu : CPU) : Platform where
  sockets := p.sockets.insert
    (((p.sockets.get? r.socketId).getD ⟨r.socketId, .empty⟩).addCpu r.coreId cpu)

/-- One line of the output, with the two lists of CPU ids it is looked up in. -/
def Platform.addRecord (isolatedCpus sstBfCpus : List ℤ) (p : Platform) (r : Record) : Platform :=
  p.addCpu r ⟨r.cpuId, r.cpuId ∈ isolatedCpus, r.cpuId ∈ sstBfCpus⟩

def parse (lscpuOutput : String) (isolatedCpus sstBfCpus : List ℤ) : Except PyErr Platform := do
  let rs ← records lscpuOutput
  return rs.foldl (Platform.addRecord isolatedCpus sstBfCpus) ⟨.empty⟩

/-- The CPU ids of an output are distinct. -/
def DistinctCpus (lscpuOutput : String) : Prop :=
  ∀ rs, records lscpuOutput = .ok rs → (rs.map Record.cpuId).Nodup

/-! ## Lists of CPUs as the kernel writes them -/

/-- `range(lo, hi)`. -/
def pyRange (lo hi : ℤ) : List ℤ := (List.range (hi - lo).toNat).map fun k => lo + k

theorem mem_pyRange {a b z : ℤ} : z ∈ pyRange a (b + 1) ↔ a ≤ z ∧ z ≤ b := by
  simp only [pyRange, List.bind_eq_flatMap, List.pure_def, List.mem_map, List.mem_flatMap,
    List.mem_range, List.mem_singleton]
  constructor
  · rintro ⟨_, ⟨k, hk, rfl⟩, rfl⟩
    omega
  · rintro ⟨ha, hb⟩
    exact ⟨_, ⟨(z - a).toNat, by omega, rfl⟩, by omega⟩

theorem pyRange_natCast (a b : ℕ) :
    pyRange a (b + 1) = (List.range' a (b + 1 - a)).map Int.ofNat := by
  have hlen : ((b : ℤ) + 1 - a).toNat = b + 1 - a := by omega
  have hcast : (do let k ← List.range (b + 1 - a); return (k : ℤ)) =
      (List.range (b + 1 - a)).map Int.ofNat := List.map_eq_flatMap.symm
  rw [pyRange, hlen, hcast, List.range'_eq_map_range, List.map_map, List.map_map]
  rfl

def parseCpusStr : List String → Except PyErr (List ℤ)
  | [] => .ok []
  | cpuId :: rest =>
    if '-' ∉ cpuId.toList then do
      let cpu ← intOfStr cpuId
      let cpus ← parseCpusStr rest
      return cpu :: cpus
    else
      match splitSpace (joinWith " " (splitText '-' cpuId)) with
      | [lo, hi] => do
        let lo ← intOfStr lo
        let hi ← intOfStr hi
        let cpus ← parseCpusStr rest
        return pyRange lo (hi + 1) ++ cpus
      | _ => parseCpusStr rest

section

variable {cpuId lo hi : String} {rest : List String}

/-- A piece without a hyphen is a CPU. -/
theorem parseCpusStr_cons_int (hdash : '-' ∉ cpuId.toList) :
    parseCpusStr (cpuId :: rest) = (do
      let cpu ← intOfStr cpuId
      let cpus ← parseCpusStr rest
      return cpu :: cpus) := by
  rw [parseCpusStr, if_pos hdash]

/-- A piece of two parts is a range. -/
theorem parseCpusStr_cons_range (hdash : '-' ∈ cpuId.toList)
    (hends : splitSpace (joinWith " " (splitText '-' cpuId)) = [lo, hi]) :
    parseCpusStr (cpuId :: rest) = (do
      let lo ← intOfStr lo
      let hi ← intOfStr hi
      let cpus ← parseCpusStr rest
      return pyRange lo (hi + 1) ++ cpus) := by
  rw [parseCpusStr, if_neg (not_not.mpr hdash), hends]

/-- Any other piece is passed over. -/
theorem parseCpusStr_cons_skipped (hdash : '-' ∈ cpuId.toList)
    (hends : (splitSpace (joinWith " " (splitText '-' cpuId))).length ≠ 2) :
    parseCpusStr (cpuId :: rest) = parseCpusStr rest := by
  rw [parseCpusStr, if_neg (not_not.mpr hdash)]
  split
  · rename_i heq
    exact absurd (congrArg List.length heq) hends
  · rfl

end

/-- The fields `isolcpus=` of a kernel command line; a set, listed in some order. -/
def parseIsolcpus (cmdline : String) : Except PyErr (List ℤ) := do
  let cpus ← ((splitSpace (rstripText cmdline)).map fun field => splitText '=' field).mapM fun
    | ["isolcpus", value] => parseCpusStr (splitText ',' value)
    | _ => .ok []
  return cpus.flatten.dedup

/-! ## What is built -/

/-- The platform holds the records, and nothing else. -/
structure Built (rs : List Record) (p : Platform) : Prop where
  placed : ∀ s ∈ p.sockets.rows, ∀ core ∈ s.cores.rows, core.socketId = s.socketId
  nonempty : ∀ core ∈ p.cores, core.cpuIds ≠ []
  sound : ∀ core ∈ p.cores, ∀ z ∈ core.cpuIds, ⟨z, core.coreId, core.socketId⟩ ∈ rs
  complete : ∀ r ∈ rs, ∃ core ∈ p.cores, core.coreId = r.coreId ∧ core.socketId = r.socketId ∧
    r.cpuId ∈ core.cpuIds

theorem Built.empty : Built [] ⟨.empty⟩ where
  placed _ hs := nomatch hs
  nonempty _ hc := nomatch hc
  sound _ hc := nomatch hc
  complete _ hr := nomatch hr

variable {rs : List Record} {p : Platform}

theorem mem_cpuIds_addCpu {core : Core} {cpu : CPU} {z : ℤ} :
    z ∈ (core.addCpu cpu).cpuIds ↔ z ∈ core.cpuIds ∨ z = cpu.cpuId := Table.mem_keys_insert

/-- The socket a record is filed under, before it is. -/
def Platform.socketAt (p : Platform) (socketId : ℤ) : Socket :=
  (p.sockets.get? socketId).getD ⟨socketId, .empty⟩

/-- The core a record is filed under, before it is. -/
def Socket.coreAt (s : Socket) (coreId : ℤ) : Core :=
  (s.cores.get? coreId).getD ⟨s.socketId, coreId, .empty⟩

theorem socketAt_cases (p : Platform) (i : ℤ) :
    (p.socketAt i).socketId = i ∧
      (p.socketAt i ∈ p.sockets.rows ∨ (p.socketAt i).cores.rows = []) := by
  rw [Platform.socketAt]
  cases h : p.sockets.get? i with
  | none => exact ⟨rfl, .inr rfl⟩
  | some s =>
    obtain ⟨hs, rfl⟩ := Table.get?_eq_some.mp h
    exact ⟨rfl, .inl hs⟩

theorem coreAt_cases (s : Socket) (i : ℤ) :
    (s.coreAt i).coreId = i ∧
      (s.coreAt i ∈ s.cores.rows ∨
        (s.coreAt i).socketId = s.socketId ∧ (s.coreAt i).cpuIds = []) := by
  rw [Socket.coreAt]
  cases h : s.cores.get? i with
  | none => exact ⟨rfl, .inr ⟨rfl, rfl⟩⟩
  | some core =>
    obtain ⟨hc, rfl⟩ := Table.get?_eq_some.mp h
    exact ⟨rfl, .inl hc⟩

/-- The core a record ends up in. -/
def Platform.target (p : Platform) (r : Record) (cpu : CPU) : Core :=
  ((p.socketAt r.socketId).coreAt r.coreId).addCpu cpu

theorem mem_sockets_addCpu {r : Record} {cpu : CPU} {s : Socket} :
    s ∈ (p.addCpu r cpu).sockets.rows ↔
      (s ∈ p.sockets.rows ∧ s.socketId ≠ r.socketId) ∨
        s = (p.socketAt r.socketId).addCpu r.coreId cpu := by
  have hkey : ((p.socketAt r.socketId).addCpu r.coreId cpu).socketId = r.socketId :=
    (socketAt_cases p r.socketId).1
  exact Table.mem_rows_insert.trans (by rw [← Platform.socketAt, hkey])

theorem mem_cores_socket {s : Socket} {i : ℤ} {cpu : CPU} {core : Core} :
    core ∈ (s.addCpu i cpu).cores.rows ↔
      (core ∈ s.cores.rows ∧ core.coreId ≠ i) ∨ core = (s.coreAt i).addCpu cpu := by
  have hkey : ((s.coreAt i).addCpu cpu).coreId = i := (coreAt_cases s i).1
  exact Table.mem_rows_insert.trans (by rw [← Socket.coreAt, hkey])

/-- **Where the cores of the next platform come from.** -/
theorem mem_cores_addCpu (hplaced : ∀ s ∈ p.sockets.rows, ∀ core ∈ s.cores.rows,
    core.socketId = s.socketId) {r : Record} {cpu : CPU} {core : Core} :
    core ∈ (p.addCpu r cpu).cores ↔
      (core ∈ p.cores ∧ ¬ (core.socketId = r.socketId ∧ core.coreId = r.coreId)) ∨
        core = p.target r cpu := by
  obtain ⟨hid, hs₀⟩ := socketAt_cases p r.socketId
  rw [mem_cores]
  constructor
  · rintro ⟨s, hs, hc⟩
    rcases mem_sockets_addCpu.mp hs with ⟨hs, hne⟩ | rfl
    · exact .inl ⟨mem_cores.mpr ⟨s, hs, hc⟩, fun h => hne ((hplaced s hs core hc).symm.trans h.1)⟩
    · rcases mem_cores_socket.mp hc with ⟨hc, hne⟩ | rfl
      · rcases hs₀ with hs₀ | hs₀
        · exact .inl ⟨mem_cores.mpr ⟨_, hs₀, hc⟩, fun h => hne h.2⟩
        · rw [hs₀] at hc
          nomatch hc
      · exact .inr rfl
  · rintro (⟨hc, hne⟩ | rfl)
    · obtain ⟨s, hs, hcs⟩ := mem_cores.mp hc
      by_cases hsr : s.socketId = r.socketId
      · refine ⟨_, mem_sockets_addCpu.mpr (.inr rfl), mem_cores_socket.mpr (.inl ⟨?_, fun h => ?_⟩)⟩
        · have hget : p.socketAt r.socketId = s := by
            rw [Platform.socketAt, ← hsr, Table.get?_key hs]
            rfl
          rwa [hget]
        · exact hne ⟨(hplaced s hs core hcs).trans hsr, h⟩
      · exact ⟨s, mem_sockets_addCpu.mpr (.inl ⟨hs, hsr⟩), hcs⟩
    · exact ⟨_, mem_sockets_addCpu.mpr (.inr rfl), mem_cores_socket.mpr (.inr rfl)⟩

/-- The target core has the record's place, and its CPUs are those it had and the record's. -/
theorem target_cases (hplaced : ∀ s ∈ p.sockets.rows, ∀ core ∈ s.cores.rows,
    core.socketId = s.socketId) (r : Record) (cpu : CPU) :
    (p.target r cpu).socketId = r.socketId ∧ (p.target r cpu).coreId = r.coreId ∧
      ∀ z, z ∈ (p.target r cpu).cpuIds → z = cpu.cpuId ∨
        ∃ core ∈ p.cores,
          core.socketId = r.socketId ∧ core.coreId = r.coreId ∧ z ∈ core.cpuIds := by
  obtain ⟨hid, hs₀⟩ := socketAt_cases p r.socketId
  obtain ⟨hcid, hc₀⟩ := coreAt_cases (p.socketAt r.socketId) r.coreId
  have hin : ∀ {core}, core ∈ (p.socketAt r.socketId).cores.rows →
      core ∈ p.cores ∧ core.socketId = r.socketId := fun {core} hc => by
    rcases hs₀ with hs₀ | hs₀
    · exact ⟨mem_cores.mpr ⟨_, hs₀, hc⟩, (hplaced _ hs₀ core hc).trans hid⟩
    · rw [hs₀] at hc
      nomatch hc
  refine ⟨?_, hcid, fun z hz => ?_⟩
  · rcases hc₀ with hc | ⟨hc, -⟩
    · exact (hin hc).2
    · exact hc.trans hid
  · rcases mem_cpuIds_addCpu.mp hz with hz | hz
    · rcases hc₀ with hc | ⟨-, hc⟩
      · exact .inr ⟨_, (hin hc).1, (hin hc).2, hcid, hz⟩
      · rw [hc] at hz
        nomatch hz
    · exact .inl hz

/-- It has the record's CPU and those of the core that was at its place. -/
theorem mem_cpuIds_target (hplaced : ∀ s ∈ p.sockets.rows, ∀ core ∈ s.cores.rows,
    core.socketId = s.socketId) {r : Record} {cpu : CPU} {z : ℤ}
    (hz : z = cpu.cpuId ∨ ∃ core ∈ p.cores, core.socketId = r.socketId ∧ core.coreId = r.coreId ∧
      z ∈ core.cpuIds) : z ∈ (p.target r cpu).cpuIds := by
  refine mem_cpuIds_addCpu.mpr (hz.symm.imp_left ?_)
  rintro ⟨core, hc, hsid, hcid, hz⟩
  obtain ⟨s, hs, hcs⟩ := mem_cores.mp hc
  have hsr : s.socketId = r.socketId := (hplaced s hs core hcs).symm.trans hsid
  have hsock : p.socketAt r.socketId = s := by
    rw [Platform.socketAt, ← hsr, Table.get?_key hs]
    rfl
  have hcore : s.coreAt r.coreId = core := by
    rw [Socket.coreAt, ← hcid, Table.get?_key hcs]
    rfl
  rwa [hsock, hcore]

/-- **One record more.** -/
theorem Built.addCpu (h : Built rs p) {r : Record} {cpu : CPU} (hcpu : cpu.cpuId = r.cpuId) :
    Built (rs ++ [r]) (p.addCpu r cpu) := by
  obtain ⟨htsid, htcid, htz⟩ := target_cases h.placed r cpu
  have hmem : r.cpuId ∈ (p.target r cpu).cpuIds :=
    mem_cpuIds_target h.placed (.inl hcpu.symm)
  refine ⟨fun s hs core hc => ?_, fun core hc => ?_, fun core hc z hz => ?_, fun r' hr' => ?_⟩
  · rcases mem_sockets_addCpu.mp hs with ⟨hs, -⟩ | rfl
    · exact h.placed s hs core hc
    · obtain ⟨hid, hs₀⟩ := socketAt_cases p r.socketId
      rcases mem_cores_socket.mp hc with ⟨hc, -⟩ | rfl
      · rcases hs₀ with hs₀ | hs₀
        · exact h.placed _ hs₀ core hc
        · rw [hs₀] at hc
          nomatch hc
      · exact htsid.trans hid.symm
  · rcases (mem_cores_addCpu h.placed).mp hc with ⟨hc, -⟩ | rfl
    · exact h.nonempty core hc
    · exact List.ne_nil_of_mem hmem
  · rcases (mem_cores_addCpu h.placed).mp hc with ⟨hc, -⟩ | rfl
    · exact List.mem_append_left _ (h.sound core hc z hz)
    · rw [htsid, htcid]
      rcases htz z hz with rfl | ⟨core, hc, hsid, hcid, hz⟩
      · rw [hcpu]
        exact List.mem_append_right _ (by simp)
      · exact List.mem_append_left _ (hsid ▸ hcid ▸ h.sound core hc z hz)
  · rcases List.mem_append.mp hr' with hr' | hr'
    · obtain ⟨core, hc, hcid, hsid, hz⟩ := h.complete r' hr'
      by_cases hplace : core.socketId = r.socketId ∧ core.coreId = r.coreId
      · refine ⟨_, (mem_cores_addCpu h.placed).mpr (.inr rfl), ?_, ?_, ?_⟩
        · rw [htcid, ← hplace.2, hcid]
        · rw [htsid, ← hplace.1, hsid]
        · exact mem_cpuIds_target h.placed (.inr ⟨core, hc, hplace.1, hplace.2, hz⟩)
      · exact ⟨core, (mem_cores_addCpu h.placed).mpr (.inl ⟨hc, hplace⟩), hcid, hsid, hz⟩
    · obtain rfl := List.mem_singleton.mp hr'
      exact ⟨_, (mem_cores_addCpu h.placed).mpr (.inr rfl), htcid, htsid, hmem⟩

/-- **All records.** -/
theorem Built.foldl (h : Built rs p) (isolatedCpus sstBfCpus : List ℤ) (rs' : List Record) :
    Built (rs ++ rs') (rs'.foldl (Platform.addRecord isolatedCpus sstBfCpus) p) := by
  induction rs' generalizing rs p with
  | nil => rwa [List.append_nil]
  | cons r rs' ih =>
    have hstep : Built (rs ++ [r]) (p.addRecord isolatedCpus sstBfCpus r) := h.addCpu rfl
    simpa using ih hstep

/-- Two cores of a platform at one place are the same. -/
theorem Built.eq_of_place (h : Built rs p) {core core' : Core} (hc : core ∈ p.cores)
    (hc' : core' ∈ p.cores) (hs : core.socketId = core'.socketId)
    (hi : core.coreId = core'.coreId) : core = core' := by
  obtain ⟨s, hsm, hcs⟩ := mem_cores.mp hc
  obtain ⟨s', hsm', hcs'⟩ := mem_cores.mp hc'
  have hss : s = s' := Table.eq_of_key_eq hsm hsm' (by
    rw [← h.placed s hsm core hcs, ← h.placed s' hsm' core' hcs', hs])
  subst hss
  exact Table.eq_of_key_eq hcs hcs' hi

/-- What is parsed holds the records of the output. -/
theorem built_of_parse {lscpuOutput : String} {isolatedCpus sstBfCpus : List ℤ}
    (h : parse lscpuOutput isolatedCpus sstBfCpus = .ok p) :
    ∃ rs, records lscpuOutput = .ok rs ∧ Built rs p := by
  obtain ⟨rs, hrs, h⟩ := bind_eq_ok.mp h
  obtain rfl := pure_eq_ok.mp h
  have hb := Built.empty.foldl isolatedCpus sstBfCpus rs
  rw [List.nil_append] at hb
  exact ⟨rs, hrs, hb⟩

/-- **A parsed platform is as it should be**, if the CPU ids of the output are distinct. -/
theorem ok_of_parse {lscpuOutput : String} {isolatedCpus sstBfCpus : List ℤ}
    (hd : DistinctCpus lscpuOutput) (h : parse lscpuOutput isolatedCpus sstBfCpus = .ok p) :
    p.Ok := by
  obtain ⟨rs, hrs, hb⟩ := built_of_parse h
  refine ⟨hb.placed, hb.nonempty, fun core hc core' hc' z hz hz' => ?_⟩
  have heq := List.inj_on_of_nodup_map (hd rs hrs) (hb.sound core hc z hz)
    (hb.sound core' hc' z hz') rfl
  simp only [Record.mk.injEq] at heq
  exact hb.eq_of_place hc hc' heq.2.2 heq.2.1

end Cmk.Topology
