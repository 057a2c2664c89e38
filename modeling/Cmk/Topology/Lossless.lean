import Cmk.Topology.Parse

/-!
# Topology/Lossless — parsing loses no CPU

`lscpu -p` prints comments, empty lines and one record for each CPU (`Listing`).  A record is found
again in what `parse` builds exactly once, at its place (`perm_recorded`), and the flags of a core
are those of all its records, so isolated and shared cores divide the platform
(`parse_lossless`).
-/

open Machinery

namespace Cmk.Topology

/-- The lines of a listing, with the records among them in order. -/
inductive Listing : List String → List Record → Prop
  | nil : Listing [] []
  | empty {lines rs} : Listing lines rs → Listing ("" :: lines) rs
  | comment {line lines rs} : line.toList.head? = some '#' → Listing lines rs →
      Listing (line :: lines) rs
  | record {line cpu core socket : String} {rest lines rs} {r : Record} :
      line.toList.head? ≠ some '#' → splitText ',' line = cpu :: core :: socket :: rest →
      intOfText? cpu = some r.cpuId → intOfText? core = some r.coreId →
      intOfText? socket = some r.socketId → Listing lines rs → Listing (line :: lines) (r :: rs)

/-- The CPUs of a platform with the core and the socket each is filed under. -/
def Platform.recorded (p : Platform) : List Record :=
  p.sockets.rows.flatMap fun s => s.cores.rows.flatMap fun core =>
    core.cpuIds.map fun z => ⟨z, core.coreId, s.socketId⟩

/-- What the platform of a listing is. -/
structure Lossless (rs : List Record) (isolatedCpus sstBfCpus : List ℤ) (p : Platform) : Prop where
  once : p.recorded.Perm rs
  sockets : ∀ s ∈ p.sockets.rows, s.cores.rows ≠ []
  cores : ∀ s ∈ p.sockets.rows, ∀ core ∈ s.cores.rows, core.cpuIds ≠ []
  flags : ∀ s ∈ p.sockets.rows, ∀ core ∈ s.cores.rows, ∀ cpu ∈ core.cpus.rows,
    (cpu.isolated = true ↔ cpu.cpuId ∈ isolatedCpus) ∧ (cpu.sstBf = true ↔ cpu.cpuId ∈ sstBfCpus)
  isolated : ∀ s ∈ p.sockets.rows, ∀ core ∈ s.cores.rows, core.isIsolated = true ↔
    ∀ r ∈ rs, r.socketId = s.socketId → r.coreId = core.coreId → r.cpuId ∈ isolatedCpus
  sstBf : ∀ s ∈ p.sockets.rows, ∀ core ∈ s.cores.rows, core.isSstBf = true ↔
    ∀ r ∈ rs, r.socketId = s.socketId → r.coreId = core.coreId → r.cpuId ∈ sstBfCpus
  partition : ∀ mode mode' : String, (p.getCores mode).Nodup ∧
    (p.getIsolatedCores mode' ++ p.getSharedCores).Perm (p.getCores mode)

variable {rs : List Record} {p : Platform} {isolatedCpus sstBfCpus : List ℤ}

/-! ## Reading the lines -/

theorem column_eq {fields : List String} {i : ℕ} {field : String} {z : ℤ}
    (hf : fields[i]? = some field) (hz : intOfText? field = some z) : column fields i = .ok z := by
  rw [column, hf]
  exact intOfStr_eq_ok_iff.mpr hz

/-- A line with three integers is a record. -/
theorem parseLine_eq {line cpu core socket : String} {rest : List String} {r : Record}
    (hline : splitText ',' line = cpu :: core :: socket :: rest)
    (hcpu : intOfText? cpu = some r.cpuId) (hcore : intOfText? core = some r.coreId)
    (hsocket : intOfText? socket = some r.socketId) : parseLine line = .ok r := by
  rw [parseLine, hline]
  exact bind_eq_ok.mpr ⟨_, column_eq rfl hsocket, bind_eq_ok.mpr ⟨_, column_eq rfl hcore,
    bind_eq_ok.mpr ⟨_, column_eq rfl hcpu, rfl⟩⟩⟩

/-- **Every record of a listing is read**, and nothing else. -/
theorem mapM_parseLine_of_listing {lines : List String} (h : Listing lines rs) :
    (lines.filter fun line => line ≠ "" && line.toList.head? ≠ some '#').mapM parseLine =
      .ok rs := by
  induction h with
  | nil => rfl
  | empty _ ih => rwa [List.filter_cons_of_neg (by simp)]
  | comment hhash _ ih => rwa [List.filter_cons_of_neg (by simp [hhash])]
  | @record line cpu core socket rest lines rs r hhash hline hcpu hcore hsocket _ ih =>
    have hne : line ≠ "" := by
      rintro rfl
      simp [splitText] at hline
    rw [List.filter_cons_of_pos (by simp [hne, hhash]), List.mapM_cons]
    exact bind_eq_ok.mpr ⟨r, parseLine_eq hline hcpu hcore hsocket,
      bind_eq_ok.mpr ⟨rs, ih, rfl⟩⟩

theorem parse_of_listing {lscpuOutput : String} (h : Listing (splitText '\n' lscpuOutput) rs) :
    parse lscpuOutput isolatedCpus sstBfCpus =
      .ok (rs.foldl (Platform.addRecord isolatedCpus sstBfCpus) ⟨.empty⟩) :=
  bind_eq_ok.mpr ⟨rs, mapM_parseLine_of_listing h, rfl⟩

/-! ## Every CPU once -/

theorem mem_recorded {r : Record} :
    r ∈ p.recorded ↔ ∃ s ∈ p.sockets.rows, ∃ core ∈ s.cores.rows,
      r.cpuId ∈ core.cpuIds ∧ core.coreId = r.coreId ∧ s.socketId = r.socketId := by
  simp only [Platform.recorded, List.mem_flatMap, List.mem_map]
  constructor
  · rintro ⟨s, hs, core, hc, z, hz, rfl⟩
    exact ⟨s, hs, core, hc, hz, rfl, rfl⟩
  · rintro ⟨s, hs, core, hc, hz, hcid, hsid⟩
    exact ⟨s, hs, core, hc, r.cpuId, hz, by rw [hcid, hsid]⟩

/-- The dictionaries of a platform leave no room for a CPU twice at one place. -/
theorem nodup_recorded (p : Platform) : p.recorded.Nodup := by
  rw [Platform.recorded, List.nodup_flatMap]
  refine ⟨fun s _ => ?_, ?_⟩
  · rw [List.nodup_flatMap]
    refine ⟨fun core _ => core.cpus.nodup.map fun z z' h => congrArg Record.cpuId h, ?_⟩
    refine (List.pairwise_map.mp s.cores.nodup).imp fun {core core'} hne => ?_
    intro r hr hr'
    obtain ⟨z, -, rfl⟩ := List.mem_map.mp hr
    obtain ⟨z', -, heq⟩ := List.mem_map.mp hr'
    exact hne (congrArg Record.coreId heq).symm
  · refine (List.pairwise_map.mp p.sockets.nodup).imp fun {s s'} hne => ?_
    intro r hr hr'
    obtain ⟨core, -, hr⟩ := List.mem_flatMap.mp hr
    obtain ⟨core', -, hr'⟩ := List.mem_flatMap.mp hr'
    obtain ⟨z, -, rfl⟩ := List.mem_map.mp hr
    obtain ⟨z', -, heq⟩ := List.mem_map.mp hr'
    exact hne (congrArg Record.socketId heq).symm

/-- The CPUs of a core are those recorded at its place. -/
theorem Built.mem_cpuIds (h : Built rs p) {core : Core} (hc : core ∈ p.cores) {z : ℤ} :
    z ∈ core.cpuIds ↔ ⟨z, core.coreId, core.socketId⟩ ∈ rs := by
  refine ⟨h.sound core hc z, fun hr => ?_⟩
  obtain ⟨core', hc', hcid, hsid, hz⟩ := h.complete _ hr
  rwa [h.eq_of_place hc' hc hsid hcid] at hz

/-- **What is recorded is what was listed.** -/
theorem Built.perm_recorded (h : Built rs p) (hrs : rs.Nodup) : p.recorded.Perm rs := by
  refine (List.perm_ext_iff_of_nodup (nodup_recorded p) hrs).mpr fun r => ?_
  rw [mem_recorded]
  constructor
  · rintro ⟨s, hs, core, hc, hz, hcid, hsid⟩
    have hplace : (⟨r.cpuId, core.coreId, core.socketId⟩ : Record) = r := by
      rw [h.placed s hs core hc, hcid, hsid]
    exact hplace ▸ h.sound core (mem_cores.mpr ⟨s, hs, hc⟩) _ hz
  · intro hr
    obtain ⟨core, hc, hcid, hsid, hz⟩ := h.complete r hr
    obtain ⟨s, hs, hc⟩ := mem_cores.mp hc
    exact ⟨s, hs, core, hc, hz, hcid, (h.placed s hs core hc).symm.trans hsid⟩

/-! ## Flags -/

/-- A CPU of the target core is the one added, or was on the platform. -/
theorem mem_cpus_target {r : Record} {cpu cpu' : CPU} (h : cpu' ∈ (p.target r cpu).cpus.rows) :
    cpu' = cpu ∨ ∃ core ∈ p.cores, cpu' ∈ core.cpus.rows := by
  refine (Table.mem_rows_insert.mp h).symm.imp_right fun hold => ?_
  rcases (coreAt_cases (p.socketAt r.socketId) r.coreId).2 with hc | ⟨-, hnil⟩
  · rcases (socketAt_cases p r.socketId).2 with hs | hnil
    · exact ⟨_, mem_cores.mpr ⟨_, hs, hc⟩, hold.1⟩
    · rw [hnil] at hc
      cases hc
  · rw [Core.cpuIds, Table.keys, List.map_eq_nil_iff] at hnil
    rw [hnil] at hold
    cases hold.1

/-- Every CPU has the flags its id stands for. -/
def Flagged (isolatedCpus sstBfCpus : List ℤ) (p : Platform) : Prop :=
  ∀ core ∈ p.cores, ∀ cpu ∈ core.cpus.rows,
    (cpu.isolated = true ↔ cpu.cpuId ∈ isolatedCpus) ∧ (cpu.sstBf = true ↔ cpu.cpuId ∈ sstBfCpus)

theorem Flagged.addRecord (h : Flagged isolatedCpus sstBfCpus p) (hb : Built rs p) (r : Record) :
    Flagged isolatedCpus sstBfCpus (p.addRecord isolatedCpus sstBfCpus r) := by
  intro core hc cpu hcpu
  rcases (mem_cores_addCpu hb.placed).mp hc with ⟨hc, -⟩ | rfl
  · exact h core hc cpu hcpu
  · rcases mem_cpus_target hcpu with rfl | ⟨core, hc, hcpu⟩
    · exact ⟨decide_eq_true_iff, decide_eq_true_iff⟩
    · exact h core hc cpu hcpu

/-- No socket is left without a core. -/
theorem sockets_addRecord (h : ∀ s ∈ p.sockets.rows, s.cores.rows ≠ []) (r : Record) :
    ∀ s ∈ (p.addRecord isolatedCpus sstBfCpus r).sockets.rows, s.cores.rows ≠ [] := by
  intro s hs
  rcases mem_sockets_addCpu.mp hs with ⟨hs, -⟩ | rfl
  · exact h s hs
  · exact List.ne_nil_of_mem (mem_cores_socket.mpr (.inr rfl))

/-- **All records**, with their flags. -/
theorem flagged_foldl (hb : Built rs p) (hf : Flagged isolatedCpus sstBfCpus p)
    (hs : ∀ s ∈ p.sockets.rows, s.cores.rows ≠ []) (rs' : List Record) :
    Flagged isolatedCpus sstBfCpus (rs'.foldl (Platform.addRecord isolatedCpus sstBfCpus) p) ∧
      ∀ s ∈ (rs'.foldl (Platform.addRecord isolatedCpus sstBfCpus) p).sockets.rows,
        s.cores.rows ≠ [] := by
  induction rs' generalizing rs p with
  | nil => exact ⟨hf, hs⟩
  | cons r rs' ih =>
    have hb' : Built (rs ++ [r]) (p.addRecord isolatedCpus sstBfCpus r) := hb.addCpu rfl
    exact ih hb' (hf.addRecord hb r) (sockets_addRecord hs r)

/-! ## Cores -/

/-- A core all of whose CPUs carry a flag, by the ids of its records. -/
theorem Built.all_iff (h : Built rs p) {s : Socket} (hs : s ∈ p.sockets.rows) {core : Core}
    (hc : core ∈ s.cores.rows) {flag : CPU → Bool} {ids : List ℤ}
    (hflag : ∀ cpu ∈ core.cpus.rows, flag cpu = true ↔ cpu.cpuId ∈ ids) :
    (core.cpus.rows ≠ [] && core.cpus.rows.all flag) = true ↔
      ∀ r ∈ rs, r.socketId = s.socketId → r.coreId = core.coreId → r.cpuId ∈ ids := by
  have hcore := mem_cores.mpr ⟨s, hs, hc⟩
  have hne : core.cpus.rows ≠ [] := fun hnil => h.nonempty core hcore (by
    rw [Core.cpuIds, Table.keys, hnil, List.map_nil])
  rw [Bool.and_eq_true, and_iff_right (decide_eq_true hne), List.all_eq_true]
  constructor
  · rintro hall ⟨z, coreId, socketId⟩ hr rfl rfl
    rw [← h.placed s hs core hc] at hr
    obtain ⟨cpu, hcpu, rfl⟩ := Table.mem_keys.mp ((h.mem_cpuIds hcore).mpr hr)
    exact (hflag cpu hcpu).mp (hall cpu hcpu)
  · intro hall cpu hcpu
    have hr := (h.mem_cpuIds hcore).mp (Table.key_mem_keys hcpu)
    exact (hflag cpu hcpu).mpr (hall _ hr (h.placed s hs core hc) rfl)

/-- **Isolated and shared cores divide the cores.** -/
theorem perm_isolated_shared (p : Platform) (mode mode' : String) :
    (p.getIsolatedCores mode' ++ p.getSharedCores).Perm (p.getCores mode) := by
  have hisolated : (p.getIsolatedCores mode').Perm (p.cores.filter Core.isIsolated) := by
    simpa [Platform.getIsolatedCores] using perm_getCoresGeneral p mode' true false
  rw [getSharedCores_eq]
  exact ((hisolated.append_right _).trans (List.filter_append_perm _ _)).trans
    (perm_getCores p mode).symm

/-- **Parsing loses no CPU.**  From a listing with distinct CPU ids every record is filed once at
its place, with the flags of its id; and a core has the flag all its records have. -/
theorem parse_lossless {lscpuOutput : String} (h : Listing (splitText '\n' lscpuOutput) rs)
    (hd : (rs.map Record.cpuId).Nodup) (isolatedCpus sstBfCpus : List ℤ) :
    ∃ p, parse lscpuOutput isolatedCpus sstBfCpus = .ok p ∧
      Lossless rs isolatedCpus sstBfCpus p := by
  have hb := Built.empty.foldl isolatedCpus sstBfCpus rs
  rw [List.nil_append] at hb
  have hempty : ∀ s ∈ (⟨.empty⟩ : Platform).sockets.rows, s.cores.rows ≠ [] :=
    List.forall_mem_nil _
  have hnone : Flagged isolatedCpus sstBfCpus ⟨.empty⟩ := List.forall_mem_nil _
  obtain ⟨hf, hsockets⟩ := flagged_foldl Built.empty hnone hempty rs
  refine ⟨_, parse_of_listing h, ?_⟩
  generalize rs.foldl (Platform.addRecord isolatedCpus sstBfCpus) ⟨.empty⟩ = p at hb hf hsockets
  have hin : ∀ s ∈ p.sockets.rows, ∀ core ∈ s.cores.rows, core ∈ p.cores :=
    fun s hs core hc => mem_cores.mpr ⟨s, hs, hc⟩
  exact {
    once := hb.perm_recorded hd.of_map
    sockets := hsockets
    cores := fun s hs core hc => hb.nonempty core (hin s hs core hc)
    flags := fun s hs core hc => hf core (hin s hs core hc)
    isolated := fun s hs core hc =>
      hb.all_iff hs hc fun cpu hcpu => (hf core (hin s hs core hc) cpu hcpu).1
    sstBf := fun s hs core hc =>
      hb.all_iff hs hc fun cpu hcpu => (hf core (hin s hs core hc) cpu hcpu).2
    partition := fun mode mode' => ⟨(perm_getCores p mode).nodup_iff.mpr
      (nodup_cores_of_placed hb.placed), perm_isolated_shared p mode mode'⟩ }

/-- Two sockets whose cores have one number, listed out of order. -/
theorem parse_lossless_outOfOrder :
    ∃ p, parse "# CPU,Core,Socket\n4,0,1,0\n\n0,0,0,0" [4] [0, 4] = .ok p ∧
      Lossless [⟨4, 0, 1⟩, ⟨0, 0, 0⟩] [4] [0, 4] p := by
  have hlines : splitText '\n' "# CPU,Core,Socket\n4,0,1,0\n\n0,0,0,0" =
      ["# CPU,Core,Socket", "4,0,1,0", "", "0,0,0,0"] := by decide
  have hfirst : splitText ',' "4,0,1,0" = ["4", "0", "1", "0"] := by decide
  have hlast : splitText ',' "0,0,0,0" = ["0", "0", "0", "0"] := by decide
  refine parse_lossless ?_ (by decide) [4] [0, 4]
  rw [hlines]
  refine .comment (by decide) (.record (by decide) hfirst (by decide) (by decide) (by decide) ?_)
  exact .empty (.record (by decide) hlast (by decide) (by decide) (by decide) .nil)

end Cmk.Topology
