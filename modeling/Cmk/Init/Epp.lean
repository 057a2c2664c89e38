import Cmk.Init.Isolated

/-!
# Init/Epp — what the searches by EPP value find

When the file of every core can be read the three functions of `sst_cp.py` return: all cores of a
value (`eppCoresNoLimit_eq`), as many as required if there are that many (`eppCores_isSome`), and
the known values that are read (`mem_getEppOrder`).

The file they read is that of the logical CPU numbered as the core.  So they classify the cores by
the EPP values of their CPUs exactly when no two cores have one number and every core has the number
of a CPU of its value (`byCpus_iff`).
-/

open Machinery Machinery.Deal Cmk.Topology

namespace Cmk

/-- The EPP values `get_epp_order` knows, highest first. -/
def knownEpp : List String := ["performance", "balance_performance", "balance_power", "power"]

variable {host : Host} {p : Platform} {core : Core} {cores found result : List Core}
  {eppValue v : String} {n : ℤ} {unavailable : List ℤ}

instance : Decidable (host.HasEpp core v) :=
  decidable_of_iff
    (((host.eppLine core.coreId).toOption.any fun line => rstripText line = v) = true)
    (by unfold Host.HasEpp; cases host.eppLine core.coreId <;> simp [Except.toOption])

/-! ## Searches over cores that can be read -/

theorem eppCoresNoLimit_eq (hread : ∀ core ∈ cores, IsOk (host.eppLine core.coreId)) :
    host.eppCoresNoLimit v cores = .ok (cores.filter fun core => host.HasEpp core v) := by
  induction cores with
  | nil => rfl
  | cons core cores ih =>
    obtain ⟨line, hline⟩ := hread core (.head cores)
    have hepp : host.HasEpp core v ↔ rstripText line = v := by simp [Host.HasEpp, hline]
    rw [Host.eppCoresNoLimit, hline, ih fun c hc => hread c (.tail core hc)]
    by_cases hv : rstripText line = v
    · simp [hv, hepp.mpr hv, bind, Except.bind, pure, Except.pure]
    · simp [hv, mt hepp.mp hv, bind, Except.bind, pure, Except.pure]

theorem isOk_of_eppCoresNoLimit {all : List Core} (h : host.eppCoresNoLimit v cores = .ok all)
    (hc : core ∈ cores) : IsOk (host.eppLine core.coreId) := by
  induction cores generalizing all with
  | nil => cases hc
  | cons c cores ih =>
    obtain ⟨line, hline, h⟩ := bind_eq_ok.mp h
    obtain ⟨rest, hrest, -⟩ := bind_eq_ok.mp h
    rcases List.mem_cons.mp hc with rfl | hc
    · exact ⟨line, hline⟩
    · exact ih hrest hc

/-- **A bounded search never finds nothing.** -/
theorem length_lt_of_eppCores
    (h : host.eppCores eppValue n unavailable found cores = .ok (some result)) :
    found.length < result.length := by
  induction cores generalizing found with
  | nil => cases h
  | cons c cores ih =>
    rw [Host.eppCores] at h
    split at h
    · exact ih h
    · obtain ⟨line, -, h⟩ := bind_eq_ok.mp h
      split at h
      · split at h
        · obtain rfl := Option.some.inj (pure_eq_ok.mp h)
          simp
        · have hlt := ih h
          rw [List.length_append, List.length_singleton] at hlt
          omega
      · exact ih h

/-- **A bounded search finds as many as required**, if there are and it requires any.  Induction on
the cores still to read. -/
theorem eppCores_isSome (hread : ∀ core ∈ cores, IsOk (host.eppLine core.coreId))
    (hlt : (found.length : ℤ) < n) (hmany : n ≤ found.length + (cores.filter fun core =>
      core.coreId ∉ unavailable ∧ host.HasEpp core eppValue).length) :
    ∃ result, host.eppCores eppValue n unavailable found cores = .ok (some result) := by
  induction cores generalizing found with
  | nil =>
    rw [List.filter_nil, List.length_nil] at hmany
    omega
  | cons c cores ih =>
    have hread' : ∀ core ∈ cores, IsOk (host.eppLine core.coreId) :=
      fun core hc => hread core (.tail c hc)
    rw [Host.eppCores]
    by_cases hun : c.coreId ∈ unavailable
    · rw [if_pos hun]
      rw [List.filter_cons_of_neg (by simp [hun])] at hmany
      exact ih hread' hlt hmany
    · obtain ⟨line, hline⟩ := hread c (.head cores)
      have hepp : host.HasEpp c eppValue ↔ rstripText line = eppValue := by
        simp [Host.HasEpp, hline]
      rw [if_neg hun, hline]
      by_cases hv : rstripText line = eppValue
      · rw [List.filter_cons_of_pos (by simp [hun, hepp.mpr hv]), List.length_cons] at hmany
        by_cases hn : (found.length : ℤ) + 1 = n
        · exact ⟨_, (if_pos hv).trans (if_pos hn)⟩
        · obtain ⟨result, hresult⟩ := @ih (found ++ [c]) hread'
            (by rw [List.length_append, List.length_singleton]; omega)
            (by rw [List.length_append, List.length_singleton]; omega)
          exact ⟨result, ((if_pos hv).trans (if_neg hn)).trans hresult⟩
      · rw [List.filter_cons_of_neg (by simp [mt hepp.mp hv])] at hmany
        obtain ⟨result, hresult⟩ := ih hread' hlt hmany
        exact ⟨result, (if_neg hv).trans hresult⟩

/-- **A search for some core succeeds** if there are enough with other numbers. -/
theorem getEppCores_of_le (hread : ∀ core ∈ p.cores, IsOk (host.eppLine core.coreId)) {n : ℕ}
    {unavailable : List Core} (hn : 0 < n) (hmany : n ≤ (p.cores.filter fun core =>
      core.coreId ∉ unavailable.map Core.coreId ∧ host.HasEpp core v).length) :
    ∃ found, host.getEppCores p v n unavailable = .ok (some found) ∧ found.length = n ∧
      ∀ core ∈ found, core ∈ p.cores ∧ host.HasEpp core v ∧
        core.coreId ∉ unavailable.map Core.coreId := by
  obtain ⟨found, hfound⟩ := @eppCores_isSome host p.cores [] v n (unavailable.map Core.coreId)
    hread (by rw [List.length_nil]; omega) (by rw [List.length_nil]; omega)
  obtain ⟨hlen, hin⟩ := eppCores_spec hfound
  exact ⟨found, hfound, by omega, fun core hc => (hin core hc).resolve_left List.not_mem_nil⟩

theorem isOk_getEppOrder (hread : ∀ core ∈ p.cores, IsOk (host.eppLine core.coreId)) :
    IsOk (host.getEppOrder p) := by
  refine isOk_bind.mpr ?_
  obtain ⟨present, hpresent⟩ := isOk_mapM.mpr fun core hc =>
    hread core ((perm_getCores p "packed").mem_iff.mp hc)
  exact ⟨present, hpresent, isOk_pure _⟩

/-- **The order lists the known values that are read.** -/
theorem mem_getEppOrder {order : List String} (h : host.getEppOrder p = .ok order) :
    v ∈ order ↔ v ∈ knownEpp ∧ ∃ core ∈ p.cores, host.eppLine core.coreId = .ok v := by
  obtain ⟨present, hpresent, h⟩ := bind_eq_ok.mp h
  obtain rfl := pure_eq_ok.mp h
  have hmem : v ∈ present ↔ ∃ core ∈ p.cores, host.eppLine core.coreId = .ok v := by
    rw [mem_of_mapM_eq_ok hpresent]
    simp only [(perm_getCores p "packed").mem_iff]
  rw [List.mem_filter, decide_eq_true_iff, hmem]
  rfl

/-! ## Values of CPUs -/

/-- An EPP value as the kernel writes it: one line, without white space at its end. -/
def EppText (v : String) : Prop := '\n' ∉ v.toList ∧ rstripText v = v

/-- The file of every CPU of the platform has its value; other CPUs have no file. -/
def Host.Shows (host : Host) (p : Platform) (value : ℤ → String) : Prop :=
  ∀ z, host.epp z =
    if z ∈ p.cores.flatMap Core.cpuIds then .ok (value z ++ "\n") else .error .osError

/-- The CPUs of a core have the value. -/
def CpusHave (value : ℤ → String) (v : String) (core : Core) : Prop :=
  ∀ z ∈ core.cpuIds, value z = v

instance (value : ℤ → String) (v : String) : DecidablePred (CpusHave value v) :=
  fun core => inferInstanceAs (Decidable (∀ z ∈ core.cpuIds, value z = v))

/-- The searches go by the values of the CPUs of a core. -/
structure ByCpus (host : Host) (p : Platform) (value : ℤ → String) : Prop where
  noLimit : ∀ v, ∃ all, host.getEppCoresNoLimit p v = .ok all ∧
    ∀ core, core ∈ all ↔ core ∈ p.cores ∧ CpusHave value v core
  limited : ∀ v (n : ℕ) (unavailable : List Core), unavailable ⊆ p.cores → 1 ≤ n →
    n ≤ (p.cores.filter fun core => core ∉ unavailable ∧ CpusHave value v core).length →
      ∃ found, host.getEppCores p v n unavailable = .ok (some found) ∧ found.length = n ∧
        found.Nodup ∧ ∀ core ∈ found, core ∈ p.cores ∧ core ∉ unavailable ∧ CpusHave value v core
  order : ∃ order, host.getEppOrder p = .ok order ∧
    ∀ v, v ∈ order ↔ v ∈ knownEpp ∧ ∃ core ∈ p.cores, CpusHave value v core

/-- No two cores have one number, and every core that of a CPU with its value. -/
structure NumberedByCpu (p : Platform) (value : ℤ → String) : Prop where
  nodup : (p.cores.map Core.coreId).Nodup
  named : ∀ core ∈ p.cores, core.coreId ∈ p.cores.flatMap Core.cpuIds ∧
    CpusHave value (value core.coreId) core

variable {value : ℤ → String}

theorem eppLine_of_shows (hshows : host.Shows p value) (htext : ∀ z, EppText (value z)) {z : ℤ}
    (hz : z ∈ p.cores.flatMap Core.cpuIds) : host.eppLine z = .ok (value z) := by
  have hline : splitText '\n' (value z ++ "\n") = [value z] ++ splitText '\n' "" := by
    have happ := splitText_append '\n' (value z) ""
    rw [String.append_empty] at happ
    rw [show "\n" = String.ofList ['\n'] from rfl, happ]
    have hone := @splitText_joinText '\n' [value z] (by simpa using (htext z).1) (by simp)
    rw [show joinText '\n' [value z] = value z by simp [joinText]] at hone
    rw [hone]
  rw [Host.eppLine, hshows z, if_pos hz]
  exact congrArg (fun pieces => Except.ok (pieces.headD "")) hline

theorem mem_of_isOk_eppLine (hshows : host.Shows p value) {z : ℤ} (h : IsOk (host.eppLine z)) :
    z ∈ p.cores.flatMap Core.cpuIds := by
  by_contra hz
  obtain ⟨line, hline⟩ := h
  obtain ⟨text, htext, -⟩ := bind_eq_ok.mp hline
  rw [hshows z, if_neg hz] at htext
  nomatch htext

/-- What a core shows is the value of the CPU numbered as it is. -/
theorem hasEpp_iff (hshows : host.Shows p value) (htext : ∀ z, EppText (value z))
    (hz : core.coreId ∈ p.cores.flatMap Core.cpuIds) :
    host.HasEpp core v ↔ value core.coreId = v := by
  rw [Host.HasEpp, eppLine_of_shows hshows htext hz]
  simp [(htext core.coreId).2]

section Classified

variable (hshows : host.Shows p value)

include hshows

/-- Who classifies by CPUs reads a file for every core. -/
theorem ByCpus.mem_cpuIds (h : ByCpus host p value) (hc : core ∈ p.cores) :
    core.coreId ∈ p.cores.flatMap Core.cpuIds := by
  obtain ⟨all, hall, -⟩ := h.noLimit ""
  exact mem_of_isOk_eppLine hshows (isOk_of_eppCoresNoLimit hall hc)

variable (htext : ∀ z, EppText (value z)) (hok : p.Ok)

include htext hok

theorem ByCpus.cpusHave (h : ByCpus host p value)
    (hconst : ∀ core ∈ p.cores, ∀ z ∈ core.cpuIds, CpusHave value (value z) core)
    (hc : core ∈ p.cores) : CpusHave value (value core.coreId) core := by
  obtain ⟨z, hz⟩ := List.exists_mem_of_ne_nil _ (hok.nonempty core hc)
  obtain ⟨all, hall, hmem⟩ := h.noLimit (value z)
  have hin := (hmem core).mpr ⟨hc, hconst core hc z hz⟩
  have hepp := ((mem_eppCoresNoLimit hall).mp hin).2
  rw [hasEpp_iff hshows htext (h.mem_cpuIds hshows hc)] at hepp
  rw [hepp]
  exact hconst core hc z hz

/-- **Two cores of one number** cannot both be found: with all others of the value unavailable, the
search for one stops at the number of the other. -/
theorem ByCpus.nodup (h : ByCpus host p value)
    (hconst : ∀ core ∈ p.cores, ∀ z ∈ core.cpuIds, CpusHave value (value z) core) :
    (p.cores.map Core.coreId).Nodup := by
  have hvalue : ∀ core ∈ p.cores, CpusHave value (value core.coreId) core := fun core hc =>
    h.cpusHave hshows htext hok hconst hc
  refine List.Nodup.map_on (fun core hc core' hc' hid => ?_) hok.nodup_cores
  by_contra hne
  have hfree : core' ∈ p.cores.filter fun c => c ∉ (p.cores.filter (CpusHave value
      (value core.coreId))).filter (· ≠ core') ∧ CpusHave value (value core.coreId) c := by
    refine List.mem_filter.mpr ⟨hc', decide_eq_true ⟨?_, hid ▸ hvalue core' hc'⟩⟩
    simp
  obtain ⟨found, hfound, hlen, -, hin⟩ := h.limited (value core.coreId) 1
    ((p.cores.filter (CpusHave value (value core.coreId))).filter (· ≠ core'))
    (fun c hc => List.mem_of_mem_filter (List.mem_of_mem_filter hc)) le_rfl
    (List.length_pos_of_mem hfree)
  obtain ⟨c, rfl⟩ := List.length_eq_one_iff.mp hlen
  obtain ⟨hcp, hcun, hcv⟩ := hin c (.head _)
  have hceq : c = core' := by
    by_contra hcne
    exact hcun (List.mem_filter.mpr ⟨List.mem_filter.mpr ⟨hcp, decide_eq_true hcv⟩,
      decide_eq_true hcne⟩)
  obtain ⟨-, hspec⟩ := eppCores_spec hfound
  refine ((hspec c (.head _)).resolve_left List.not_mem_nil).2.2 ?_
  rw [hceq, ← hid]
  refine List.mem_map_of_mem (List.mem_filter.mpr ⟨List.mem_filter.mpr ⟨hc, ?_⟩, ?_⟩)
  · exact decide_eq_true (hvalue core hc)
  · exact decide_eq_true hne

/-- The file that is read for a core shows the value of its CPUs. -/
theorem NumberedByCpu.hasEpp_iff (h : NumberedByCpu p value) (hc : core ∈ p.cores) :
    host.HasEpp core v ↔ CpusHave value v core := by
  rw [Cmk.hasEpp_iff hshows htext (h.named core hc).1]
  refine ⟨fun hv => hv ▸ (h.named core hc).2, fun hv => ?_⟩
  obtain ⟨z, hz⟩ := List.exists_mem_of_ne_nil _ (hok.nonempty core hc)
  exact ((h.named core hc).2 z hz).symm.trans (hv z hz)

/-- **Cores numbered by one of their CPUs' kind** are classified by their CPUs. -/
theorem NumberedByCpu.byCpus (h : NumberedByCpu p value) : ByCpus host p value := by
  have hline : ∀ core ∈ p.cores, host.eppLine core.coreId = .ok (value core.coreId) :=
    fun core hc => eppLine_of_shows hshows htext (h.named core hc).1
  have hread : ∀ core ∈ p.cores, IsOk (host.eppLine core.coreId) := fun core hc =>
    ⟨_, hline core hc⟩
  have hepp : ∀ core ∈ p.cores, ∀ v, host.HasEpp core v ↔ CpusHave value v core :=
    fun core hc v => h.hasEpp_iff hshows htext hok hc
  refine ⟨fun v => ⟨_, eppCoresNoLimit_eq hread, fun core => ?_⟩,
    fun v n unavailable hsub hn hmany => ?_, ?_⟩
  · rw [List.mem_filter, decide_eq_true_iff]
    exact and_congr_right fun hc => hepp core hc v
  · have hfree : ∀ core ∈ p.cores, core.coreId ∉ unavailable.map Core.coreId ↔
        core ∉ unavailable := fun core hc => not_congr ⟨fun hmem => by
      obtain ⟨c, hcu, hid⟩ := List.mem_map.mp hmem
      rwa [← List.inj_on_of_nodup_map h.nodup (hsub hcu) hc hid], List.mem_map_of_mem⟩
    have hsame : (p.cores.filter fun core =>
        core.coreId ∉ unavailable.map Core.coreId ∧ host.HasEpp core v) =
          p.cores.filter fun core => core ∉ unavailable ∧ CpusHave value v core := by
      refine List.filter_congr fun core hc => ?_
      rw [decide_eq_decide, hfree core hc, hepp core hc v]
    obtain ⟨found, hfound, hlen, hin⟩ := getEppCores_of_le hread hn (by rwa [hsame])
    refine ⟨found, hfound, hlen, hok.nodup_cores.sublist (eppCores_sublist hfound),
      fun core hc => ?_⟩
    obtain ⟨hcp, hv, hun⟩ := hin core hc
    exact ⟨hcp, (hfree core hcp).mp hun, (hepp core hcp v).mp hv⟩
  · obtain ⟨order, horder⟩ := isOk_getEppOrder hread
    refine ⟨order, horder, fun v => ?_⟩
    rw [mem_getEppOrder horder]
    refine and_congr_right fun _ => exists_congr fun core => and_congr_right fun hc => ?_
    rw [← hepp core hc v, Cmk.hasEpp_iff hshows htext (h.named core hc).1, hline core hc,
      Except.ok.injEq]

/-- **Cores are classified by their CPUs' EPP values** exactly when every core has the number of a
CPU of its value, and one of its own. -/
theorem byCpus_iff
    (hconst : ∀ core ∈ p.cores, ∀ z ∈ core.cpuIds, CpusHave value (value z) core) :
    ByCpus host p value ↔ NumberedByCpu p value :=
  ⟨fun h => ⟨h.nodup hshows htext hok hconst, fun _ hc =>
    ⟨h.mem_cpuIds hshows hc, h.cpusHave hshows htext hok hconst hc⟩⟩,
    fun h => h.byCpus hshows htext hok⟩

end Classified

/-- **A core is classified by its own CPUs' EPP value**, on a parsed topology, exactly when every
core has the number of a CPU of its value, and one of its own. -/
theorem classified_by_cpus_iff (host : Host) (lscpuOutput : String)
    (isolatedCpus sstBfCpus : List ℤ) (p : Platform) (value : ℤ → String)
    (hd : DistinctCpus lscpuOutput) (hparse : parse lscpuOutput isolatedCpus sstBfCpus = .ok p)
    (hshows : host.Shows p value) (htext : ∀ z, EppText (value z))
    (hconst : ∀ core ∈ p.cores, ∀ z ∈ core.cpuIds, CpusHave value (value z) core) :
    ByCpus host p value ↔ NumberedByCpu p value :=
  byCpus_iff hshows htext (ok_of_parse hd hparse) hconst

/-! ## Adjacent hyperthreads -/

/-- Two cores of two CPUs each, the first with the higher EPP value. -/
def adjacentValue (z : ℤ) : String := if z < 2 then "performance" else "power"

/-- The CPUs of a core have numbers next to each other. -/
def adjacent : Host where
  nodeLabel _ := .error (.keyError none)
  cmdline := .ok ""
  sstBfCpus := .ok []
  lscpu := .ok "0,0,0\n1,0,0\n2,1,0\n3,1,0\n"
  epp z := if z ∈ [0, 1, 2, 3] then .ok (adjacentValue z ++ "\n") else .error .osError

theorem distinctCpus_adjacent : DistinctCpus "0,0,0\n1,0,0\n2,1,0\n3,1,0\n" := by
  intro rs hrs
  have hread : records "0,0,0\n1,0,0\n2,1,0\n3,1,0\n" =
      .ok [⟨0, 0, 0⟩, ⟨1, 0, 0⟩, ⟨2, 1, 0⟩, ⟨3, 1, 0⟩] := by rfl
  obtain rfl := Except.ok.inj (hread.symm.trans hrs)
  decide

theorem eppText_adjacentValue (z : ℤ) : EppText (adjacentValue z) := by
  unfold adjacentValue
  split
  · exact ⟨by decide, by decide⟩
  · exact ⟨by decide, by decide⟩

/-- The platform, as far as it matters. -/
theorem parse_adjacent : ∃ p, parse "0,0,0\n1,0,0\n2,1,0\n3,1,0\n" [] [] = .ok p ∧
    adjacent.Shows p adjacentValue ∧
      (∀ core ∈ p.cores, ∀ z ∈ core.cpuIds, CpusHave adjacentValue (adjacentValue z) core) ∧
        ∃ core ∈ p.cores, ¬ CpusHave adjacentValue (adjacentValue core.coreId) core := by
  have hret : (parse "0,0,0\n1,0,0\n2,1,0\n3,1,0\n" [] []).toOption.any (fun p =>
      decide (p.cores.flatMap Core.cpuIds = [0, 1, 2, 3]) &&
        (p.cores.all fun core => core.cpuIds.all fun z =>
          CpusHave adjacentValue (adjacentValue z) core) &&
        p.cores.any fun core => !decide (CpusHave adjacentValue (adjacentValue core.coreId) core)) =
      true := by decide
  cases h : parse "0,0,0\n1,0,0\n2,1,0\n3,1,0\n" [] [] with
  | error err =>
    rw [h] at hret
    nomatch hret
  | ok p =>
    rw [h] at hret
    obtain ⟨hret, hwrong⟩ := Bool.and_eq_true_iff.mp hret
    obtain ⟨hids, hconst⟩ := Bool.and_eq_true_iff.mp hret
    refine ⟨p, rfl, fun z => ?_, fun core hc z hz => ?_, ?_⟩
    · rw [of_decide_eq_true hids]
      rfl
    · exact of_decide_eq_true (List.all_eq_true.mp (List.all_eq_true.mp hconst core hc) z hz)
    · obtain ⟨core, hc, hno⟩ := List.any_eq_true.mp hwrong
      exact ⟨core, hc, by simpa using hno⟩

theorem classified_by_cpus_adjacent : ∃ p,
    ByCpus adjacent p adjacentValue ↔ NumberedByCpu p adjacentValue := by
  obtain ⟨p, hparse, hshows, hconst, -⟩ := parse_adjacent
  exact ⟨p, classified_by_cpus_iff adjacent _ [] [] p adjacentValue distinctCpus_adjacent hparse
    hshows eppText_adjacentValue hconst⟩

/-- Core 1 has the CPUs 2 and 3, but it is classified by the value of CPU 1, of core 0. -/
theorem core_of_other_value : ∃ p, parse "0,0,0\n1,0,0\n2,1,0\n3,1,0\n" [] [] = .ok p ∧
    DistinctCpus "0,0,0\n1,0,0\n2,1,0\n3,1,0\n" ∧ adjacent.Shows p adjacentValue ∧
      (∀ core ∈ p.cores, ∀ z ∈ core.cpuIds, CpusHave adjacentValue (adjacentValue z) core) ∧
        ¬ ByCpus adjacent p adjacentValue := by
  obtain ⟨p, hparse, hshows, hconst, core, hc, hwrong⟩ := parse_adjacent
  refine ⟨p, hparse, distinctCpus_adjacent, hshows, hconst, fun hby => ?_⟩
  have hok := ok_of_parse distinctCpus_adjacent hparse
  exact hwrong (((byCpus_iff hshows eppText_adjacentValue hok hconst).mp hby).named core hc).2

end Cmk
