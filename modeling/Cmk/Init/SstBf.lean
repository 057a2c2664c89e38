import Cmk.Init.Shares

/-!
# Init/SstBf — where the isolated SST-BF cores end up

On a node with isolated SST-BF cores the exclusive pool is dealt from these alone.  The shared pool
is dealt from all isolated cores, and `assign` puts the SST-BF ones first, so one that is left goes
to the shared pool before any other core does (`isSstBf_of_head`).  None does exactly when the
exclusive pool takes all of them or no shared core is asked for (`sstBf_exclusive_iff`).
-/

open Machinery Machinery.Deal Cmk.Topology

namespace Cmk

/-- The isolated SST-BF cores of a platform. -/
def isolatedSstBfCores (p : Platform) : List Core :=
  p.cores.filter fun core => core.isIsolated && core.isSstBf

/-- The exclusive pool has isolated SST-BF cores only, and no other pool has any. -/
structure SstBfExclusive (p : Platform) (pools : Pools) : Prop where
  only : ∀ core ∈ p.cores, pools core = some "exclusive" → core ∈ isolatedSstBfCores p
  others : ∀ core ∈ isolatedSstBfCores p, pools core ≠ some "shared" ∧
    pools core ≠ some "infra" ∧ pools core ≠ some "exclusive-non-isolcpus"

variable {p : Platform} {host : Host} {cores exclusive shared : List Core} {pools : Pools}
  {exclusiveMode sharedMode exclNonIsolcpus : String} {numExclusive numShared : ℕ}

/-- **SST-BF cores come first** among the free ones. -/
theorem isSstBf_of_head {core first : Core} {rest : List Core}
    (hfree : freeCores pools cores = first :: rest) (hc : core ∈ freeCores pools cores)
    (hbf : core.isSstBf = true) : first.isSstBf = true := by
  have htotal : Std.Total fun c c' : Core => sortKey c ≤ sortKey c' := ⟨fun c c' => le_total _ _⟩
  have htrans : IsTrans Core fun c c' => sortKey c ≤ sortKey c' := ⟨fun _ _ _ => le_trans⟩
  have hsorted := List.pairwise_insertionSort (fun c c' => sortKey c ≤ sortKey c')
    (free pools cores)
  rw [← freeCores, hfree] at hsorted
  rw [hfree] at hc
  rcases List.mem_cons.mp hc with rfl | hc
  · exact hbf
  · have hle := (List.pairwise_cons.mp hsorted).1 core hc
    by_contra hno
    rw [sortKey, sortKey, hbf, if_pos rfl, if_neg hno] at hle
    exact absurd hle (by decide)

theorem mem_getIsolatedSstBfCores {mode : String} {core : Core} :
    core ∈ p.getIsolatedSstBfCores mode ↔ core ∈ isolatedSstBfCores p := by
  rw [isolatedSstBfCores, Platform.getIsolatedSstBfCores,
    (perm_getCoresGeneral p mode true true).mem_iff]
  simp

theorem mem_getIsolatedCores {mode : String} {core : Core} :
    core ∈ p.getIsolatedCores mode ↔ core ∈ p.cores ∧ core.isIsolated = true := by
  rw [Platform.getIsolatedCores, (perm_getCoresGeneral p mode true false).mem_iff]
  simp

theorem mem_exclusiveShare {core : Core} (h : core ∈ exclusiveShare exclusive numExclusive) :
    core ∈ exclusive := (mem_freeCores.mp (List.mem_of_mem_take h)).1

theorem mem_sharedShare {core : Core}
    (h : core ∈ sharedShare exclusive shared numExclusive numShared) :
    core ∈ shared ∧ core ∉ exclusiveShare exclusive numExclusive := by
  obtain ⟨hc, hfree⟩ := mem_freeCores.mp (List.mem_of_mem_take h)
  refine ⟨hc, fun hno => ?_⟩
  rw [mark, if_pos hno] at hfree
  cases hfree

/-- The exclusive pool gets as many isolated SST-BF cores as it asks for. -/
theorem exclusiveShare_sstBf (hp : p.cores.Nodup)
    (hlen : numExclusive ≤ (isolatedSstBfCores p).length) :
    (exclusiveShare (p.getIsolatedSstBfCores exclusiveMode) numExclusive).length = numExclusive ∧
      (exclusiveShare (p.getIsolatedSstBfCores exclusiveMode) numExclusive).Nodup ∧
      exclusiveShare (p.getIsolatedSstBfCores exclusiveMode) numExclusive ⊆
        isolatedSstBfCores p := by
  have hperm : (freeCores noPools (p.getIsolatedSstBfCores exclusiveMode)).Perm
      (isolatedSstBfCores p) := by
    refine (List.perm_ext_iff_of_nodup ?_ (hp.filter _)).mpr fun core => ?_
    · exact (perm_freeCores _ _).nodup_iff.mpr ((Candidates.general hp _ _ _).1.filter _)
    · rw [mem_freeCores, mem_getIsolatedSstBfCores]
      exact and_iff_left rfl
  refine ⟨?_, (hperm.nodup_iff.mpr (hp.filter _)).sublist (List.take_sublist _ _),
    fun core hc => mem_getIsolatedSstBfCores.mp (mem_exclusiveShare hc)⟩
  rw [exclusiveShare, List.length_take, hperm.length_eq]
  omega

/-- An isolated SST-BF core that is left gives way to none but another one. -/
theorem exists_sharedShare_of_left {core : Core} (hc : core ∈ isolatedSstBfCores p)
    (hleft : core ∉ exclusiveShare exclusive numExclusive) (hpos : 0 < numShared) :
    ∃ first ∈ isolatedSstBfCores p,
      first ∈ sharedShare exclusive (p.getIsolatedCores sharedMode) numExclusive numShared := by
  have hkind := List.mem_filter.mp hc
  rw [Bool.and_eq_true] at hkind
  have hfree : core ∈ freeCores (mark noPools (exclusiveShare exclusive numExclusive) "exclusive")
      (p.getIsolatedCores sharedMode) := by
    refine mem_freeCores.mpr ⟨mem_getIsolatedCores.mpr ⟨hkind.1, hkind.2.1⟩, ?_⟩
    rw [mark, if_neg hleft]
    rfl
  obtain ⟨first, rest, hfirst⟩ := List.exists_cons_of_ne_nil (List.ne_nil_of_mem hfree)
  have hbf := isSstBf_of_head hfirst hfree hkind.2.2
  have hin : first ∈ sharedShare exclusive (p.getIsolatedCores sharedMode) numExclusive
      numShared := by
    obtain ⟨n, rfl⟩ := Nat.exists_eq_succ_of_ne_zero hpos.ne'
    rw [sharedShare, hfirst]
    exact .head _
  obtain ⟨hcore, hisol⟩ := mem_getIsolatedCores.mp (mem_sharedShare hin).1
  exact ⟨first, List.mem_filter.mpr ⟨hcore, by rw [hisol, hbf]; rfl⟩, hin⟩

/-- **Which isolated SST-BF cores are shared**: one is, if any is left and a core is asked for. -/
theorem exists_sharedShare_iff (hp : p.cores.Nodup)
    (hlen : numExclusive ≤ (isolatedSstBfCores p).length) :
    (∃ core ∈ isolatedSstBfCores p, core ∈ sharedShare (p.getIsolatedSstBfCores exclusiveMode)
        (p.getIsolatedCores sharedMode) numExclusive numShared) ↔
      0 < numShared ∧ numExclusive < (isolatedSstBfCores p).length := by
  obtain ⟨htake, hnd, hsub⟩ := @exclusiveShare_sstBf p exclusiveMode numExclusive hp hlen
  constructor
  · rintro ⟨core, hc, hs⟩
    refine ⟨Nat.pos_of_ne_zero fun hzero => ?_, Nat.lt_of_le_of_ne hlen fun hall => ?_⟩
    · rw [sharedShare, hzero, List.take_zero] at hs
      exact List.not_mem_nil hs
    · refine (mem_sharedShare hs).2 ((mem_of_length_eq hnd hsub ?_).mpr hc)
      rw [htake, hall]
  · rintro ⟨hpos, hlt⟩
    obtain ⟨core, hc, hleft⟩ : ∃ core ∈ isolatedSstBfCores p,
        core ∉ exclusiveShare (p.getIsolatedSstBfCores exclusiveMode) numExclusive := by
      by_contra hno
      push Not at hno
      have hle := ((hp.filter _).subperm hno).length_le
      rw [htake] at hle
      exact absurd hle (Nat.not_le.mpr hlt)
    exact exists_sharedShare_of_left hc hleft hpos

/-- The other pools get none: infra has only cores that are not isolated, and so has the operator's
list. -/
theorem notMem_of_origin (hinfra : p.getSharedCores.Nodup) (he : exclusive.Nodup)
    (hs : shared.Nodup)
    (h : assignPools p exclusive shared p.getSharedCores numExclusive numShared exclNonIsolcpus
      noPools = .ok pools) {core : Core} (hc : core ∈ isolatedSstBfCores p) :
    pools core ≠ some "infra" ∧ pools core ≠ some "exclusive-non-isolcpus" := by
  have horigin := origin_assignPools he hs hinfra h
  have hisol := (Bool.and_eq_true_iff.mp (List.mem_filter.mp hc).2).1
  refine ⟨fun hv => ?_, fun hv => ?_⟩
  · have hin := horigin.infra core hv
    rw [getSharedCores_eq] at hin
    have hno := (List.mem_filter.mp hin).2
    rw [hisol] at hno
    cases hno
  · have hno := horigin.listed core hv
    rw [hisol] at hno
    cases hno

/-- **The branch with SST-BF.** -/
theorem sstBfExclusive_assignPools (hp : p.cores.Nodup)
    (h : assignPools p (p.getIsolatedSstBfCores exclusiveMode) (p.getIsolatedCores sharedMode)
      p.getSharedCores numExclusive numShared exclNonIsolcpus noPools = .ok pools) :
    SstBfExclusive p pools ↔
      numShared = 0 ∨ numExclusive = (isolatedSstBfCores p).length := by
  have hinfra := (Candidates.getSharedCores hp).1
  have hheld := held_assignPools hinfra h
  have he := (Candidates.general hp exclusiveMode true true).1
  have hs := (Candidates.general hp sharedMode true false).1
  have hlen : numExclusive ≤ (isolatedSstBfCores p).length := by
    obtain ⟨pools₁, h₁, -⟩ := bind_eq_ok.mp h
    obtain ⟨-, hle, -⟩ := assign_eq_ok.mp h₁
    rw [(perm_freeCores _ _).length_eq] at hle
    refine hle.trans ((he.filter _).subperm fun core hc => ?_).length_le
    exact mem_getIsolatedSstBfCores.mp (List.mem_of_mem_filter hc)
  have hshared := @exists_sharedShare_iff p exclusiveMode sharedMode numExclusive numShared hp hlen
  have honly : ∀ core ∈ p.cores, pools core = some "exclusive" → core ∈ isolatedSstBfCores p :=
    fun core _ hv => mem_getIsolatedSstBfCores.mp
      ((origin_assignPools he hs hinfra h).exclusive core hv)
  constructor
  · intro hok
    by_contra hno
    obtain ⟨core, hc, hs⟩ := hshared.mpr (by omega)
    exact (hok.others core hc).1 ((hheld.shared_iff core).mpr hs)
  · intro hcond
    refine ⟨honly, fun core hc => ⟨fun hv => ?_, notMem_of_origin hinfra he hs h hc⟩⟩
    have := hshared.mp ⟨core, hc, (hheld.shared_iff core).mp hv⟩
    omega

/-- **Isolated SST-BF cores stay in the exclusive pool** exactly when it takes all of them or no
shared core is asked for. -/
theorem sstBf_exclusive_iff (host : Host) (numExclusive numShared : ℕ)
    (exclusiveMode sharedMode exclNonIsolcpus : String) (p : Platform) (pools : Pools)
    (hbf : host.hasLabel sstBfLabel = .ok true) (hcp : host.hasLabel sstCpLabel = .ok false)
    (hany : p.hasIsolatedSstBfCores = true)
    (h : configure host numExclusive numShared exclusiveMode sharedMode exclNonIsolcpus =
      .ok (p, pools)) :
    SstBfExclusive p pools ↔
      numShared = 0 ∨ numExclusive = (isolatedSstBfCores p).length := by
  obtain ⟨sstBf, sstCp, hbf', hcp', hdisc, hconf⟩ := configure_eq_ok_iff.mp h
  obtain rfl := Except.ok.inj (hbf'.symm.trans hbf)
  obtain rfl := Except.ok.inj (hcp'.symm.trans hcp)
  obtain ⟨-, -, hconf⟩ := bind_eq_ok.mp hconf
  rw [Bool.false_and, if_neg Bool.false_ne_true, hany, Bool.and_self, if_pos rfl] at hconf
  exact sstBfExclusive_assignPools (nodup_cores_of_placed (placed_of_discover hdisc)) hconf

/-- One socket with four cores, all but the last isolated and the first two with SST-BF. -/
def twoSstBf : Host where
  nodeLabel key := if key = sstBfLabel then .ok "true" else .error (.keyError none)
  cmdline := .ok "quiet isolcpus=0-2 nosmt"
  sstBfCpus := .ok [0, 1]
  lscpu := .ok "# CPU,Core,Socket\n0,0,0\n1,1,0\n2,2,0\n3,3,0\n"
  epp _ := .error .osError

theorem sstBf_exclusive_twoSstBf : ∃ p pools, p.hasIsolatedSstBfCores = true ∧
    (SstBfExclusive p pools ↔ 1 = 0 ∨ 2 = (isolatedSstBfCores p).length) := by
  have hret : (configure twoSstBf 2 1 "packed" "spread" "-1").toOption.any (fun result =>
      result.1.hasIsolatedSstBfCores) = true := by decide
  cases h : configure twoSstBf 2 1 "packed" "spread" "-1" with
  | error err =>
    rw [h] at hret
    nomatch hret
  | ok result =>
    rw [h] at hret
    exact ⟨_, _, hret, sstBf_exclusive_iff twoSstBf 2 1 "packed" "spread" "-1" _ _ rfl rfl hret h⟩

/-- With one exclusive and one shared core, the shared one is an SST-BF core, although an isolated
core without SST-BF is free. -/
theorem sstBf_core_shared : ∃ p pools, twoSstBf.hasLabel sstBfLabel = .ok true ∧
    twoSstBf.hasLabel sstCpLabel = .ok false ∧ p.hasIsolatedSstBfCores = true ∧
      configure twoSstBf 1 1 "packed" "packed" "-1" = .ok (p, pools) ∧
        ¬ SstBfExclusive p pools := by
  have hret : (configure twoSstBf 1 1 "packed" "packed" "-1").toOption.any (fun result =>
      result.1.hasIsolatedSstBfCores && (isolatedSstBfCores result.1).any fun core =>
        result.2 core = some "shared") = true := by decide
  cases h : configure twoSstBf 1 1 "packed" "packed" "-1" with
  | error err =>
    rw [h] at hret
    nomatch hret
  | ok result =>
    rw [h] at hret
    obtain ⟨hany, hleak⟩ := Bool.and_eq_true_iff.mp hret
    obtain ⟨core, hc, hv⟩ := List.any_eq_true.mp hleak
    refine ⟨_, _, rfl, rfl, hany, rfl, fun hok => ?_⟩
    exact (hok.others core hc).1 (of_decide_eq_true hv)

end Cmk
