import Cmk.Init.Epp
import Cmk.Init.Shares

/-!
# Init/SstCp — when the allocation by EPP value succeeds

The check on the counts makes sure there are as many cores of the upper values as are asked for, so
both searches for them return, with one exception: a search that requires no core finds none, and
`configure` goes over what it returned all the same.  So the branch with SST-CP succeeds exactly
when both pools are asked for at least one core (`sstCp_succeeds_iff`).
-/

open Machinery Machinery.Deal Cmk.Topology

namespace Cmk

/-- The EPP values of the exclusive, the shared and the infra cores, with three values present and
with two. -/
def eppRoles : List String → Option (String × String × String)
  | [high, middle, low] => some (high, middle, low)
  | [high, low] => some (high, high, low)
  | _ => none

/-- What the branch with SST-CP promises. -/
structure SstCpAllocated (host : Host) (p : Platform) (numExclusive numShared : ℕ)
    (high middle low : String) (pools : Pools) : Prop where
  numExclusive : (holders pools p.cores "exclusive").length = numExclusive
  numShared : (holders pools p.cores "shared").length = numShared
  exclusive : ∀ core ∈ holders pools p.cores "exclusive", host.HasEpp core high
  shared : ∀ core ∈ holders pools p.cores "shared", host.HasEpp core middle
  apart : ∀ core ∈ holders pools p.cores "exclusive", core ∉ holders pools p.cores "shared"
  infra : ∀ core ∈ p.cores, host.HasEpp core low → core ∈ holders pools p.cores "infra"

variable {host : Host} {p : Platform} {cores exclusive shared infra : List Core}
  {pools pools' : Pools} {pool high middle low exclusiveMode sharedMode : String}
  {order : List String} {numExclusive numShared : ℕ}

/-- There are three values, or two of which the higher is that of both pools. -/
theorem order_of_eppRoles (h : eppRoles order = some (high, middle, low)) :
    order = [high, middle, low] ∨ order = [high, low] ∧ middle = high := by
  unfold eppRoles at h
  split at h
  · obtain ⟨rfl, rfl, rfl⟩ : _ = high ∧ _ = middle ∧ _ = low := by simpa using h
    exact .inl rfl
  · obtain ⟨rfl, rfl, rfl⟩ : _ = high ∧ _ = middle ∧ _ = low := by simpa using h
    exact .inr ⟨rfl, rfl⟩
  · cases h

theorem low_mem_of_eppRoles (h : eppRoles order = some (high, middle, low)) :
    low ∈ order ∧ order.length ≤ 3 := by
  rcases order_of_eppRoles h with rfl | ⟨rfl, -⟩ <;> simp

theorem low_ne_of_eppRoles (h : eppRoles order = some (high, middle, low)) (hnd : order.Nodup) :
    low ≠ high ∧ low ≠ middle := by
  rcases order_of_eppRoles h with rfl | ⟨rfl, rfl⟩
  · simp only [List.nodup_cons, List.mem_cons, List.not_mem_nil, or_false, not_or] at hnd
    exact ⟨Ne.symm hnd.1.2, Ne.symm hnd.2.1⟩
  · simp only [List.nodup_cons, List.mem_cons, List.not_mem_nil, or_false] at hnd
    exact ⟨Ne.symm hnd.1, Ne.symm hnd.1⟩

/-! ## The sequence of assignments -/

/-- An assignment without a count deals all free cores. -/
theorem assign_none_eq_ok : assign cores pool none pools = .ok pools' ↔
    (pool = "infra" → freeCores pools cores ≠ []) ∧
      mark pools (freeCores pools cores) pool = pools' := by
  rw [assign, Option.any_none, if_neg (fun h => Bool.false_ne_true h.1)]
  by_cases hinfra : pool = "infra" ∧ freeCores pools cores = []
  · rw [if_pos hinfra]
    simp [hinfra.1, hinfra.2]
  · rw [if_neg hinfra, Except.ok.injEq]
    exact ⟨fun hm => ⟨by simpa using hinfra, hm⟩, And.right⟩

/-- **Candidates nobody has** all get the pool. -/
theorem assign_of_free {count : Option ℤ} (hp : p.cores.Nodup) (hcand : Candidates p cores)
    (hfree : ∀ c ∈ cores, pools c = none) (hnil : holders pools p.cores pool = [])
    (hne : pool = "infra" → cores ≠ [])
    (hcount : ∀ n ∈ count, n = cores.length) :
    ∃ pools', assign cores pool count pools = .ok pools' ∧
      (holders pools' p.cores pool).Perm cores ∧
        (∀ w ≠ pool, holders pools' p.cores w = holders pools p.cores w) ∧
          ∀ c ∉ cores, pools' c = pools c := by
  have hf : (freeCores pools cores).Perm cores :=
    (perm_freeCores pools cores).trans
      (.of_eq (List.filter_eq_self.mpr fun c hc => decide_eq_true (hfree c hc)))
  have hne' : pool = "infra" → freeCores pools cores ≠ [] := fun hi hno =>
    hne hi (List.perm_nil.mp (hno ▸ hf).symm)
  refine ⟨mark pools (freeCores pools cores) pool, ?_, ?_, fun w hw => ?_, fun c hc => ?_⟩
  · cases count with
    | none => exact assign_none_eq_ok.mpr ⟨hne', rfl⟩
    | some n =>
      obtain rfl := hcount n rfl
      refine assign_eq_ok.mpr ⟨hne', hf.length_eq.ge, ?_⟩
      rw [List.take_of_length_le hf.length_eq.le]
  · refine (holders_mark_self hp (hf.nodup_iff.mpr hcand.1)
      (fun c hc => hcand.2 (hf.mem_iff.mp hc)) fun c hc hv => ?_).trans hf
    exact List.not_mem_nil (hnil ▸ mem_holders.mpr ⟨hc, hv⟩)
  · exact holders_mark_other (fun c hc => (mem_freeCores.mp hc).2) hw
  · rw [mark, if_neg fun hin => hc (hf.mem_iff.mp hin)]

/-- **Candidates apart from each other** are dealt as they are. -/
theorem assignPools_of_apart (hp : p.cores.Nodup) (he : Candidates p exclusive)
    (hs : Candidates p shared) (hi : Candidates p infra)
    (hes : exclusive.Disjoint shared) (hie : infra.Disjoint exclusive)
    (his : infra.Disjoint shared) (hne : infra ≠ []) :
    ∃ pools, assignPools p exclusive shared infra exclusive.length shared.length "-1" noPools =
        .ok pools ∧ (holders pools p.cores "exclusive").Perm exclusive ∧
      (holders pools p.cores "shared").Perm shared ∧
        (holders pools p.cores "infra").Perm infra := by
  obtain ⟨pools₁, h₁, hp₁, ho₁, hn₁⟩ := @assign_of_free p exclusive noPools "exclusive"
    (some exclusive.length) hp he (fun _ _ => rfl) (holders_noPools _ _) (by simp) (by simp)
  obtain ⟨pools₂, h₂, hp₂, ho₂, hn₂⟩ := @assign_of_free p shared pools₁ "shared"
    (some shared.length) hp hs (fun c hc => hn₁ c fun hce => hes hce hc)
    ((ho₁ _ (by decide)).trans (holders_noPools _ _)) (by simp) (by simp)
  obtain ⟨pools₃, h₃, hp₃, ho₃, -⟩ := @assign_of_free p infra pools₂ "infra" none hp hi
    (fun c hc => (hn₂ c (his hc)).trans (hn₁ c (hie hc)))
    ((ho₂ _ (by decide)).trans ((ho₁ _ (by decide)).trans (holders_noPools _ _)))
    (fun _ => hne) (by simp)
  refine ⟨pools₃, ?_, ?_, ?_, hp₃⟩
  · exact bind_eq_ok.mpr ⟨_, h₁, bind_eq_ok.mpr ⟨_, h₂, bind_eq_ok.mpr ⟨_, rfl, h₃⟩⟩⟩
  · rwa [ho₃ _ (by decide), ho₂ _ (by decide)]
  · rwa [ho₃ _ (by decide)]

/-! ## The candidates -/

/-- What is dealt: of each pool's value, apart from each other, and all of the lowest value. -/
structure SstCpCandidates (host : Host) (p : Platform) (numExclusive numShared : ℕ)
    (high middle low : String) (exclusive shared infra : List Core) : Prop where
  length_exclusive : exclusive.length = numExclusive
  length_shared : shared.length = numShared
  high : ∀ core ∈ exclusive, host.HasEpp core high
  middle : ∀ core ∈ shared, host.HasEpp core middle
  apart : exclusive.Disjoint shared
  low : ∀ core, core ∈ infra ↔ core ∈ p.cores ∧ host.HasEpp core low

section Candidates

variable (hread : ∀ core ∈ p.cores, IsOk (host.eppLine core.coreId))

include hread

/-- The cores of a value. -/
theorem getEppCoresNoLimit_eq (v : String) :
    host.getEppCoresNoLimit p v = .ok (p.cores.filter fun core => host.HasEpp core v) :=
  eppCoresNoLimit_eq hread

/-- The check with three values compares each count. -/
theorem counts_of_check_three
    (h : checkSstCpIsolatedCores host p numExclusive numShared [high, middle, low] = .ok ()) :
    numExclusive = (p.cores.filter fun core => host.HasEpp core high).length ∧
      numShared = (p.cores.filter fun core => host.HasEpp core middle).length := by
  rw [checkSstCpIsolatedCores, getEppCoresNoLimit_eq hread, getEppCoresNoLimit_eq hread] at h
  by_contra hno
  simp only [bind, Except.bind] at h
  rw [if_pos (by omega)] at h
  cases h

/-- The check with two values compares the sum. -/
theorem counts_of_check_two
    (h : checkSstCpIsolatedCores host p numExclusive numShared [high, low] = .ok ()) :
    (p.cores.filter fun core => host.HasEpp core high).length = numExclusive + numShared := by
  rw [checkSstCpIsolatedCores, getEppCoresNoLimit_eq hread] at h
  by_contra hno
  simp only [bind, Except.bind] at h
  rw [if_pos (by omega)] at h
  cases h

/-- The first search of a value excludes nothing. -/
theorem getEppCores_of_length {v : String} {n : ℕ} (hn : 0 < n)
    (hmany : n ≤ (p.cores.filter fun core => host.HasEpp core v).length) :
    ∃ found, host.getEppCores p v n [] = .ok (some found) ∧ found.length = n ∧
      ∀ core ∈ found, core ∈ p.cores ∧ host.HasEpp core v := by
  have hall : (p.cores.filter fun core =>
      core.coreId ∉ ([] : List Core).map Core.coreId ∧ host.HasEpp core v) =
        p.cores.filter fun core => host.HasEpp core v := by
    simp
  obtain ⟨found, hfound, hlen, hin⟩ := getEppCores_of_le hread hn (by rw [hall]; exact hmany)
  exact ⟨found, hfound, hlen, fun core hc => ⟨(hin core hc).1, (hin core hc).2.1⟩⟩

omit hread in
/-- With distinct numbers, what some cores leave is what a search without their numbers looks at. -/
theorem length_filter_le_add {v : String} {taken : List Core}
    (hids : (p.cores.map Core.coreId).Nodup) (htaken : ∀ core ∈ taken, core ∈ p.cores) :
    (p.cores.filter fun core => host.HasEpp core v).length ≤ taken.length +
      (p.cores.filter fun core =>
        core.coreId ∉ taken.map Core.coreId ∧ host.HasEpp core v).length := by
  have hsub : (p.cores.filter fun core => host.HasEpp core v) ⊆ taken ++
      p.cores.filter fun core => core.coreId ∉ taken.map Core.coreId ∧ host.HasEpp core v := by
    intro core hc
    obtain ⟨hcp, hv⟩ := List.mem_filter.mp hc
    by_cases hmem : core.coreId ∈ taken.map Core.coreId
    · obtain ⟨c, hct, hid⟩ := List.mem_map.mp hmem
      obtain rfl := List.inj_on_of_nodup_map hids (htaken c hct) hcp hid
      exact List.mem_append_left _ hct
    · refine List.mem_append_right _ (List.mem_filter.mpr ⟨hcp, decide_eq_true ⟨hmem, ?_⟩⟩)
      exact of_decide_eq_true hv
  have hle := ((hids.of_map.filter _).subperm hsub).length_le
  rwa [List.length_append] at hle

/-- With three values each pool has its own, and the counts are those of the values. -/
theorem sstCpCandidates_of_three (hnd : [high, middle, low].Nodup)
    (hcheck : checkSstCpIsolatedCores host p numExclusive numShared [high, middle, low] = .ok ())
    (he : 0 < numExclusive) (hs : 0 < numShared) : ∃ exclusive shared infra,
      sstCpCandidates host p numExclusive numShared [high, middle, low] =
        .ok (exclusive, shared, infra) ∧
      SstCpCandidates host p numExclusive numShared high middle low exclusive shared infra := by
  obtain ⟨hcount, hcount'⟩ := counts_of_check_three hread hcheck
  obtain ⟨exclusive, hfound, hlen, hin⟩ := getEppCores_of_length hread he hcount.le
  obtain ⟨shared, hfound', hlen', hin'⟩ := getEppCores_of_length hread hs hcount'.le
  have hne : high ≠ middle := fun h => (List.nodup_cons.mp hnd).1 (h ▸ List.mem_cons_self)
  refine ⟨exclusive, shared, p.cores.filter fun core => host.HasEpp core low, ?_, hlen, hlen',
    fun core hc => (hin core hc).2, fun core hc => (hin' core hc).2, fun core hc hc' => ?_,
    fun core => ?_⟩
  · simp only [sstCpCandidates, hfound, hfound', getEppCoresNoLimit_eq hread]
    rfl
  · exact hne ((hin core hc).2.unique (hin' core hc').2)
  · rw [List.mem_filter, decide_eq_true_iff]

/-- With two values the second search looks at what the first one left. -/
theorem sstCpCandidates_of_two (hids : (p.cores.map Core.coreId).Nodup)
    (hcheck : checkSstCpIsolatedCores host p numExclusive numShared [high, low] = .ok ())
    (he : 0 < numExclusive) (hs : 0 < numShared) : ∃ exclusive shared infra,
      sstCpCandidates host p numExclusive numShared [high, low] = .ok (exclusive, shared, infra) ∧
      SstCpCandidates host p numExclusive numShared high high low exclusive shared infra := by
  have hcount := counts_of_check_two hread hcheck
  obtain ⟨exclusive, hfound, hlen, hin⟩ := getEppCores_of_length hread he (v := high) (by omega)
  have hleft := @length_filter_le_add host p high exclusive hids fun core hc => (hin core hc).1
  obtain ⟨shared, hfound', hlen', hin'⟩ := @getEppCores_of_le host p high hread numShared exclusive
    hs (by omega)
  refine ⟨exclusive, shared, p.cores.filter fun core => host.HasEpp core low, ?_, hlen, hlen',
    fun core hc => (hin core hc).2, fun core hc => (hin' core hc).2.1, fun core hc hc' => ?_,
    fun core => ?_⟩
  · simp only [sstCpCandidates, hfound, getEppCoresNoLimit_eq hread, bind, Except.bind, overCores,
      hfound']
    rfl
  · exact (hin' core hc').2.2 (List.mem_map_of_mem hc)
  · rw [List.mem_filter, decide_eq_true_iff]

/-- **The candidates are found**, when the check passes and both pools are asked for. -/
theorem sstCpCandidates_of_pos (hids : (p.cores.map Core.coreId).Nodup)
    (hroles : eppRoles order = some (high, middle, low)) (hnd : order.Nodup)
    (hcheck : checkSstCpIsolatedCores host p numExclusive numShared order = .ok ())
    (he : 0 < numExclusive) (hs : 0 < numShared) : ∃ exclusive shared infra,
      sstCpCandidates host p numExclusive numShared order = .ok (exclusive, shared, infra) ∧
        SstCpCandidates host p numExclusive numShared high middle low exclusive shared infra := by
  rcases order_of_eppRoles hroles with rfl | ⟨rfl, rfl⟩
  · exact sstCpCandidates_of_three hread hnd hcheck he hs
  · exact sstCpCandidates_of_two hread hids hcheck he hs

end Candidates

/-! ## The branch with SST-CP -/

theorem rstripText_of_mem_knownEpp {v : String} (h : v ∈ knownEpp) : rstripText v = v := by
  simp only [knownEpp, List.mem_cons, List.not_mem_nil, or_false] at h
  rcases h with rfl | rfl | rfl | rfl <;> decide

/-- A search that was gone over required some core. -/
theorem pos_of_getEppCores {v : String} {n : ℕ} {unavailable found : List Core}
    (h : host.getEppCores p v n unavailable = .ok (some found)) : 0 < n := by
  have hlt := length_lt_of_eppCores h
  obtain ⟨hlen, -⟩ := eppCores_spec h
  rw [List.length_nil] at hlt
  omega

/-- The branch with SST-CP, step by step. -/
theorem configurePlatform_sstCp_eq_ok {sstBf : Bool} (hisol : p.hasIsolatedCores = true)
    (horder : host.getEppOrder p = .ok order) :
    configurePlatform host sstBf true p numExclusive numShared exclusiveMode sharedMode "-1" =
        .ok pools ↔
      checkIsolatedCores p numExclusive numShared = .ok () ∧ order.length ≤ 3 ∧
        checkSstCpIsolatedCores host p numExclusive numShared order = .ok () ∧
          ∃ exclusive shared infra, sstCpCandidates host p numExclusive numShared order =
              .ok (exclusive, shared, infra) ∧
            assignPools p exclusive shared infra numExclusive numShared "-1" noPools =
              .ok pools := by
  rw [configurePlatform, hisol, Bool.and_self, if_pos rfl, horder]
  constructor
  · intro h
    obtain ⟨_, hisolated, h⟩ := bind_eq_ok.mp h
    change (if 3 < order.length then _ else _) = _ at h
    by_cases hlen : 3 < order.length
    · rw [if_pos hlen] at h
      cases h
    · rw [if_neg hlen] at h
      obtain ⟨_, hcheck, h⟩ := bind_eq_ok.mp h
      obtain ⟨⟨exclusive, shared, infra⟩, hcand, hassign⟩ := bind_eq_ok.mp h
      exact ⟨hisolated, by omega, hcheck, exclusive, shared, infra, hcand, hassign⟩
  · rintro ⟨hisolated, hlen, hcheck, exclusive, shared, infra, hcand, hassign⟩
    refine bind_eq_ok.mpr ⟨_, hisolated, ?_⟩
    change (if 3 < order.length then _ else _) = _
    rw [if_neg (by omega)]
    exact bind_eq_ok.mpr ⟨_, hcheck, bind_eq_ok.mpr ⟨_, hcand, hassign⟩⟩

/-- What was found for a pool of its own took a core to find. -/
theorem pos_of_sstCpCandidates (h : sstCpCandidates host p numExclusive numShared order =
    .ok (exclusive, shared, infra)) : 0 < numExclusive ∧ 0 < numShared := by
  rcases sstCpCandidates_ok h with ⟨_, _, _, -, he, hs, -⟩ | ⟨_, _, -, he, hs, -⟩
  · exact ⟨pos_of_getEppCores he, pos_of_getEppCores hs⟩
  · exact ⟨pos_of_getEppCores he, pos_of_getEppCores hs⟩

/-- **What was found is dealt as it is**, since the values of the three are different or the cores
are. -/
theorem sstCpAllocated_of_candidates (hp : p.cores.Nodup)
    (hfound : SstCpCandidates host p numExclusive numShared high middle low exclusive shared infra)
    (he : Candidates p exclusive) (hs : Candidates p shared) (hi : Candidates p infra)
    (hne : low ≠ high ∧ low ≠ middle) (hsome : ∃ core ∈ p.cores, host.HasEpp core low) :
    ∃ pools, assignPools p exclusive shared infra numExclusive numShared "-1" noPools = .ok pools ∧
      SstCpAllocated host p numExclusive numShared high middle low pools := by
  obtain ⟨rfl, rfl, hhigh, hmiddle, hes, hinfra⟩ := hfound
  obtain ⟨core, hc, hv⟩ := hsome
  obtain ⟨pools, hassign, hpe, hps, hpi⟩ := assignPools_of_apart hp he hs hi hes
    (fun c hi he => hne.1 (((hinfra c).mp hi).2.unique (hhigh c he)))
    (fun c hi hs => hne.2 (((hinfra c).mp hi).2.unique (hmiddle c hs)))
    (List.ne_nil_of_mem ((hinfra core).mpr ⟨hc, hv⟩))
  refine ⟨pools, hassign, hpe.length_eq, hps.length_eq,
    fun core hc => hhigh core (hpe.mem_iff.mp hc), fun core hc => hmiddle core (hps.mem_iff.mp hc),
    fun core hc hc' => hes (hpe.mem_iff.mp hc) (hps.mem_iff.mp hc'), fun core hc hv => ?_⟩
  exact hpi.mem_iff.mpr ((hinfra core).mpr ⟨hc, hv⟩)

/-- **The allocation by EPP value succeeds** exactly when both pools are asked for a core. -/
theorem sstCp_succeeds_iff (host : Host) (numExclusive numShared : ℕ)
    (exclusiveMode sharedMode : String) (p : Platform) (sstBf : Bool) (order : List String)
    (high middle low : String) (hbf : host.hasLabel sstBfLabel = .ok sstBf)
    (hcp : host.hasLabel sstCpLabel = .ok true) (hdisc : host.discover sstBf = .ok p)
    (hids : (p.cores.map Core.coreId).Nodup)
    (hknown : ∀ core ∈ p.cores, ∃ v ∈ knownEpp, host.eppLine core.coreId = .ok v)
    (horder : host.getEppOrder p = .ok order)
    (hroles : eppRoles order = some (high, middle, low))
    (hcheck : checkSstCpIsolatedCores host p numExclusive numShared order = .ok ())
    (hisol : p.hasIsolatedCores = true)
    (hmany : numExclusive + numShared ≤ (p.cores.filter Core.isIsolated).length) :
    (∃ pools, configure host numExclusive numShared exclusiveMode sharedMode "-1" =
        .ok (p, pools) ∧ SstCpAllocated host p numExclusive numShared high middle low pools) ↔
      0 < numExclusive ∧ 0 < numShared := by
  have hp : p.cores.Nodup := hids.of_map
  have hread : ∀ core ∈ p.cores, IsOk (host.eppLine core.coreId) := fun core hc => by
    obtain ⟨v, -, hv⟩ := hknown core hc
    exact ⟨v, hv⟩
  have hisolated : checkIsolatedCores p numExclusive numShared = .ok () := by
    have hlen : (p.getIsolatedCores "packed").length = (p.cores.filter Core.isIsolated).length := by
      rw [Platform.getIsolatedCores, (perm_getCoresGeneral p "packed" true false).length_eq]
      simp
    rw [checkIsolatedCores, if_neg (by omega)]
  constructor
  · rintro ⟨pools, hconf, -⟩
    obtain ⟨_, sstCp, -, hcp', -, hplat⟩ := configure_eq_ok_iff.mp hconf
    obtain rfl := Except.ok.inj (hcp'.symm.trans hcp)
    obtain ⟨-, -, -, _, _, _, hcand, -⟩ := (configurePlatform_sstCp_eq_ok hisol horder).mp hplat
    exact pos_of_sstCpCandidates hcand
  · rintro ⟨he, hs⟩
    obtain ⟨hlow, hlen⟩ := low_mem_of_eppRoles hroles
    have hnd := nodup_getEppOrder horder
    obtain ⟨exclusive, shared, infra, hcand, hfound⟩ :=
      sstCpCandidates_of_pos hread hids hroles hnd hcheck he hs
    obtain ⟨hce, hcs, hci⟩ := Candidates.sstCp hp hcand
    obtain ⟨hv, core, hc, hline⟩ := (mem_getEppOrder horder).mp hlow
    obtain ⟨pools, hassign, hallocated⟩ := sstCpAllocated_of_candidates hp hfound hce hcs hci
      (low_ne_of_eppRoles hroles hnd) ⟨core, hc, low, hline, rstripText_of_mem_knownEpp hv⟩
    exact ⟨pools, configure_eq_ok_iff.mpr ⟨sstBf, true, hbf, hcp, hdisc,
      (configurePlatform_sstCp_eq_ok hisol horder).mpr
        ⟨hisolated, hlen, hcheck, exclusive, shared, infra, hcand, hassign⟩⟩, hallocated⟩

/-! ## Two cores of the higher value and one of the lower -/

/-- The first two cores, isolated, have the higher EPP value. -/
def twoHigh : Host := threeCores fun i => if i < 2 then "performance\n" else "power\n"

/-- The platform, as far as it matters. -/
theorem discover_twoHigh : ∃ p, twoHigh.discover false = .ok p ∧
    (p.cores.map Core.coreId).Nodup ∧
      (∀ core ∈ p.cores, ∃ v ∈ knownEpp, twoHigh.eppLine core.coreId = .ok v) ∧
        twoHigh.getEppOrder p = .ok ["performance", "power"] ∧ p.hasIsolatedCores = true ∧
          2 ≤ (p.cores.filter Core.isIsolated).length ∧
            checkSstCpIsolatedCores twoHigh p 1 1 ["performance", "power"] = .ok () ∧
              checkSstCpIsolatedCores twoHigh p 0 2 ["performance", "power"] = .ok () := by
  have hret : (twoHigh.discover false).toOption.any (fun p =>
      decide (p.cores.map Core.coreId).Nodup &&
        (decide (∀ core ∈ p.cores, ∃ v ∈ knownEpp, twoHigh.eppLine core.coreId = .ok v) &&
          (decide (twoHigh.getEppOrder p = .ok ["performance", "power"]) && (p.hasIsolatedCores &&
            (decide (2 ≤ (p.cores.filter Core.isIsolated).length) &&
              (decide (checkSstCpIsolatedCores twoHigh p 1 1 ["performance", "power"] = .ok ()) &&
                decide (checkSstCpIsolatedCores twoHigh p 0 2 ["performance", "power"] =
                  .ok ()))))))) = true := by decide
  cases h : twoHigh.discover false with
  | error err =>
    rw [h] at hret
    nomatch hret
  | ok p =>
    rw [h] at hret
    simp only [Except.toOption, Option.any_some, Bool.and_eq_true, decide_eq_true_eq] at hret
    exact ⟨p, rfl, hret⟩

theorem sstCp_succeeds_twoHigh : ∃ p,
    (∃ pools, configure twoHigh 1 1 "packed" "packed" "-1" = .ok (p, pools) ∧
        SstCpAllocated twoHigh p 1 1 "performance" "performance" "power" pools) ↔
      0 < 1 ∧ 0 < 1 := by
  obtain ⟨p, hdisc, hids, hknown, horder, hisol, hmany, hcheck, -⟩ := discover_twoHigh
  exact ⟨p, sstCp_succeeds_iff twoHigh 1 1 "packed" "packed" p false ["performance", "power"]
    "performance" "performance" "power" (by decide) (by decide) hdisc hids hknown horder rfl hcheck
    hisol hmany⟩

/-- No exclusive core and two shared ones pass the check, but the search for the former returns
`None`. -/
theorem no_exclusive_core_fails : ∃ p, twoHigh.discover false = .ok p ∧
    (p.cores.map Core.coreId).Nodup ∧
      (∀ core ∈ p.cores, ∃ v ∈ knownEpp, twoHigh.eppLine core.coreId = .ok v) ∧
        twoHigh.getEppOrder p = .ok ["performance", "power"] ∧ p.hasIsolatedCores = true ∧
          0 + 2 ≤ (p.cores.filter Core.isIsolated).length ∧
            checkSstCpIsolatedCores twoHigh p 0 2 ["performance", "power"] = .ok () ∧
              ¬ ∃ pools, configure twoHigh 0 2 "packed" "packed" "-1" = .ok (p, pools) := by
  obtain ⟨p, hdisc, hids, hknown, horder, hisol, hmany, -, hcheck⟩ := discover_twoHigh
  have hret : (configure twoHigh 0 2 "packed" "packed" "-1").toOption.isSome = false := by decide
  refine ⟨p, hdisc, hids, hknown, horder, hisol, hmany, hcheck, ?_⟩
  rintro ⟨pools, h⟩
  rw [h] at hret
  nomatch hret

end Cmk
