import Cmk.Init.Configure

/-!
# Init/Isolated — which cores end up in the isolated pools

The candidates of the branch with SST-CP are chosen by EPP value alone, those of the other two are
filtered by `isolcpus`.  So on a platform with isolated cores the pools `exclusive` and `shared` get
isolated cores only, and the other two none, exactly when the node has no SST-CP or its EPP values
split the cores as `isolcpus` does (`isolated_to_isolated_iff`).
-/

open Machinery Machinery.Deal Cmk.Topology

namespace Cmk

/-- Only isolated cores in the pools for them, and none of them in the others. -/
structure IsolatedToIsolated (p : Platform) (pools : Pools) : Prop where
  isolated : ∀ core ∈ p.cores,
    pools core = some "exclusive" ∨ pools core = some "shared" → core.isIsolated = true
  others : ∀ core ∈ p.cores, core.isIsolated = true →
    pools core ≠ some "infra" ∧ pools core ≠ some "exclusive-non-isolcpus"

/-- The EPP value of a core, as it is compared. -/
def Host.HasEpp (host : Host) (core : Core) (eppValue : String) : Prop :=
  ∃ line, host.eppLine core.coreId = .ok line ∧ rstripText line = eppValue

/-- Every core with an EPP value but the lowest is isolated, and none with the lowest. -/
def EppSplit (host : Host) (p : Platform) : Prop :=
  ∀ order, host.getEppOrder p = .ok order → ∀ core ∈ p.cores,
    (∀ v ∈ order.dropLast, host.HasEpp core v → core.isIsolated = true) ∧
      ∀ v ∈ order.getLast?, host.HasEpp core v → core.isIsolated = false

/-! ## What a deal changes -/

/-- Whoever is in a pool stays there, and those who get into one are candidates. -/
structure Deals (cores : List Core) (pool : String) (pools pools' : Pools) : Prop where
  keeps : ∀ core v, pools core = some v → pools' core = some v
  only : ∀ core v, pools' core = some v → pools core = some v ∨ v = pool ∧ core ∈ cores

variable {host : Host} {p : Platform} {cores chosen exclusive shared infra : List Core}
  {pools pools' : Pools} {pool exclNonIsolcpus : String} {numExclusive numShared : ℤ}

theorem deals_mark (h : ∀ core ∈ chosen, core ∈ cores ∧ pools core = none) :
    Deals cores pool pools (mark pools chosen pool) := by
  refine ⟨fun core v hv => ?_, fun core v hv => ?_⟩
  · have hno : core ∉ chosen := fun hc => by simp [(h core hc).2] at hv
    rwa [mark, if_neg hno]
  · rw [mark] at hv
    split at hv
    · rename_i hc
      exact .inr ⟨(Option.some.inj hv).symm, (h core hc).1⟩
    · exact .inl hv

theorem deals_assign {count : Option ℤ} (hnd : cores.Nodup)
    (h : assign cores pool count pools = .ok pools') : Deals cores pool pools pools' := by
  obtain ⟨chosen, rfl, -, hfree, -⟩ := assign_ok hnd h
  exact deals_mark hfree

theorem deals_checkExclNonIsolcpus (h : checkExclNonIsolcpus exclNonIsolcpus p pools = .ok pools') :
    Deals (p.cores.filter fun core => !core.isIsolated) "exclusive-non-isolcpus" pools pools' := by
  unfold checkExclNonIsolcpus at h
  split at h
  · obtain rfl := Except.ok.inj h
    exact ⟨fun _ _ hv => hv, fun _ _ hv => .inl hv⟩
  · split at h
    · nomatch h
    · obtain ⟨cpus, -, h⟩ := bind_eq_ok.mp h
      obtain ⟨rfl, hfree⟩ := assignExclNonIsolcpus_ok h
      refine deals_mark fun core hc => ?_
      obtain ⟨hc, hlisted⟩ := List.mem_filter.mp hc
      obtain ⟨hnone, hisol⟩ := hfree core hc (of_decide_eq_true hlisted)
      exact ⟨List.mem_filter.mpr ⟨(perm_getCores p _).mem_iff.mp hc, by rw [hisol]; rfl⟩, hnone⟩

/-- If as many are asked for as there are, all get the pool. -/
theorem assign_all (hnd : cores.Nodup)
    (h : assign cores pool (some (cores.length : ℤ)) pools = .ok pools') {core : Core}
    (hc : core ∈ cores) : pools' core = some pool := by
  obtain ⟨chosen, rfl, hchosen, hfree, hlen, -⟩ := assign_ok hnd h
  have hsub : chosen.Subperm cores := hchosen.subperm fun c hc => (hfree c hc).1
  have hperm := hsub.perm_of_length_le (hlen _ rfl).ge
  rw [mark, if_pos (hperm.mem_iff.mpr hc)]

/-- Without a count, no candidate is left over. -/
theorem assign_rest (hnd : cores.Nodup) (h : assign cores pool none pools = .ok pools')
    {core : Core} (hc : core ∈ cores) : pools' core ≠ none := by
  obtain ⟨chosen, rfl, -, -, -, hall, -⟩ := assign_ok hnd h
  rw [mark]
  split
  · simp
  · rename_i hno
    exact fun hnone => hno (hall rfl core hc hnone)

/-- **Where the cores of a pool come from.** -/
structure Origin (p : Platform) (exclusive shared infra : List Core) (pools : Pools) : Prop where
  exclusive : ∀ core, pools core = some "exclusive" → core ∈ exclusive
  shared : ∀ core, pools core = some "shared" → core ∈ shared
  listed : ∀ core, pools core = some "exclusive-non-isolcpus" → core.isIsolated = false
  infra : ∀ core, pools core = some "infra" → core ∈ infra
  named : ∀ core v, pools core = some v →
    v ∈ ["exclusive", "shared", "exclusive-non-isolcpus", "infra"]

theorem origin_assignPools (he : exclusive.Nodup) (hs : shared.Nodup) (hi : infra.Nodup)
    (h : assignPools p exclusive shared infra numExclusive numShared exclNonIsolcpus noPools =
      .ok pools) : Origin p exclusive shared infra pools := by
  obtain ⟨pools₁, h₁, h⟩ := bind_eq_ok.mp h
  obtain ⟨pools₂, h₂, h⟩ := bind_eq_ok.mp h
  obtain ⟨pools₃, h₃, h₄⟩ := bind_eq_ok.mp h
  have hfrom : ∀ core v, pools core = some v →
      v = "infra" ∧ core ∈ infra ∨ v = "exclusive-non-isolcpus" ∧ core.isIsolated = false ∨
        v = "shared" ∧ core ∈ shared ∨ v = "exclusive" ∧ core ∈ exclusive := by
    intro core v hv
    rcases (deals_assign hi h₄).only core v hv with hv | hv
    · rcases (deals_checkExclNonIsolcpus h₃).only core v hv with hv | ⟨hv, hc⟩
      · rcases (deals_assign hs h₂).only core v hv with hv | hv
        · rcases (deals_assign he h₁).only core v hv with hv | hv
          · nomatch hv
          · exact .inr (.inr (.inr hv))
        · exact .inr (.inr (.inl hv))
      · exact .inr (.inl ⟨hv, by simpa using (List.mem_filter.mp hc).2⟩)
    · exact .inl hv
  refine ⟨fun core hv => ?_, fun core hv => ?_, fun core hv => ?_, fun core hv => ?_,
    fun core v hv => ?_⟩
  · simpa using hfrom core _ hv
  · simpa using hfrom core _ hv
  · simpa using hfrom core _ hv
  · simpa using hfrom core _ hv
  · rcases hfrom core v hv with ⟨rfl, -⟩ | ⟨rfl, -⟩ | ⟨rfl, -⟩ | ⟨rfl, -⟩ <;> decide

/-- **When all candidates are asked for**, all of them get their pool, and no other is left over. -/
theorem assignPools_all (he : exclusive.Nodup) (hs : shared.Nodup) (hi : infra.Nodup)
    (h : assignPools p exclusive shared infra exclusive.length shared.length exclNonIsolcpus
      noPools = .ok pools) :
    (∀ core ∈ exclusive, pools core = some "exclusive") ∧
      (∀ core ∈ shared, pools core = some "shared") ∧ ∀ core ∈ infra, pools core ≠ none := by
  obtain ⟨pools₁, h₁, h⟩ := bind_eq_ok.mp h
  obtain ⟨pools₂, h₂, h⟩ := bind_eq_ok.mp h
  obtain ⟨pools₃, h₃, h₄⟩ := bind_eq_ok.mp h
  have hkeeps : ∀ core v, pools₂ core = some v → pools core = some v := fun core v hv =>
    (deals_assign hi h₄).keeps core v ((deals_checkExclNonIsolcpus h₃).keeps core v hv)
  refine ⟨fun core hc => ?_, fun core hc => ?_, fun core hc => assign_rest hi h₄ hc⟩
  · exact hkeeps core _ ((deals_assign hs h₂).keeps core _ (assign_all he h₁ hc))
  · exact hkeeps core _ (assign_all hs h₂ hc)

/-- With isolated candidates and no isolated core for `infra`. -/
theorem isolatedToIsolated_assignPools (he : exclusive.Nodup) (hs : shared.Nodup) (hi : infra.Nodup)
    (hisol : ∀ core, core ∈ exclusive ∨ core ∈ shared → core.isIsolated = true)
    (hnot : ∀ core ∈ infra, core.isIsolated = false)
    (h : assignPools p exclusive shared infra numExclusive numShared exclNonIsolcpus noPools =
      .ok pools) : IsolatedToIsolated p pools := by
  have horigin := origin_assignPools he hs hi h
  refine ⟨fun core _ hv => hisol core (hv.imp (horigin.exclusive core) (horigin.shared core)),
    fun core _ hyes => ⟨fun hv => ?_, fun hv => ?_⟩⟩
  · exact Bool.noConfusion (hyes.symm.trans (hnot core (horigin.infra core hv)))
  · exact Bool.noConfusion (hyes.symm.trans (horigin.listed core hv))

/-! ## Candidates by EPP value -/

/-- All cores of the value. -/
theorem mem_eppCoresNoLimit {eppValue : String} {result : List Core}
    (h : host.eppCoresNoLimit eppValue cores = .ok result) {core : Core} :
    core ∈ result ↔ core ∈ cores ∧ host.HasEpp core eppValue := by
  induction cores generalizing result with
  | nil =>
    obtain rfl := Except.ok.inj h
    simp
  | cons c cores ih =>
    obtain ⟨line, hline, h⟩ := bind_eq_ok.mp h
    obtain ⟨rest, hrest, h⟩ := bind_eq_ok.mp h
    obtain rfl := pure_eq_ok.mp h
    have hepp : host.HasEpp c eppValue ↔ rstripText line = eppValue := by
      simp [Host.HasEpp, hline]
    split
    · rename_i hv
      rw [List.mem_cons, List.mem_cons, ih hrest]
      constructor
      · rintro (rfl | ⟨hc, hv'⟩)
        · exact ⟨.inl rfl, hepp.mpr hv⟩
        · exact ⟨.inr hc, hv'⟩
      · rintro ⟨rfl | hc, hv'⟩
        · exact .inl rfl
        · exact .inr ⟨hc, hv'⟩
    · rename_i hv
      rw [ih hrest, List.mem_cons]
      constructor
      · rintro ⟨hc, hv'⟩
        exact ⟨.inr hc, hv'⟩
      · rintro ⟨rfl | hc, hv'⟩
        · exact absurd (hepp.mp hv') hv
        · exact ⟨hc, hv'⟩

/-- As many as required, of the value and not among the unavailable ones. -/
theorem eppCores_spec {eppValue : String} {n : ℤ} {unavailable : List ℤ} {found result : List Core}
    (h : host.eppCores eppValue n unavailable found cores = .ok (some result)) :
    (result.length : ℤ) = n ∧ ∀ core ∈ result,
      core ∈ found ∨ core ∈ cores ∧ host.HasEpp core eppValue ∧ core.coreId ∉ unavailable := by
  induction cores generalizing found with
  | nil => cases h
  | cons c cores ih =>
    rw [Host.eppCores] at h
    split at h
    · obtain ⟨hlen, hmem⟩ := ih h
      exact ⟨hlen, fun core hc => (hmem core hc).imp_right (And.imp_left (.tail c))⟩
    · rename_i hfree
      obtain ⟨line, hline, h⟩ := bind_eq_ok.mp h
      split at h
      · rename_i hv
        have hnew : ∀ core ∈ found ++ [c], core ∈ found ∨
            core ∈ c :: cores ∧ host.HasEpp core eppValue ∧ core.coreId ∉ unavailable := by
          intro core hc
          rcases List.mem_append.mp hc with hc | hc
          · exact .inl hc
          · obtain rfl := List.mem_singleton.mp hc
            exact .inr ⟨.head cores, ⟨line, hline, hv⟩, hfree⟩
        split at h
        · rename_i hlen
          obtain rfl := Option.some.inj (pure_eq_ok.mp h)
          exact ⟨by simpa using hlen, hnew⟩
        · obtain ⟨hlen, hmem⟩ := ih h
          refine ⟨hlen, fun core hc => ?_⟩
          rcases hmem core hc with hc | ⟨hin, hrest⟩
          · exact hnew core hc
          · exact .inr ⟨.tail c hin, hrest⟩
      · obtain ⟨hlen, hmem⟩ := ih h
        exact ⟨hlen, fun core hc => (hmem core hc).imp_right (And.imp_left (.tail c))⟩

/-- The candidates are all cores of the values but the lowest, and all cores of the lowest. -/
structure ByEpp (host : Host) (p : Platform) (order : List String)
    (exclusive shared infra : List Core) : Prop where
  upper : ∀ core, core ∈ exclusive ∨ core ∈ shared ↔
    core ∈ p.cores ∧ ∃ v ∈ order.dropLast, host.HasEpp core v
  lowest : ∀ core, core ∈ infra ↔ core ∈ p.cores ∧ ∃ v ∈ order.getLast?, host.HasEpp core v

/-- As many cores of a list as it has. -/
theorem mem_of_length_eq {xs ys : List Core} (hxs : xs.Nodup) (hsub : ∀ c ∈ xs, c ∈ ys)
    (hlen : xs.length = ys.length) {c : Core} : c ∈ xs ↔ c ∈ ys :=
  ((hxs.subperm hsub).perm_of_length_le hlen.ge).mem_iff

/-- As many cores of a value as there are of it. -/
theorem mem_getEppCores (hp : p.cores.Nodup) {eppValue : String} {n : ℤ} {chosen all : List Core}
    (h : host.getEppCores p eppValue n [] = .ok (some chosen))
    (hall : host.getEppCoresNoLimit p eppValue = .ok all) (hn : n = all.length) {core : Core} :
    core ∈ chosen ↔ core ∈ p.cores ∧ host.HasEpp core eppValue := by
  obtain ⟨hlen, hin⟩ := eppCores_spec h
  rw [← mem_eppCoresNoLimit hall]
  refine mem_of_length_eq (hp.sublist (eppCores_sublist h)) (fun c hc => ?_) (by omega)
  obtain ⟨hc, hv, -⟩ := (hin c hc).resolve_left List.not_mem_nil
  exact (mem_eppCoresNoLimit hall).mpr ⟨hc, hv⟩

/-- As many cores of a value in two rounds, the second without the ids of the first, as there are.
-/
theorem mem_getEppCores_twice (hp : p.cores.Nodup) {eppValue : String} {n n' : ℤ}
    {chosen chosen' all : List Core} (h : host.getEppCores p eppValue n [] = .ok (some chosen))
    (h' : host.getEppCores p eppValue n' chosen = .ok (some chosen'))
    (hall : host.getEppCoresNoLimit p eppValue = .ok all) (hn : n + n' = all.length) {core : Core} :
    core ∈ chosen ∨ core ∈ chosen' ↔ core ∈ p.cores ∧ host.HasEpp core eppValue := by
  obtain ⟨hlen, hin⟩ := eppCores_spec h
  obtain ⟨hlen', hin'⟩ := eppCores_spec h'
  have hapart : chosen.Disjoint chosen' := fun c hc hc' =>
    ((hin' c hc').resolve_left List.not_mem_nil).2.2 (List.mem_map_of_mem hc)
  have hnd : (chosen ++ chosen').Nodup :=
    (hp.sublist (eppCores_sublist h)).append (hp.sublist (eppCores_sublist h')) hapart
  rw [← List.mem_append, ← mem_eppCoresNoLimit hall]
  refine mem_of_length_eq hnd (fun c hc => ?_) (by rw [List.length_append]; omega)
  refine (mem_eppCoresNoLimit hall).mpr ?_
  rcases List.mem_append.mp hc with hc | hc
  · exact ((hin c hc).resolve_left List.not_mem_nil).imp_right And.left
  · exact ((hin' c hc).resolve_left List.not_mem_nil).imp_right And.left

/-- **With SST-CP**, the check on the counts leaves no core of the upper values out. -/
theorem byEpp_sstCpCandidates (hp : p.cores.Nodup) {order : List String}
    (hcheck : checkSstCpIsolatedCores host p numExclusive numShared order = .ok ())
    (h : sstCpCandidates host p numExclusive numShared order = .ok (exclusive, shared, infra)) :
    ByEpp host p order exclusive shared infra ∧ (exclusive.length : ℤ) = numExclusive ∧
      (shared.length : ℤ) = numShared := by
  rcases sstCpCandidates_ok h with
    ⟨high, middle, low, rfl, he, hs, hi⟩ | ⟨high, low, rfl, he, hs, hi⟩
  · obtain ⟨hlen, -⟩ := eppCores_spec he
    obtain ⟨hlen', -⟩ := eppCores_spec hs
    obtain ⟨all, hall, hcheck⟩ := bind_eq_ok.mp hcheck
    obtain ⟨all', hall', hcheck⟩ := bind_eq_ok.mp hcheck
    obtain ⟨hcount, hcount'⟩ : numExclusive = all.length ∧ numShared = all'.length := by
      by_contra hno
      rw [if_pos (by omega)] at hcheck
      nomatch hcheck
    refine ⟨⟨fun core => ?_, fun core => ?_⟩, hlen, hlen'⟩
    · rw [mem_getEppCores hp he hall hcount, mem_getEppCores hp hs hall' hcount']
      simp [and_or_left]
    · rw [mem_eppCoresNoLimit hi]
      simp
  · obtain ⟨hlen, -⟩ := eppCores_spec he
    obtain ⟨hlen', -⟩ := eppCores_spec hs
    obtain ⟨all, hall, hcheck⟩ := bind_eq_ok.mp hcheck
    have hcount : numExclusive + numShared = all.length := by
      by_contra hno
      rw [if_pos (Ne.symm hno)] at hcheck
      nomatch hcheck
    refine ⟨⟨fun core => ?_, fun core => ?_⟩, hlen, hlen'⟩
    · rw [mem_getEppCores_twice hp he hs hall hcount]
      simp
    · rw [mem_eppCoresNoLimit hi]
      simp

theorem nodup_getEppOrder {order : List String} (h : host.getEppOrder p = .ok order) :
    order.Nodup := by
  obtain ⟨present, -, h⟩ := bind_eq_ok.mp h
  obtain rfl := pure_eq_ok.mp h
  exact .filter _ (by decide)

theorem Host.HasEpp.unique {core : Core} {v w : String} (hv : host.HasEpp core v)
    (hw : host.HasEpp core w) : v = w := by
  obtain ⟨line, hline, rfl⟩ := hv
  obtain ⟨line', hline', rfl⟩ := hw
  rw [Except.ok.inj (hline.symm.trans hline')]

/-- A core of the lowest value is not among the other candidates. -/
theorem ByEpp.not_upper {order : List String} (h : ByEpp host p order exclusive shared infra)
    (hnd : order.Nodup) {core : Core} {v : String} (hv : v ∈ order.getLast?)
    (hepp : host.HasEpp core v) : ¬ (core ∈ exclusive ∨ core ∈ shared) := by
  intro hin
  obtain ⟨-, w, hw, hepp'⟩ := (h.upper core).mp hin
  obtain rfl := hepp.unique hepp'
  have hne : order ≠ [] := List.ne_nil_of_mem (List.mem_of_mem_dropLast hw)
  rw [← List.dropLast_append_getLast hne] at hnd
  have hlast : v = order.getLast hne := by
    rw [List.getLast?_eq_some_getLast hne] at hv
    exact (Option.some.inj hv).symm
  exact List.disjoint_of_nodup_append hnd hw (by simp [hlast])

/-! ## Which branches keep to the rule -/

/-- **The branch with SST-CP** keeps to it exactly when the EPP values do. -/
theorem isolatedToIsolated_iff_eppSplit (hp : p.cores.Nodup) {order : List String}
    (horder : host.getEppOrder p = .ok order)
    (hcheck : checkSstCpIsolatedCores host p numExclusive numShared order = .ok ())
    (hcand : sstCpCandidates host p numExclusive numShared order = .ok (exclusive, shared, infra))
    (h : assignPools p exclusive shared infra numExclusive numShared exclNonIsolcpus noPools =
      .ok pools) : IsolatedToIsolated p pools ↔ EppSplit host p := by
  obtain ⟨hby, rfl, rfl⟩ := byEpp_sstCpCandidates hp hcheck hcand
  obtain ⟨⟨he, -⟩, ⟨hs, -⟩, hi, -⟩ := Candidates.sstCp hp hcand
  constructor
  · intro hok order' horder' core hc
    obtain rfl := Except.ok.inj (horder.symm.trans horder')
    obtain ⟨halle, halls, halli⟩ := assignPools_all he hs hi h
    have horigin := origin_assignPools he hs hi h
    refine ⟨fun v hv hepp => ?_, fun v hv hepp => ?_⟩
    · refine hok.isolated core hc ?_
      exact ((hby.upper core).mpr ⟨hc, v, hv, hepp⟩).imp (halle core) (halls core)
    · -- It gets a pool as a candidate for `infra`, and the other two are out of its reach.
      by_contra hyes
      obtain ⟨hinfra, hlisted⟩ := hok.others core hc (by simpa using hyes)
      have hnot := hby.not_upper (nodup_getEppOrder horder) hv hepp
      obtain ⟨w, hw⟩ := Option.ne_none_iff_exists'.mp
        (halli core ((hby.lowest core).mpr ⟨hc, v, hv, hepp⟩))
      have hname := horigin.named core w hw
      simp only [List.mem_cons, List.not_mem_nil, or_false] at hname
      rcases hname with rfl | rfl | rfl | rfl
      · exact hnot (.inl (horigin.exclusive core hw))
      · exact hnot (.inr (horigin.shared core hw))
      · exact hlisted hw
      · exact hinfra hw
  · intro hsplit
    refine isolatedToIsolated_assignPools he hs hi (fun core hc => ?_) (fun core hc => ?_) h
    · obtain ⟨hc, v, hv, hepp⟩ := (hby.upper core).mp hc
      exact (hsplit order horder core hc).1 v hv hepp
    · obtain ⟨hc, v, hv, hepp⟩ := (hby.lowest core).mp hc
      exact (hsplit order horder core hc).2 v hv hepp

/-- **The branches without** always do, whatever SST-BF says of the exclusive candidates. -/
theorem isolatedToIsolated_of_general (hp : p.cores.Nodup) {exclusiveMode sharedMode : String}
    {sstBf : Bool} (h : assignPools p (p.getCoresGeneral exclusiveMode true sstBf)
      (p.getIsolatedCores sharedMode) p.getSharedCores numExclusive numShared exclNonIsolcpus
        noPools = .ok pools) : IsolatedToIsolated p pools := by
  have hisol : ∀ {mode sstBf core}, core ∈ p.getCoresGeneral mode true sstBf →
      core.isIsolated = true := fun {mode sstBf core} hc => by
    have hkind := (List.mem_filter.mp ((perm_getCoresGeneral p mode true sstBf).mem_iff.mp hc)).2
    exact (Bool.and_eq_true_iff.mp hkind).1
  refine isolatedToIsolated_assignPools (Candidates.general hp _ _ _).1
    (Candidates.general hp _ _ _).1 (Candidates.getSharedCores hp).1
    (fun core hc => hc.elim hisol hisol) (fun core hc => ?_) h
  rw [getSharedCores_eq] at hc
  simpa using (List.mem_filter.mp hc).2

/-- **Isolated cores go to the isolated pools** exactly when the node has no SST-CP or its EPP
values split the cores as `isolcpus` does. -/
theorem isolated_to_isolated_iff {exclusiveMode sharedMode : String}
    (h : configure host numExclusive numShared exclusiveMode sharedMode exclNonIsolcpus =
      .ok (p, pools)) (hisol : p.hasIsolatedCores = true) :
    IsolatedToIsolated p pools ↔ (host.hasLabel sstCpLabel = .ok true → EppSplit host p) := by
  obtain ⟨sstBf, sstCp, hcp, hdisc, hconf⟩ := configure_eq_ok h
  obtain ⟨lscpuOutput, isol, sstBfCpus, -, hparse⟩ := parse_of_discover hdisc
  obtain ⟨rs, -, hbuilt⟩ := built_of_parse hparse
  have hp := nodup_cores_of_placed hbuilt.placed
  obtain ⟨-, -, h⟩ := bind_eq_ok.mp hconf
  rw [hcp, hisol, Except.ok.injEq] at *
  cases sstCp with
  | true =>
    rw [Bool.and_self, if_pos rfl] at h
    obtain ⟨order, horder, h⟩ := bind_eq_ok.mp h
    split at h
    · nomatch h
    · obtain ⟨⟨⟩, hcheck, h⟩ := bind_eq_ok.mp h
      obtain ⟨⟨exclusive, shared, infra⟩, hcand, h⟩ := bind_eq_ok.mp h
      rw [isolatedToIsolated_iff_eppSplit hp horder hcheck hcand h]
      simp
  | false =>
    refine iff_of_true ?_ fun hno => nomatch hno
    rw [Bool.false_and, if_neg Bool.false_ne_true] at h
    split at h
    · exact isolatedToIsolated_of_general hp h
    · exact isolatedToIsolated_of_general hp h

/-- One socket with three cores, the first two isolated, and SST-CP. -/
def threeCores (epp : ℤ → String) : Host where
  nodeLabel key := if key = sstCpLabel then .ok "true" else .error (.keyError none)
  cmdline := .ok "quiet isolcpus=0-1 nosmt"
  sstBfCpus := .ok []
  lscpu := .ok "# CPU,Core,Socket\n0,0,0\n1,1,0\n2,2,0\n"
  epp coreId := .ok (epp coreId)

theorem isolated_to_isolated_threeCores : ∃ p pools, p.hasIsolatedCores = true ∧
    (IsolatedToIsolated p pools ↔
      ((threeCores fun i => if i < 2 then "performance\n" else "power\n").hasLabel sstCpLabel =
        .ok true →
          EppSplit (threeCores fun i => if i < 2 then "performance\n" else "power\n") p)) := by
  have hret : ((configure (threeCores fun i => if i < 2 then "performance\n" else "power\n") 1 1
      "packed" "packed" "-1").toOption.any fun result => result.1.hasIsolatedCores) = true := by
    decide
  cases h : configure (threeCores fun i => if i < 2 then "performance\n" else "power\n") 1 1
      "packed" "packed" "-1" with
  | error err =>
    rw [h] at hret
    nomatch hret
  | ok result =>
    rw [h] at hret
    exact ⟨result.1, result.2, hret, isolated_to_isolated_iff h hret⟩

/-- The isolated core with the lowest EPP value becomes an `infra` core. -/
theorem isolated_core_in_infra : ¬ ∀ p pools,
    configure (threeCores fun i => if i = 1 then "power\n" else "performance\n") 1 1
      "packed" "packed" "-1" = .ok (p, pools) → p.hasIsolatedCores = true →
        IsolatedToIsolated p pools := by
  intro hall
  have hret : ((configure (threeCores fun i => if i = 1 then "power\n" else "performance\n") 1 1
      "packed" "packed" "-1").toOption.any fun result => result.1.hasIsolatedCores &&
        result.1.cores.any fun c => c.isIsolated && result.2 c = some "infra") = true := by decide
  cases h : configure (threeCores fun i => if i = 1 then "power\n" else "performance\n") 1 1
      "packed" "packed" "-1" with
  | error err =>
    rw [h] at hret
    nomatch hret
  | ok result =>
    rw [h] at hret
    obtain ⟨hisol, hinfra⟩ := Bool.and_eq_true_iff.mp hret
    obtain ⟨c, hc, hboth⟩ := List.any_eq_true.mp hinfra
    obtain ⟨hyes, hpool⟩ := Bool.and_eq_true_iff.mp hboth
    exact ((hall _ _ h hisol).others c hc hyes).1 (of_decide_eq_true hpool)

end Cmk
