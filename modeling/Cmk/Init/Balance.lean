import Cmk.Init.Shares
import Cmk.Machinery.Share
import Cmk.Topology.Spread

/-!
# Init/Balance — how even the pools of a node with several sockets are

In mode `spread` both pools are shares of one round robin over the sockets, the shared pool with the
exclusive cores left out.  So the exclusive pool is balanced, and so is the shared one if the mode
of the other is `spread` too.  A packed exclusive pool takes whole sockets first; then the shared
pool is balanced exactly when it is not of one of the sizes `Uneven` describes
(`configure_balanced_iff`).
-/

open Machinery Machinery.Deal Cmk.Topology

namespace Cmk

/-- The candidates on a socket: its isolated cores if the platform has any, else all of them. -/
def candidates (p : Platform) (s : Topology.Socket) : List Core := s.select p.hasIsolatedCores false

/-- The numbers of candidates, socket by socket. -/
def sizes (p : Platform) : List ℕ := p.sockets.rows.map fun s => (candidates p s).length

/-- Two sockets differ by more than one core of a pool only if the one with fewer has no candidate
outside the pools filled by then. -/
def Balanced (p : Platform) (pools : Pools) (pool : String) (filled : List String) : Prop :=
  ∀ s ∈ p.sockets.rows, ∀ s' ∈ p.sockets.rows,
    (holders pools s.cores.rows pool).length + 1 < (holders pools s'.cores.rows pool).length →
      ∀ core ∈ candidates p s, ∃ v ∈ filled, pools core = some v

instance (p : Platform) (pools : Pools) (pool : String) (filled : List String) :
    Decidable (Balanced p pools pool filled) := by
  unfold Balanced
  infer_instance

/-- How much of socket `i` a packed pool of `n` cores takes, if the socket has that much. -/
def packedTaken (sizes : List ℕ) (n i : ℕ) : ℕ := n - (sizes.take i).sum

/-! ## The two shares -/

variable {p : Platform} {cores exclusive : List Core} {pools : Pools} {pool : String}
  {numExclusive numShared : ℕ}

theorem freeCores_eq (hbf : ∀ core ∈ cores, core.isSstBf = false) :
    freeCores pools cores = cores.filter fun core => pools core = none := by
  refine List.Pairwise.insertionSort_eq (List.pairwise_of_forall_mem_list fun c hc c' hc' => ?_)
  have hkey : ∀ c ∈ free pools cores, sortKey c = 0 := fun c hc => by
    rw [sortKey, hbf c (List.mem_of_mem_filter hc)]
    rfl
  rw [hkey c hc, hkey c' hc']

theorem exclusiveShare_eq (hbf : ∀ core ∈ cores, core.isSstBf = false) :
    exclusiveShare cores numExclusive = cores.take numExclusive := by
  have hall : (cores.filter fun core => noPools core = none) = cores :=
    List.filter_eq_self.mpr fun core _ => by simp [noPools]
  rw [exclusiveShare, freeCores_eq hbf, hall]

theorem sharedShare_eq (hbf : ∀ core ∈ cores, core.isSstBf = false) :
    sharedShare exclusive cores numExclusive numShared =
      (cores.filter fun core => core ∉ exclusiveShare exclusive numExclusive).take numShared := by
  rw [sharedShare, freeCores_eq hbf]
  refine congrArg (List.take numShared) (List.filter_congr fun core _ => ?_)
  rw [mark]
  split <;> simp_all [noPools]

variable (hplaced : ∀ s ∈ p.sockets.rows, ∀ core ∈ s.cores.rows, core.socketId = s.socketId)

include hplaced

theorem ranked_candidates :
    Ranked (p.rankOf p.hasIsolatedCores false) p.rowOf 0 (p.sockets.rows.map (candidates p)) :=
  ranked_select hplaced p.hasIsolatedCores false

theorem rowOf_candidates (i : ℕ) (r : List Core)
    (hget : (p.sockets.rows.map (candidates p))[i]? = some r) : ∀ core ∈ r, p.rowOf core = i := by
  intro core hc
  obtain ⟨s, hs, rfl⟩ := Option.map_eq_some_iff.mp ((List.getElem?_map ..).symm.trans hget)
  obtain ⟨hi, rfl⟩ := List.getElem?_eq_some_iff.mp hs
  have hidx := p.sockets.nodup.idxOf_getElem i (by simpa using hi)
  rw [List.getElem_map] at hidx
  rw [Platform.rowOf, socketId_of_mem_select hplaced _ _ (List.getElem_mem hi) hc]
  exact hidx

omit hplaced

/-- **Balance, said of the cores a pool has.** -/
theorem balanced_iff {filled : List String} {taken has : List Core}
    (hhas : ∀ core, pools core = some pool ↔ core ∈ has)
    (hkind : ∀ core ∈ has, ∃ s ∈ p.sockets.rows, core ∈ candidates p s)
    (hfilled : ∀ core, (∃ v ∈ filled, pools core = some v) ↔ core ∈ taken ∨ core ∈ has) :
    Balanced p pools pool filled ↔ ¬ ∃ r ∈ p.sockets.rows.map (candidates p),
      ∃ r' ∈ p.sockets.rows.map (candidates p),
        r.countP (fun core => core ∈ has) + 1 < r'.countP (fun core => core ∈ has) ∧
          ∃ core ∈ r, core ∉ taken ∧ core ∉ has := by
  have hcount : ∀ s : Topology.Socket, (holders pools s.cores.rows pool).length =
      (candidates p s).countP fun core => core ∈ has := by
    intro s
    rw [holders, candidates, select_eq_filter, List.countP_filter, ← List.countP_eq_length_filter]
    refine List.countP_congr fun core hc => ?_
    simp only [decide_eq_true_eq, Bool.and_eq_true, hhas]
    refine ⟨fun hin => ⟨hin, ?_⟩, fun hin => hin.1⟩
    obtain ⟨s', -, hc'⟩ := hkind core hin
    rw [candidates, select_eq_filter] at hc'
    simpa using (List.mem_filter.mp hc').2
  constructor
  · rintro hbal ⟨r, hr, r', hr', hlt, core, hc, hfree, hnot⟩
    obtain ⟨s, hs, rfl⟩ := List.mem_map.mp hr
    obtain ⟨s', hs', rfl⟩ := List.mem_map.mp hr'
    rw [← hcount, ← hcount] at hlt
    exact ((hfilled core).mp (hbal s hs s' hs' hlt core hc)).elim hfree hnot
  · intro hno s hs s' hs' hlt core hc
    rw [hcount, hcount] at hlt
    by_contra hnone
    rw [hfilled, not_or] at hnone
    exact hno ⟨_, List.mem_map_of_mem hs, _, List.mem_map_of_mem hs', hlt, core, hc, hnone⟩

/-! ## Which sizes are balanced -/

theorem allocateSpread_eq (p : Platform) : p.allocateSpread p.hasIsolatedCores false =
    roundRobin (p.sockets.rows.map (candidates p)) := rfl

theorem allocatePacked_eq (p : Platform) : p.allocatePacked p.hasIsolatedCores false =
    (p.sockets.rows.map (candidates p)).flatten := List.flatMap_def ..

theorem exists_candidates {core : Core}
    (h : core ∈ roundRobin (p.sockets.rows.map (candidates p))) :
    ∃ s ∈ p.sockets.rows, core ∈ candidates p s := by
  obtain ⟨r, hr, hc⟩ := mem_roundRobin.mp h
  obtain ⟨s, hs, rfl⟩ := List.mem_map.mp hr
  exact ⟨s, hs, hc⟩

theorem mem_candidates {s : Topology.Socket} {core : Core} (h : core ∈ candidates p s) :
    core ∈ s.cores.rows := mem_select _ _ h

section Cases

variable {shared : List Core}
  (hplaced : ∀ s ∈ p.sockets.rows, ∀ core ∈ s.cores.rows, core.socketId = s.socketId)
  (hbf : ∀ core ∈ p.cores, core.isSstBf = false)

include hbf

theorem sstBf_allocateSpread {core : Core}
    (h : core ∈ p.allocateSpread p.hasIsolatedCores false) : core.isSstBf = false := by
  obtain ⟨s, hs, hc⟩ := exists_candidates h
  exact hbf core (mem_cores.mpr ⟨s, hs, mem_candidates hc⟩)

theorem exclusiveShare_spread :
    exclusiveShare (p.allocateSpread p.hasIsolatedCores false) numExclusive =
      share (p.sockets.rows.map (candidates p)) [] numExclusive := by
  have hall : (roundRobin (p.sockets.rows.map (candidates p))).filter (fun core => core ∉
      ([] : List Core)) = roundRobin (p.sockets.rows.map (candidates p)) :=
    List.filter_eq_self.mpr fun _ _ => by simp
  rw [exclusiveShare_eq fun _ hc => sstBf_allocateSpread hbf hc, share, hall]
  rfl

theorem sharedShare_spread :
    sharedShare exclusive (p.allocateSpread p.hasIsolatedCores false) numExclusive numShared =
      share (p.sockets.rows.map (candidates p)) (exclusiveShare exclusive numExclusive)
        numShared :=
  sharedShare_eq fun _ hc => sstBf_allocateSpread hbf hc

/-- The shared pool, by the shares. -/
theorem balanced_shared_iff (h : Held exclusive (p.allocateSpread p.hasIsolatedCores false)
    numExclusive numShared pools) : Balanced p pools "shared" ["exclusive", "shared"] ↔
    ¬ ∃ r ∈ p.sockets.rows.map (candidates p), ∃ r' ∈ p.sockets.rows.map (candidates p),
      r.countP (fun core => core ∈ share (p.sockets.rows.map (candidates p))
          (exclusiveShare exclusive numExclusive) numShared) + 1 <
        r'.countP (fun core => core ∈ share (p.sockets.rows.map (candidates p))
          (exclusiveShare exclusive numExclusive) numShared) ∧
      ∃ core ∈ r, core ∉ exclusiveShare exclusive numExclusive ∧
        core ∉ share (p.sockets.rows.map (candidates p))
          (exclusiveShare exclusive numExclusive) numShared := by
  refine balanced_iff (fun core => ?_) (fun core hc => ?_) fun core => ?_
  · rw [h.shared_iff, sharedShare_spread hbf]
  · exact exists_candidates (List.mem_of_mem_filter (List.mem_of_mem_take hc))
  · rw [← sharedShare_spread hbf, ← h.exclusive_iff, ← h.shared_iff]
    simp

include hplaced

/-- **The exclusive pool** in mode `spread`. -/
theorem balanced_exclusive (h : Held (p.allocateSpread p.hasIsolatedCores false) shared
    numExclusive numShared pools) : Balanced p pools "exclusive" ["exclusive"] := by
  refine (@balanced_iff p pools "exclusive" ["exclusive"] []
    (share (p.sockets.rows.map (candidates p)) [] numExclusive) (fun core => ?_)
    (fun core hc => ?_) fun core => ?_).mpr ?_
  · rw [h.exclusive_iff, exclusiveShare_spread hbf]
  · exact exists_candidates (List.mem_of_mem_filter (List.mem_of_mem_take hc))
  · rw [← exclusiveShare_spread hbf, ← h.exclusive_iff]
    simp
  · rintro ⟨r, hr, r', hr', hlt, core, hc, -, hnot⟩
    exact hnot (fair_share (ranked_candidates hplaced) hr hr' hlt hc)

/-- **The shared pool** in mode `spread`, with the other in the same mode. -/
theorem balanced_shared_of_spread (h : Held (p.allocateSpread p.hasIsolatedCores false)
    (p.allocateSpread p.hasIsolatedCores false) numExclusive numShared pools) :
    Balanced p pools "shared" ["exclusive", "shared"] := by
  rw [balanced_shared_iff hbf h, exclusiveShare_spread hbf]
  rintro ⟨r, hr, r', hr', hlt, core, hc, hfree, hnot⟩
  exact (fair_share_share (ranked_candidates hplaced) hr hr' hlt hc).elim hfree hnot

/-- **The shared pool** in mode `spread`, with the other packed. -/
theorem balanced_shared_of_packed (h : Held (p.allocatePacked p.hasIsolatedCores false)
    (p.allocateSpread p.hasIsolatedCores false) numExclusive numShared pools) :
    Balanced p pools "shared" ["exclusive", "shared"] ↔
      ¬ Uneven (sizes p) (packedTaken (sizes p) numExclusive) numShared := by
  have hsizes : sizes p = (p.sockets.rows.map (candidates p)).map List.length :=
    (List.map_map ..).symm
  have hpacked : ∀ core ∈ p.allocatePacked p.hasIsolatedCores false, core.isSstBf = false := by
    intro core hc
    rw [allocatePacked_eq, ← (perm_roundRobin _).mem_iff, ← allocateSpread_eq] at hc
    exact sstBf_allocateSpread hbf hc
  rw [balanced_shared_iff hbf h, exclusiveShare_eq hpacked, allocatePacked_eq, hsizes]
  refine not_congr (exists_behind_iff (ranked_candidates hplaced) (rowOf_candidates hplaced)
    fun i r hget core hc => ?_)
  exact mem_take_flatten_iff (ranked_candidates hplaced) hget hc

end Cases

/-! ## The pools `configure` fills -/

variable {host : Host} {exclusiveMode sharedMode exclNonIsolcpus : String}

/-- Without SST-BF cores and without SST-CP, the candidates are those of `candidates`. -/
theorem held_configurePlatform {sstBf : Bool} (hp : p.cores.Nodup)
    (hbf : ∀ core ∈ p.cores, core.isSstBf = false)
    (h : configurePlatform host sstBf false p numExclusive numShared exclusiveMode sharedMode
      exclNonIsolcpus = .ok pools) :
    Held (p.getCoresGeneral exclusiveMode p.hasIsolatedCores false)
      (p.getCoresGeneral sharedMode p.hasIsolatedCores false) numExclusive numShared pools := by
  have hno : p.hasIsolatedSstBfCores = false := by
    refine List.any_eq_false.mpr fun s hs hany => ?_
    obtain ⟨core, hc, hboth⟩ := List.any_eq_true.mp hany
    rw [hbf core (mem_cores.mpr ⟨s, hs, hc⟩), Bool.false_and] at hboth
    nomatch hboth
  obtain ⟨-, -, h⟩ := bind_eq_ok.mp h
  rw [Bool.false_and, if_neg Bool.false_ne_true, hno, Bool.and_false,
    if_neg Bool.false_ne_true] at h
  cases hisol : p.hasIsolatedCores with
  | true =>
    rw [hisol, if_pos rfl] at h
    exact held_assignPools (Candidates.getSharedCores hp).1 h
  | false =>
    rw [hisol, if_neg Bool.false_ne_true] at h
    exact held_assignAll ((perm_getCores p _).nodup_iff.mpr hp) h

/-- **How balanced the pools are.**  On a node without SST-BF cores and without SST-CP the exclusive
pool is balanced in mode `spread`, and the shared pool is in mode `spread` exactly when the mode of
the exclusive pool is `spread` too or the sizes are not uneven. -/
theorem configure_balanced_iff (host : Host) (numExclusive numShared : ℕ)
    (exclusiveMode sharedMode exclNonIsolcpus : String) (p : Platform) (pools : Pools)
    (hcp : host.hasLabel sstCpLabel = .ok false)
    (hbf : ∀ core ∈ p.cores, core.isSstBf = false)
    (h : configure host numExclusive numShared exclusiveMode sharedMode exclNonIsolcpus =
      .ok (p, pools)) :
    (exclusiveMode = "spread" → Balanced p pools "exclusive" ["exclusive"]) ∧
      (sharedMode = "spread" → (Balanced p pools "shared" ["exclusive", "shared"] ↔
        exclusiveMode = "spread" ∨
          ¬ Uneven (sizes p) (packedTaken (sizes p) numExclusive) numShared)) := by
  obtain ⟨sstBf, sstCp, hcp', hdisc, hconf⟩ := configure_eq_ok h
  have hplaced := placed_of_discover hdisc
  obtain rfl := Except.ok.inj (hcp'.symm.trans hcp)
  have hheld := held_configurePlatform (nodup_cores_of_placed hplaced) hbf hconf
  refine ⟨fun hmode => ?_, fun hmode => ?_⟩
  · rw [hmode, Platform.getCoresGeneral, if_pos rfl] at hheld
    exact balanced_exclusive hplaced hbf hheld
  · rw [hmode, Platform.getCoresGeneral, Platform.getCoresGeneral, if_pos rfl] at hheld
    by_cases hexcl : exclusiveMode = "spread"
    · rw [if_pos hexcl] at hheld
      exact iff_of_true (balanced_shared_of_spread hplaced hbf hheld) (.inl hexcl)
    · rw [if_neg hexcl] at hheld
      rw [balanced_shared_of_packed hplaced hbf hheld]
      simp [hexcl]

/-- Three cores on one socket and two on the other, none of them isolated. -/
def threeAndTwo : Host where
  nodeLabel _ := .error (.keyError none)
  cmdline := .ok "quiet nosmt"
  sstBfCpus := .ok []
  lscpu := .ok "# CPU,Core,Socket\n0,0,0\n1,1,0\n2,2,0\n3,3,1\n4,4,1\n"
  epp _ := .error .osError

theorem configure_balanced_threeAndTwo : ∃ p pools,
    ("spread" = "spread" → Balanced p pools "exclusive" ["exclusive"]) ∧
      ("spread" = "spread" → (Balanced p pools "shared" ["exclusive", "shared"] ↔
        "spread" = "spread" ∨ ¬ Uneven (sizes p) (packedTaken (sizes p) 1) 2)) := by
  have hret : (configure threeAndTwo 1 2 "spread" "spread" "-1").toOption.any (fun result =>
      result.1.cores.all fun core => !core.isSstBf) = true := by decide
  cases h : configure threeAndTwo 1 2 "spread" "spread" "-1" with
  | error err =>
    rw [h] at hret
    nomatch hret
  | ok result =>
    rw [h] at hret
    refine ⟨_, _, configure_balanced_iff threeAndTwo 1 2 "spread" "spread" "-1" _ _ rfl
      (fun core hc => ?_) h⟩
    simpa using List.all_eq_true.mp hret core hc

/-- Two packed exclusive cores leave one on their socket, and the two shared cores are both on the
other. -/
theorem shared_cores_on_one_socket : ∃ p pools,
    threeAndTwo.hasLabel sstCpLabel = .ok false ∧ (∀ core ∈ p.cores, core.isSstBf = false) ∧
      configure threeAndTwo 2 2 "packed" "spread" "-1" = .ok (p, pools) ∧
        ¬ Balanced p pools "shared" ["exclusive", "shared"] := by
  have hret : (configure threeAndTwo 2 2 "packed" "spread" "-1").toOption.any (fun result =>
      (result.1.cores.all fun core => !core.isSstBf) &&
        !decide (Balanced result.1 result.2 "shared" ["exclusive", "shared"])) = true := by decide
  cases h : configure threeAndTwo 2 2 "packed" "spread" "-1" with
  | error err =>
    rw [h] at hret
    nomatch hret
  | ok result =>
    rw [h] at hret
    obtain ⟨hbf, hnot⟩ := Bool.and_eq_true_iff.mp hret
    refine ⟨_, _, rfl, fun core hc => ?_, rfl, ?_⟩
    · simpa using List.all_eq_true.mp hbf core hc
    · simpa using hnot

end Cmk
