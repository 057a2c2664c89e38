import Cmk.Topology.Parse

/-!
# Init/Assign — dealing the cores to the pools

`assign` gives free cores to a pool, `assignExclNonIsolcpus` the cores an operator listed; both only
ever deal cores nobody has.  `assignPools` is the sequence of the three branches of `configure` for
a platform with isolated cores, `assignAll` the one for a platform without; what either leaves
behind is `Assigned`.
-/

open Machinery Machinery.Deal Cmk.Topology

namespace Cmk

/-- `str(list)` of a list of integers. -/
def reprInts (zs : List ℤ) : String := "[" ++ joinWith ", " (zs.map toString) ++ "]"

/-- The sort key of `assign`. -/
def sortKey (core : Core) : ℤ := if core.isSstBf then -1 else 0

/-- `free_cores`, SST-BF cores first and otherwise in the order given. -/
def freeCores (pools : Pools) (cores : List Core) : List Core :=
  (free pools cores).insertionSort fun c c' => sortKey c ≤ sortKey c'

def noMoreFreeCores (pool : String) : PyErr :=
  .runtimeError ("No more free cores left to assign for " ++ pool)

/-- `xs[:n]`. -/
def sliceTo {α : Type} (xs : List α) (n : ℤ) : List α :=
  if 0 ≤ n then xs.take n.toNat else xs.take (xs.length - n.natAbs)

def assign (cores : List Core) (pool : String) (count : Option ℤ) (pools : Pools) :
    Except PyErr Pools :=
  if count.any (0 < ·) ∧ freeCores pools cores = [] then .error (noMoreFreeCores pool)
  else if pool = "infra" ∧ freeCores pools cores = [] then .error (noMoreFreeCores pool)
  else
    match count with
    | none => .ok (mark pools (freeCores pools cores) pool)
    | some n =>
      if n ≠ 0 ∧ (freeCores pools cores).length < n then
        .error (.runtimeError (toString n ++ " cores requested for " ++ pool ++ ". Only " ++
          toString (freeCores pools cores).length ++ " cores available"))
      else .ok (mark pools (sliceTo (freeCores pools cores) n) pool)

def assignExclNonIsolcpus (cores : List Core) (pool : String) (parsedCpus : List ℤ)
    (pools : Pools) : Except PyErr Pools :=
  if parsedCpus.filter (fun c => (cores.length : ℤ) ≤ c) ≠ [] then
    .error (.runtimeError ("Following physical cores not on system: " ++
      reprInts (parsedCpus.filter fun c => (cores.length : ℤ) ≤ c) ++
      "; you may be including logical CPUs of each core"))
  else
    let coresToAssign := cores.filter fun c => c.coreId ∈ parsedCpus
    if coresToAssign.filter (fun c => pools c ≠ none) ≠ [] then
      .error (.runtimeError ("Core(s) have already been assigned to pool(s): " ++
        reprInts ((coresToAssign.filter fun c => pools c ≠ none).map Core.coreId) ++
        ", cannot add them to exclusive-non-isolcpus pool"))
    else if coresToAssign.filter Core.isIsolated ≠ [] then
      .error (.runtimeError ("Isolated cores " ++
        reprInts ((coresToAssign.filter Core.isIsolated).map Core.coreId) ++
        " cannot be placed in exclusive-non-isolcpus pool"))
    else .ok (mark pools coresToAssign pool)

/-! ## The operator's list of cores -/

/-- The pieces of the operator's list that have to be digits. -/
def exclPieces (exclNonIsolcpus : String) : List String :=
  (splitText ',' exclNonIsolcpus).flatMap fun cpuList =>
    if cpuList.length > 2 then splitText '-' cpuList else [cpuList]

def checkExclNonIsolcpus (exclNonIsolcpus : String) (p : Platform) (pools : Pools) :
    Except PyErr Pools :=
  if exclNonIsolcpus = "-1" then .ok pools
  else
    match (exclPieces exclNonIsolcpus).find? fun cpu => !isDigitText cpu with
    | some cpu => .error (.runtimeError ("Invalid core ID: " ++ cpu))
    | none => do
      let cpus ← parseCpusStr (splitText ',' exclNonIsolcpus)
      assignExclNonIsolcpus (p.getCores "packed") "exclusive-non-isolcpus" cpus pools

/-! ## The sequences of assignments -/

/-- The assignments of a platform with isolated cores, from the three lists of candidates. -/
def assignPools (p : Platform) (exclusive shared infra : List Core) (numExclusive numShared : ℤ)
    (exclNonIsolcpus : String) (pools : Pools) : Except PyErr Pools := do
  let pools ← assign exclusive "exclusive" (some numExclusive) pools
  let pools ← assign shared "shared" (some numShared) pools
  let pools ← checkExclNonIsolcpus exclNonIsolcpus p pools
  assign infra "infra" none pools

/-- The assignments of a platform without isolated cores. -/
def assignAll (exclusive shared cores : List Core) (numExclusive numShared : ℤ) (pools : Pools) :
    Except PyErr Pools := do
  let pools ← assign exclusive "exclusive" (some numExclusive) pools
  let pools ← assign shared "shared" (some numShared) pools
  assign cores "infra" none pools

/-! ## What an assignment does -/

variable {cores : List Core} {pool : String} {count : Option ℤ} {pools pools' : Pools}

theorem perm_freeCores (pools : Pools) (cores : List Core) :
    (freeCores pools cores).Perm (free pools cores) := List.perm_insertionSort _ _

theorem mem_freeCores {core : Core} :
    core ∈ freeCores pools cores ↔ core ∈ cores ∧ pools core = none := by
  rw [(perm_freeCores pools cores).mem_iff]
  simp [free]

theorem sliceTo_sublist {α : Type} (xs : List α) (n : ℤ) : (sliceTo xs n).Sublist xs := by
  unfold sliceTo
  split
  · exact List.take_sublist _ _
  · exact List.take_sublist _ _

/-- **One assignment** deals free candidates, each once: as many as were asked for, or all. -/
theorem assign_ok (hnd : cores.Nodup) (h : assign cores pool count pools = .ok pools') :
    ∃ chosen : List Core, pools' = mark pools chosen pool ∧ chosen.Nodup ∧
      (∀ c ∈ chosen, c ∈ cores ∧ pools c = none) ∧
      (∀ n : ℕ, count = some (n : ℤ) → chosen.length = n) ∧
      (count = none → ∀ c ∈ cores, pools c = none → c ∈ chosen) ∧
      (pool = "infra" → count = none → chosen ≠ []) := by
  have hfree : (freeCores pools cores).Nodup :=
    (perm_freeCores pools cores).nodup_iff.mpr (hnd.filter _)
  unfold assign at h
  split at h
  · simp at h
  · split at h
    · simp at h
    · rename_i hinfra
      cases count with
      | none =>
        obtain rfl := Except.ok.inj h
        refine ⟨_, rfl, hfree, fun c hc => mem_freeCores.mp hc, by simp,
          fun _ c hc hn => mem_freeCores.mpr ⟨hc, hn⟩, fun hp _ hnil => hinfra ⟨hp, hnil⟩⟩
      | some n =>
        simp only at h
        split at h
        · simp at h
        · rename_i hlen
          obtain rfl := Except.ok.inj h
          have hsub := sliceTo_sublist (freeCores pools cores) n
          refine ⟨_, rfl, hfree.sublist hsub, fun c hc => mem_freeCores.mp (hsub.subset hc),
            fun k hk => ?_, by simp, by simp⟩
          obtain rfl := Option.some.inj hk
          rw [sliceTo, if_pos (by omega), List.length_take]
          omega

/-- **The operator's cores**: all those listed, all of them free and none isolated. -/
theorem assignExclNonIsolcpus_eq_ok {parsedCpus : List ℤ} :
    assignExclNonIsolcpus cores pool parsedCpus pools = .ok pools' ↔
      (∀ z ∈ parsedCpus, z < cores.length) ∧
        (∀ c ∈ cores, c.coreId ∈ parsedCpus → pools c = none ∧ c.isIsolated = false) ∧
          mark pools (cores.filter fun c => c.coreId ∈ parsedCpus) pool = pools' := by
  have hon : parsedCpus.filter (fun c => (cores.length : ℤ) ≤ c) = [] ↔
      ∀ z ∈ parsedCpus, z < cores.length := by simp [List.filter_eq_nil_iff]
  have hfree : (cores.filter fun c => c.coreId ∈ parsedCpus).filter (fun c => pools c ≠ none) =
      [] ↔ ∀ c ∈ cores, c.coreId ∈ parsedCpus → pools c = none := by
    simp only [List.filter_eq_nil_iff, List.mem_filter, decide_eq_true_eq, not_not, and_imp]
  have hisol : (cores.filter fun c => c.coreId ∈ parsedCpus).filter Core.isIsolated = [] ↔
      ∀ c ∈ cores, c.coreId ∈ parsedCpus → c.isIsolated = false := by
    simp only [List.filter_eq_nil_iff, List.mem_filter, decide_eq_true_eq, Bool.not_eq_true,
      and_imp]
  rw [assignExclNonIsolcpus]
  by_cases h₁ : ∀ z ∈ parsedCpus, z < cores.length
  · rw [if_neg (not_not.mpr (hon.mpr h₁))]
    by_cases h₂ : ∀ c ∈ cores, c.coreId ∈ parsedCpus → pools c = none
    · rw [if_neg (not_not.mpr (hfree.mpr h₂))]
      by_cases h₃ : ∀ c ∈ cores, c.coreId ∈ parsedCpus → c.isIsolated = false
      · rw [if_neg (not_not.mpr (hisol.mpr h₃)), Except.ok.injEq]
        exact ⟨fun h => ⟨h₁, fun c hc hm => ⟨h₂ c hc hm, h₃ c hc hm⟩, h⟩, fun h => h.2.2⟩
      · rw [if_pos (mt hisol.mp h₃)]
        exact iff_of_false (by simp) fun h => h₃ fun c hc hm => (h.2.1 c hc hm).2
    · rw [if_pos (mt hfree.mp h₂)]
      exact iff_of_false (by simp) fun h => h₂ fun c hc hm => (h.2.1 c hc hm).1
  · rw [if_pos (mt hon.mp h₁)]
    exact iff_of_false (by simp) fun h => h₁ h.1

theorem assignExclNonIsolcpus_ok {parsedCpus : List ℤ}
    (h : assignExclNonIsolcpus cores pool parsedCpus pools = .ok pools') :
    pools' = mark pools (cores.filter fun c => c.coreId ∈ parsedCpus) pool ∧
      ∀ c ∈ cores, c.coreId ∈ parsedCpus → pools c = none ∧ c.isIsolated = false := by
  obtain ⟨-, hfree, hmark⟩ := assignExclNonIsolcpus_eq_ok.mp h
  exact ⟨hmark.symm, hfree⟩

/-! ## What the sequences leave behind -/

variable {p : Platform}

/-- Candidates of a platform: some of its cores, each once. -/
def Candidates (p : Platform) (cores : List Core) : Prop := cores.Nodup ∧ cores ⊆ p.cores

/-- No core is in a pool yet. -/
def noPools : Pools := fun _ => none

/-- What the pools of an initialised platform satisfy. -/
structure Assigned (p : Platform) (numExclusive numShared : ℕ) (exclNonIsolcpus : String)
    (pools : Pools) : Prop where
  exclusive : (holders pools p.cores "exclusive").length = numExclusive
  shared : (holders pools p.cores "shared").length = numShared
  infra : holders pools p.cores "infra" ≠ []
  listed : p.hasIsolatedCores → exclNonIsolcpus ≠ "-1" → ∃ cpus,
    parseCpusStr (splitText ',' exclNonIsolcpus) = .ok cpus ∧
      (holders pools p.cores "exclusive-non-isolcpus").Perm
        (p.cores.filter fun c => c.coreId ∈ cpus)
  covered : p.hasIsolatedCores = false → ∀ core ∈ p.cores, ∃ pool,
    pools core = some pool ∧ pool ∈ ["exclusive", "shared", "infra"]

/-- **One assignment, seen from all pools**: the others are as before. -/
theorem holders_assign (hp : p.cores.Nodup) (hcand : Candidates p cores)
    (hnil : holders pools p.cores pool = []) (h : assign cores pool count pools = .ok pools') :
    (∀ w ≠ pool, holders pools' p.cores w = holders pools p.cores w) ∧
      (∀ n : ℕ, count = some (n : ℤ) → (holders pools' p.cores pool).length = n) ∧
      (pool = "infra" → count = none → holders pools' p.cores pool ≠ []) := by
  obtain ⟨chosen, rfl, hchosen, hfree, hlen, -, hne⟩ := assign_ok hcand.1 h
  have hperm : (holders (mark pools chosen pool) p.cores pool).Perm chosen :=
    holders_mark_self hp hchosen (fun c hc => hcand.2 (hfree c hc).1)
      fun c hc hm => List.filter_eq_nil_iff.mp hnil c hc (by simpa using hm)
  refine ⟨fun w hw => holders_mark_other (fun c hc => (hfree c hc).2) hw,
    fun n hn => hperm.length_eq.trans (hlen n hn), fun hi hn hnil' => hne hi hn ?_⟩
  rw [hnil'] at hperm
  exact hperm.symm.eq_nil

/-- **The check of the operator's cores** deals these, and nothing if there are none to deal. -/
theorem holders_checkExclNonIsolcpus {exclNonIsolcpus : String} (hp : p.cores.Nodup)
    (hnil : holders pools p.cores "exclusive-non-isolcpus" = [])
    (h : checkExclNonIsolcpus exclNonIsolcpus p pools = .ok pools') :
    (∀ w ≠ "exclusive-non-isolcpus", holders pools' p.cores w = holders pools p.cores w) ∧
      (exclNonIsolcpus ≠ "-1" → ∃ cpus, parseCpusStr (splitText ',' exclNonIsolcpus) = .ok cpus ∧
        (holders pools' p.cores "exclusive-non-isolcpus").Perm
          (p.cores.filter fun c => c.coreId ∈ cpus)) := by
  unfold checkExclNonIsolcpus at h
  split at h
  · rename_i he
    obtain rfl := Except.ok.inj h
    exact ⟨fun _ _ => rfl, fun hne => absurd he hne⟩
  · split at h
    · simp at h
    · obtain ⟨cpus, hcpus, h⟩ := bind_eq_ok.mp h
      obtain ⟨rfl, hfree⟩ := assignExclNonIsolcpus_ok h
      have hchosen := (perm_getCores p "packed").filter fun c => c.coreId ∈ cpus
      refine ⟨fun w hw => holders_mark_other (fun c hc => ?_) hw, fun _ => ⟨cpus, hcpus, ?_⟩⟩
      · obtain ⟨hc, hm⟩ := List.mem_filter.mp hc
        exact (hfree c hc (by simpa using hm)).1
      · refine (holders_mark_self hp (hchosen.nodup_iff.mpr (hp.filter _)) (fun c hc => ?_)
          fun c hc hm => ?_).trans hchosen
        · exact List.mem_of_mem_filter (hchosen.mem_iff.mp hc)
        · exact List.filter_eq_nil_iff.mp hnil c hc (by simpa using hm)

theorem holders_noPools (cores : List Core) (pool : String) : holders noPools cores pool = [] := by
  simp [holders, noPools]

variable {exclusive shared infra : List Core} {numExclusive numShared : ℕ}
  {exclNonIsolcpus : String}

/-- **The sequence with isolated cores.** -/
theorem assigned_assignPools (hp : p.cores.Nodup) (hisol : p.hasIsolatedCores)
    (he : Candidates p exclusive) (hs : Candidates p shared) (hi : Candidates p infra)
    (h : assignPools p exclusive shared infra numExclusive numShared exclNonIsolcpus noPools =
      .ok pools) : Assigned p numExclusive numShared exclNonIsolcpus pools := by
  obtain ⟨pools₁, h₁, h⟩ := bind_eq_ok.mp h
  obtain ⟨pools₂, h₂, h⟩ := bind_eq_ok.mp h
  obtain ⟨pools₃, h₃, h₄⟩ := bind_eq_ok.mp h
  obtain ⟨o₁, n₁, -⟩ := holders_assign hp he (holders_noPools _ _) h₁
  obtain ⟨o₂, n₂, -⟩ := holders_assign hp hs
    ((o₁ _ (by decide)).trans (holders_noPools _ _)) h₂
  obtain ⟨o₃, l₃⟩ := holders_checkExclNonIsolcpus hp
    ((o₂ _ (by decide)).trans ((o₁ _ (by decide)).trans (holders_noPools _ _))) h₃
  obtain ⟨o₄, -, i₄⟩ := holders_assign hp hi ((o₃ _ (by decide)).trans
    ((o₂ _ (by decide)).trans ((o₁ _ (by decide)).trans (holders_noPools _ _)))) h₄
  refine ⟨?_, ?_, i₄ rfl rfl, fun _ hne => ?_, fun hno => ?_⟩
  · rw [o₄ _ (by decide), o₃ _ (by decide), o₂ _ (by decide)]
    exact n₁ _ rfl
  · rw [o₄ _ (by decide), o₃ _ (by decide)]
    exact n₂ _ rfl
  · rw [o₄ _ (by decide)]
    exact l₃ hne
  · rw [hisol] at hno
    nomatch hno

/-- **The sequence without**: it leaves no core out. -/
theorem assigned_assignAll (hp : p.cores.Nodup) (hisol : p.hasIsolatedCores = false)
    (he : Candidates p exclusive) (hs : Candidates p shared) (hi : cores.Perm p.cores)
    (h : assignAll exclusive shared cores numExclusive numShared noPools = .ok pools) :
    Assigned p numExclusive numShared exclNonIsolcpus pools := by
  obtain ⟨pools₁, h₁, h⟩ := bind_eq_ok.mp h
  obtain ⟨pools₂, h₂, h₃⟩ := bind_eq_ok.mp h
  obtain ⟨o₁, n₁, -⟩ := holders_assign hp he (holders_noPools _ _) h₁
  obtain ⟨o₂, n₂, -⟩ := holders_assign hp hs
    ((o₁ _ (by decide)).trans (holders_noPools _ _)) h₂
  obtain ⟨o₃, -, i₃⟩ := holders_assign hp ⟨hi.nodup_iff.mpr hp, hi.subset⟩
    ((o₂ _ (by decide)).trans ((o₁ _ (by decide)).trans (holders_noPools _ _))) h₃
  obtain ⟨ch₁, rfl, -⟩ := assign_ok he.1 h₁
  obtain ⟨ch₂, rfl, -⟩ := assign_ok hs.1 h₂
  obtain ⟨ch₃, rfl, -, -, -, hall, -⟩ := assign_ok (hi.nodup_iff.mpr hp) h₃
  refine ⟨?_, ?_, i₃ rfl rfl, fun hyes => ?_, fun _ core hc => ?_⟩
  · rw [o₃ _ (by decide), o₂ _ (by decide)]
    exact n₁ _ rfl
  · rw [o₃ _ (by decide)]
    exact n₂ _ rfl
  · rw [hisol] at hyes
    nomatch hyes
  · have hin := hall rfl core (hi.mem_iff.mpr hc)
    by_cases h₃ : core ∈ ch₃
    · exact ⟨"infra", by simp [mark, h₃], by decide⟩
    · have hsome := mt hin h₃
      by_cases h₂ : core ∈ ch₂
      · exact ⟨"shared", by simp [mark, h₂, h₃], by decide⟩
      · by_cases h₁ : core ∈ ch₁
        · exact ⟨"exclusive", by simp [mark, h₁, h₂, h₃], by decide⟩
        · simp [mark, h₁, h₂, noPools] at hsome

end Cmk
