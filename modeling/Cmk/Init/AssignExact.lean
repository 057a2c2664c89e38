import Cmk.Init.Excl

/-!
# Init/AssignExact — which cores `assign` takes

`assign` arranges the free cores it is given, SST-BF cores first, and moves the first of them to the
pool; every check comes before the first move, so it takes the right cores or none
(`assign_exact`).
-/

open Machinery Machinery.Deal Cmk.Topology

namespace Cmk

/-- `assign`, with the pools as they are at every point. -/
def assignRun (cores : List Core) (pool : String) (count : Option ℤ) :
    ExceptT PyErr (StateM Pools) Unit :=
  get >>= fun pools =>
    if count.any (0 < ·) ∧ freeCores pools cores = [] then throw (noMoreFreeCores pool)
    else if pool = "infra" ∧ freeCores pools cores = [] then throw (noMoreFreeCores pool)
    else
      match count with
      | none => (freeCores pools cores).forM fun c => modify fun pools => mark pools [c] pool
      | some n =>
        if n ≠ 0 ∧ (freeCores pools cores).length < n then
          throw (.runtimeError (toString n ++ " cores requested for " ++ pool ++ ". Only " ++
            toString (freeCores pools cores).length ++ " cores available"))
        else (sliceTo (freeCores pools cores) n).forM fun c =>
          modify fun pools => mark pools [c] pool

/-- The free cores, the SST-BF cores first, otherwise in the order given. -/
def arranged (pools : Pools) (cores : List Core) : List Core :=
  (free pools cores).filter Core.isSstBf ++ (free pools cores).filter fun c => !c.isSstBf

/-- The first of a list, or all of it if no number is given. -/
def firstOf {α : Type} (count : Option ℕ) (xs : List α) : List α := count.elim xs (xs.take ·)

/-- There are fewer free cores than asked for, or none at all for `infra`. -/
def TooFew (pools : Pools) (cores : List Core) (pool : String) (count : Option ℕ) : Prop :=
  (∃ n, count = some n ∧ (free pools cores).length < n) ∨
    pool = "infra" ∧ free pools cores = []

/-- The first of the arranged cores have moved to the pool, and nothing else. -/
structure Dealt (cores : List Core) (pool : String) (count : Option ℕ) (pools pools' : Pools) :
    Prop where
  changed : (cores.filter fun c => pools' c ≠ pools c).Perm (firstOf count (arranged pools cores))
  moved : ∀ c ∈ firstOf count (arranged pools cores), pools c = none ∧ pools' c = some pool
  others : ∀ c ∉ firstOf count (arranged pools cores), pools' c = pools c
  assigned : ∀ c, pools c ≠ none → pools' c = pools c

variable {cores : List Core} {pool : String} {count : Option ℕ} {pools pools' : Pools}

/-! ## The order of the free cores -/

theorem sortKey_le_iff (c c' : Core) :
    sortKey c ≤ sortKey c' ↔ (c'.isSstBf = true → c.isSstBf = true) := by
  unfold sortKey
  cases c.isSstBf <;> cases c'.isSstBf <;> decide

theorem freeCores_eq_arranged (pools : Pools) (cores : List Core) :
    freeCores pools cores = arranged pools cores :=
  insertionSort_classes sortKey_le_iff (free pools cores)

theorem length_freeCores (pools : Pools) (cores : List Core) :
    (freeCores pools cores).length = (free pools cores).length :=
  (perm_freeCores pools cores).length_eq

theorem freeCores_eq_nil : freeCores pools cores = [] ↔ free pools cores = [] := by
  rw [← List.length_eq_zero_iff, length_freeCores, List.length_eq_zero_iff]

/-! ## What `assign` answers -/

theorem assignRun_eq (cores : List Core) (pool : String) (count : Option ℤ) (pools : Pools) :
    (assignRun cores pool count).run.run pools =
      outcome pools (assign cores pool count pools) := by
  rw [assignRun, run_get_bind]
  unfold assign
  by_cases h₁ : count.any (0 < ·) ∧ freeCores pools cores = []
  · rw [if_pos h₁, if_pos h₁]
    rfl
  · rw [if_neg h₁, if_neg h₁]
    by_cases h₂ : pool = "infra" ∧ freeCores pools cores = []
    · rw [if_pos h₂, if_pos h₂]
      rfl
    · rw [if_neg h₂, if_neg h₂]
      cases count with
      | none => exact forM_mark pools
      | some n =>
        dsimp only
        by_cases h₃ : n ≠ 0 ∧ (freeCores pools cores).length < n
        · rw [if_pos h₃, if_pos h₃]
          rfl
        · rw [if_neg h₃, if_neg h₃, forM_mark]
          rfl

/-- **Too few free cores** are refused. -/
theorem assign_tooFew (h : TooFew pools cores pool count) :
    ∃ e, assign cores pool (count.map Nat.cast) pools = .error e := by
  unfold assign
  by_cases hnil : freeCores pools cores = []
  · rcases h with ⟨n, rfl, hn⟩ | ⟨hp, -⟩
    · exact ⟨_, if_pos ⟨by simp; omega, hnil⟩⟩
    · by_cases hpos : (count.map (Nat.cast : ℕ → ℤ)).any (0 < ·) = true
      · exact ⟨_, if_pos ⟨hpos, hnil⟩⟩
      · rw [if_neg fun h => hpos h.1, if_pos ⟨hp, hnil⟩]
        exact ⟨_, rfl⟩
  · rw [if_neg fun h => hnil h.2, if_neg fun h => hnil h.2]
    rcases h with ⟨n, rfl, hn⟩ | ⟨-, hfree⟩
    · refine ⟨_, if_pos ⟨?_, ?_⟩⟩
      · exact Int.natCast_ne_zero.mpr (by omega)
      · rw [length_freeCores]
        exact Int.ofNat_lt.mpr hn
    · exact absurd (freeCores_eq_nil.mpr hfree) hnil

/-- **Enough free cores**: the first of them are marked. -/
theorem assign_enough (h : ¬ TooFew pools cores pool count) :
    assign cores pool (count.map Nat.cast) pools =
      .ok (mark pools (firstOf count (arranged pools cores)) pool) := by
  obtain ⟨hcount, hinfra⟩ := not_or.mp h
  rw [← freeCores_eq_arranged]
  unfold assign
  have hany : ¬ ((count.map (Nat.cast : ℕ → ℤ)).any (0 < ·) = true ∧
      freeCores pools cores = []) := by
    rintro ⟨hpos, hnil⟩
    obtain ⟨n, rfl⟩ : ∃ n, count = some n := by
      cases count with
      | none => cases hpos
      | some n => exact ⟨n, rfl⟩
    have hlen : 0 < n := by simpa using hpos
    exact hcount ⟨n, rfl, by rwa [freeCores_eq_nil.mp hnil]⟩
  rw [if_neg hany, if_neg fun h => hinfra ⟨h.1, freeCores_eq_nil.mp h.2⟩]
  cases count with
  | none => rfl
  | some n =>
    have hlen : ¬ ((n : ℤ) ≠ 0 ∧ ((freeCores pools cores).length : ℤ) < n) := by
      rintro ⟨-, hlt⟩
      rw [length_freeCores] at hlt
      exact hcount ⟨n, rfl, Int.ofNat_lt.mp hlt⟩
    rw [Option.map_some]
    dsimp only
    rw [if_neg hlen, sliceTo, if_pos (Int.natCast_nonneg n), Int.toNat_natCast]
    rfl

/-! ## What moves -/

theorem firstOf_sublist {α : Type} (count : Option ℕ) (xs : List α) :
    (firstOf count xs).Sublist xs := by
  cases count with
  | none => exact .refl _
  | some n => exact List.take_sublist n xs

theorem mem_arranged {core : Core} :
    core ∈ arranged pools cores ↔ core ∈ cores ∧ pools core = none := by
  rw [← freeCores_eq_arranged, mem_freeCores]

/-- Marking free cores moves these and no other. -/
theorem dealt_mark (hnd : cores.Nodup) :
    Dealt cores pool count pools (mark pools (firstOf count (arranged pools cores)) pool) := by
  have hsub := firstOf_sublist count (arranged pools cores)
  have hfree : ∀ c ∈ firstOf count (arranged pools cores), c ∈ cores ∧ pools c = none :=
    fun c hc => mem_arranged.mp (hsub.subset hc)
  have harranged : (arranged pools cores).Nodup := by
    rw [← freeCores_eq_arranged]
    exact (perm_freeCores pools cores).nodup_iff.mpr (hnd.filter _)
  refine ⟨(List.perm_ext_iff_of_nodup (hnd.filter _) (harranged.sublist hsub)).mpr fun c => ?_,
    fun c hc => ⟨(hfree c hc).2, if_pos hc⟩, fun c hc => if_neg hc,
    fun c hc => if_neg fun hin => hc (hfree c hin).2⟩
  rw [List.mem_filter, decide_eq_true_iff]
  by_cases hc : c ∈ firstOf count (arranged pools cores)
  · refine iff_of_true ⟨(hfree c hc).1, ?_⟩ hc
    rw [mark, if_pos hc, (hfree c hc).2]
    exact Option.some_ne_none pool
  · exact iff_of_false (fun h => h.2 (if_neg hc)) hc

/-- **`assign` takes the right cores or none.**  It raises exactly if there are too few free cores,
and then has moved none; otherwise the first of the free cores, arranged, are in the pool. -/
theorem assign_exact (hnd : cores.Nodup) (pool : String) (count : Option ℕ) (pools : Pools) :
    (TooFew pools cores pool count →
      ∃ e, (assignRun cores pool (count.map Nat.cast)).run.run pools = (.error e, pools)) ∧
    (¬ TooFew pools cores pool count →
      ∃ pools', (assignRun cores pool (count.map Nat.cast)).run.run pools = (.ok (), pools') ∧
        Dealt cores pool count pools pools') := by
  rw [assignRun_eq]
  refine ⟨fun h => ?_, fun h => ?_⟩
  · obtain ⟨e, he⟩ := assign_tooFew h
    exact ⟨e, by rw [he]; rfl⟩
  · exact ⟨_, by rw [assign_enough h]; rfl, dealt_mark hnd⟩

/-- Two cores, the second one for SST-BF. -/
def sstBfLast : List Core :=
  [⟨0, 0, .ofList _ [⟨0, false, false⟩]⟩, ⟨0, 1, .ofList _ [⟨1, false, true⟩]⟩]

theorem assign_exact_sstBfLast :
    (∃ pools', (assignRun sstBfLast "shared" (some 1)).run.run noPools = (.ok (), pools') ∧
      Dealt sstBfLast "shared" (some 1) noPools pools') ∧
    ∃ e, (assignRun sstBfLast "shared" (some 3)).run.run noPools = (.error e, noPools) := by
  have hnd : sstBfLast.Nodup := by decide
  have hone : ¬ TooFew noPools sstBfLast "shared" (some 1) := by
    rintro (⟨n, hn, hlt⟩ | ⟨hp, -⟩)
    · obtain rfl := Option.some.inj hn
      exact absurd hlt (by decide)
    · exact absurd hp (by decide)
  have hthree : TooFew noPools sstBfLast "shared" (some 3) := .inl ⟨3, rfl, by decide⟩
  exact ⟨(assign_exact hnd "shared" (some 1) noPools).2 hone,
    (assign_exact hnd "shared" (some 3) noPools).1 hthree⟩

end Cmk
