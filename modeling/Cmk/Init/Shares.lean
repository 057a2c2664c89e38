import Cmk.Init.Isolated

/-!
# Init/Shares — exactly which cores the first two pools get

The pools `exclusive` and `shared` are dealt first, each the first free cores of its candidates, and
what comes after leaves them alone (`held_assignPools`, `held_assignAll`).
-/

open Machinery Machinery.Deal Cmk.Topology

namespace Cmk

/-- The cores of the exclusive pool. -/
def exclusiveShare (exclusive : List Core) (numExclusive : ℕ) : List Core :=
  (freeCores noPools exclusive).take numExclusive

/-- The cores of the shared pool. -/
def sharedShare (exclusive shared : List Core) (numExclusive numShared : ℕ) : List Core :=
  (freeCores (mark noPools (exclusiveShare exclusive numExclusive) "exclusive") shared).take
    numShared

/-- Who is in the first two pools. -/
structure Held (exclusive shared : List Core) (numExclusive numShared : ℕ) (pools : Pools) :
    Prop where
  exclusive_iff : ∀ core, pools core = some "exclusive" ↔
    core ∈ exclusiveShare exclusive numExclusive
  shared_iff : ∀ core, pools core = some "shared" ↔
    core ∈ sharedShare exclusive shared numExclusive numShared

variable {p : Platform} {cores exclusive shared infra : List Core} {pools pools' : Pools}
  {pool exclNonIsolcpus : String} {numExclusive numShared n : ℕ}

/-- **One assignment** with a count deals the first free cores. -/
theorem assign_eq_ok : assign cores pool (some (n : ℤ)) pools = .ok pools' ↔
    (pool = "infra" → freeCores pools cores ≠ []) ∧ n ≤ (freeCores pools cores).length ∧
      mark pools ((freeCores pools cores).take n) pool = pools' := by
  rw [assign]
  by_cases hnone : (some (n : ℤ)).any (0 < ·) ∧ freeCores pools cores = []
  · have hlen : ¬ n ≤ (freeCores pools cores).length := by
      have hpos := hnone.1
      rw [hnone.2]
      simp only [Option.any_some, decide_eq_true_eq] at hpos
      simp
      omega
    rw [if_pos hnone]
    simp [hlen]
  · rw [if_neg hnone]
    by_cases hinfra : pool = "infra" ∧ freeCores pools cores = []
    · rw [if_pos hinfra]
      simp [hinfra.1, hinfra.2]
    · rw [if_neg hinfra]
      have hyes : pool = "infra" → freeCores pools cores ≠ [] := by simpa using hinfra
      have hslice : sliceTo (freeCores pools cores) n = (freeCores pools cores).take n := by
        rw [sliceTo, if_pos (Int.natCast_nonneg n), Int.toNat_natCast]
      simp only [hslice]
      split
      · rename_i hfew
        have hle : ¬ n ≤ (freeCores pools cores).length := by omega
        simp [hle]
      · rename_i hmany
        have hle : n ≤ (freeCores pools cores).length := by omega
        rw [Except.ok.injEq]
        exact ⟨fun hm => ⟨hyes, hle, hm⟩, fun hall => hall.2.2⟩

theorem Deals.iff_of_ne {v : String} (h : Deals cores pool pools pools') (hne : v ≠ pool)
    (core : Core) : pools' core = some v ↔ pools core = some v :=
  ⟨fun hv => (h.only core v hv).resolve_right fun hno => hne hno.1, h.keeps core v⟩

theorem mark_eq_some {chosen : List Core} {core : Core} {v : String} :
    mark pools chosen pool core = some v ↔
      core ∈ chosen ∧ v = pool ∨ core ∉ chosen ∧ pools core = some v := by
  rw [mark]
  split <;> simp_all [eq_comm]

/-- The first two assignments. -/
theorem held_of_assign {pools₁ pools₂ : Pools}
    (h₁ : assign exclusive "exclusive" (some (numExclusive : ℤ)) noPools = .ok pools₁)
    (h₂ : assign shared "shared" (some (numShared : ℤ)) pools₁ = .ok pools₂) :
    Held exclusive shared numExclusive numShared pools₂ := by
  obtain ⟨-, -, rfl⟩ := assign_eq_ok.mp h₁
  obtain ⟨-, -, rfl⟩ := assign_eq_ok.mp h₂
  have hapart : ∀ core ∈ sharedShare exclusive shared numExclusive numShared,
      core ∉ exclusiveShare exclusive numExclusive := fun core hc hc' => by
    have hfree := (mem_freeCores.mp (List.mem_of_mem_take hc)).2
    rw [mark, if_pos hc'] at hfree
    cases hfree
  refine ⟨fun core => ?_, fun core => ?_⟩
  · rw [mark_eq_some, mark_eq_some]
    constructor
    · rintro (⟨-, hv⟩ | ⟨-, ⟨hc, -⟩ | ⟨-, hv⟩⟩)
      · exact absurd hv (by decide)
      · exact hc
      · cases hv
    · exact fun hc => .inr ⟨fun hs => hapart core hs hc, .inl ⟨hc, rfl⟩⟩
  · rw [mark_eq_some, mark_eq_some]
    constructor
    · rintro (⟨hc, -⟩ | ⟨-, ⟨-, hv⟩ | ⟨-, hv⟩⟩)
      · exact hc
      · exact absurd hv (by decide)
      · cases hv
    · exact fun hc => .inl ⟨hc, rfl⟩

/-- **With isolated cores.** -/
theorem held_assignPools (hi : infra.Nodup)
    (h : assignPools p exclusive shared infra numExclusive numShared exclNonIsolcpus noPools =
      .ok pools) : Held exclusive shared numExclusive numShared pools := by
  obtain ⟨pools₁, h₁, h⟩ := bind_eq_ok.mp h
  obtain ⟨pools₂, h₂, h⟩ := bind_eq_ok.mp h
  obtain ⟨pools₃, h₃, h₄⟩ := bind_eq_ok.mp h
  have hheld := held_of_assign h₁ h₂
  have hsame : ∀ v, v ≠ "exclusive-non-isolcpus" → v ≠ "infra" → ∀ core,
      pools core = some v ↔ pools₂ core = some v := fun v hne hne' core =>
    ((deals_assign hi h₄).iff_of_ne hne' core).trans
      ((deals_checkExclNonIsolcpus h₃).iff_of_ne hne core)
  exact ⟨fun core => (hsame _ (by decide) (by decide) core).trans (hheld.exclusive_iff core),
    fun core => (hsame _ (by decide) (by decide) core).trans (hheld.shared_iff core)⟩

/-- **Without.** -/
theorem held_assignAll (hi : cores.Nodup)
    (h : assignAll exclusive shared cores numExclusive numShared noPools = .ok pools) :
    Held exclusive shared numExclusive numShared pools := by
  obtain ⟨pools₁, h₁, h⟩ := bind_eq_ok.mp h
  obtain ⟨pools₂, h₂, h₃⟩ := bind_eq_ok.mp h
  have hheld := held_of_assign h₁ h₂
  have hsame := fun v hne => (deals_assign hi h₃).iff_of_ne (v := v) hne
  exact ⟨fun core => (hsame _ (by decide) core).trans (hheld.exclusive_iff core),
    fun core => (hsame _ (by decide) core).trans (hheld.shared_iff core)⟩

end Cmk
