import Cmk.Init.Assign

/-!
# Init/Configure — `init.configure`

The four ways `configure` picks the candidates of the pools: by EPP value on a node with SST-CP, the
SST-BF cores on one with SST-BF, the isolated cores, or all cores.  What it reads of the machine is
a `Host`.  Whichever way it goes, the candidates are cores of the platform, each once, so the
platform it returns is `Assigned` (`assigned_configurePlatform`).
-/

open Machinery Machinery.Deal Cmk.Topology

namespace Cmk

/-- What `configure` reads of the node: its labels, the kernel command line, the CPUs `sst_bf.cpus`
finds, the output of `lscpu -p`, and the file with the energy preference of a core. -/
structure Host where
  nodeLabel : String → Except PyErr String
  cmdline : Except PyErr String
  sstBfCpus : Except PyErr (List ℤ)
  lscpu : Except PyErr String
  epp : ℤ → Except PyErr String

def sstBfLabel : String := "feature.node.kubernetes.io/cpu-power.sst_bf.enabled"

def sstCpLabel : String := "feature.node.kubernetes.io/cpu-power.sst_cp.enabled"

namespace Host

/-- Whether a label is set; `except Exception` lets a `SystemExit` through. -/
def hasLabel (host : Host) (key : String) : Except PyErr Bool :=
  match host.nodeLabel key with
  | .ok value => .ok (value ∈ ["true", "True"])
  | .error (.systemExit code) => .error (.systemExit code)
  | .error _ => .ok false

def discover (host : Host) (sstBfDiscovery : Bool) : Except PyErr Platform := do
  let isol ← host.cmdline >>= parseIsolcpus
  let sstBfCpus ← (if sstBfDiscovery then host.sstBfCpus else .ok [])
  let lscpuOutput ← host.lscpu
  parse lscpuOutput isol sstBfCpus

/-! ## Cores by EPP value -/

/-- The first line of the file of a core. -/
def eppLine (host : Host) (coreId : ℤ) : Except PyErr String := do
  let text ← host.epp coreId
  return (splitText '\n' text).headD ""

/-- The EPP values of the cores, highest first; any other value is passed over. -/
def getEppOrder (host : Host) (p : Platform) : Except PyErr (List String) := do
  let present ← (p.getCores "packed").mapM fun c => host.eppLine c.coreId
  return ["performance", "balance_performance", "balance_power", "power"].filter (· ∈ present)

/-- The rounds of `get_epp_cores`; `none` when the cores run out first. -/
def eppCores (host : Host) (eppValue : String) (numRequired : ℤ) (unavailable : List ℤ) :
    List Core → List Core → Except PyErr (Option (List Core))
  | _, [] => .ok none
  | found, core :: cores =>
    if core.coreId ∈ unavailable then eppCores host eppValue numRequired unavailable found cores
    else do
      let line ← host.eppLine core.coreId
      if rstripText line = eppValue then
        if found.length + 1 = numRequired then return some (found ++ [core])
        else eppCores host eppValue numRequired unavailable (found ++ [core]) cores
      else eppCores host eppValue numRequired unavailable found cores

def getEppCores (host : Host) (p : Platform) (eppValue : String) (numRequired : ℤ)
    (unavailableCores : List Core) : Except PyErr (Option (List Core)) :=
  host.eppCores eppValue numRequired (unavailableCores.map Core.coreId) [] p.cores

/-- The rounds of `get_epp_cores_no_limit`. -/
def eppCoresNoLimit (host : Host) (eppValue : String) : List Core → Except PyErr (List Core)
  | [] => .ok []
  | core :: cores => do
    let line ← host.eppLine core.coreId
    let rest ← eppCoresNoLimit host eppValue cores
    return if rstripText line = eppValue then core :: rest else rest

def getEppCoresNoLimit (host : Host) (p : Platform) (eppValue : String) :
    Except PyErr (List Core) := host.eppCoresNoLimit eppValue p.cores

end Host

/-- A loop over what `get_epp_cores` returned; there is none over `None`. -/
def overCores (cores : Option (List Core)) : Except PyErr (List Core) :=
  match cores with
  | some cores => .ok cores
  | none => .error .typeError

/-! ## The checks -/

def checkIsolatedCores (p : Platform) (numExclusive numShared : ℤ) : Except PyErr Unit :=
  if 0 < (p.getIsolatedCores "packed").length ∧
      (p.getIsolatedCores "packed").length < numExclusive + numShared then .error (.systemExit 1)
  else .ok ()

def checkSstCpIsolatedCores (host : Host) (p : Platform) (numExclusive numShared : ℤ)
    (eppOrder : List String) : Except PyErr Unit :=
  match eppOrder with
  | [high, middle, _] => do
    let exclusive ← host.getEppCoresNoLimit p high
    let shared ← host.getEppCoresNoLimit p middle
    if numExclusive ≠ exclusive.length ∨ numShared ≠ shared.length then .error (.systemExit 1)
    else return ()
  | [high, _] => do
    let cores ← host.getEppCoresNoLimit p high
    if cores.length ≠ numExclusive + numShared then .error (.systemExit 1) else return ()
  | _ => .ok ()

/-! ## The candidates -/

/-- The candidates for the pools `exclusive`, `shared` and `infra` on a node with SST-CP. -/
def sstCpCandidates (host : Host) (p : Platform) (numExclusive numShared : ℤ)
    (eppOrder : List String) : Except PyErr (List Core × List Core × List Core) :=
  match eppOrder with
  | [high, middle, low] => do
    let exclusive ← host.getEppCores p high numExclusive []
    let shared ← host.getEppCores p middle numShared []
    let infra ← host.getEppCoresNoLimit p low
    return (← overCores exclusive, ← overCores shared, infra)
  | [high, low] => do
    let exclusive ← host.getEppCores p high numExclusive [] >>= overCores
    let shared ← host.getEppCores p high numShared exclusive
    let infra ← host.getEppCoresNoLimit p low
    return (exclusive, ← overCores shared, infra)
  | _ => .error (.systemExit 1)

/-- What `configure` does with the platform it discovered. -/
def configurePlatform (host : Host) (sstBf sstCp : Bool) (p : Platform)
    (numExclusive numShared : ℤ) (exclusiveMode sharedMode exclNonIsolcpus : String) :
    Except PyErr Pools := do
  checkIsolatedCores p numExclusive numShared
  if sstCp && p.hasIsolatedCores then
    let eppOrder ← host.getEppOrder p
    if 3 < eppOrder.length then .error (.systemExit 1)
    else
      checkSstCpIsolatedCores host p numExclusive numShared eppOrder
      let (exclusive, shared, infra) ← sstCpCandidates host p numExclusive numShared eppOrder
      assignPools p exclusive shared infra numExclusive numShared exclNonIsolcpus noPools
  else if sstBf && p.hasIsolatedSstBfCores then
    assignPools p (p.getIsolatedSstBfCores exclusiveMode) (p.getIsolatedCores sharedMode)
      p.getSharedCores numExclusive numShared exclNonIsolcpus noPools
  else if p.hasIsolatedCores then
    assignPools p (p.getIsolatedCores exclusiveMode) (p.getIsolatedCores sharedMode)
      p.getSharedCores numExclusive numShared exclNonIsolcpus noPools
  else
    assignAll (p.getCores exclusiveMode) (p.getCores sharedMode) (p.getCores "packed") numExclusive
      numShared noPools

def configure (host : Host) (numExclusive numShared : ℤ)
    (exclusiveMode sharedMode exclNonIsolcpus : String) : Except PyErr (Platform × Pools) := do
  let sstBf ← host.hasLabel sstBfLabel
  let sstCp ← host.hasLabel sstCpLabel
  let p ← host.discover sstBf
  let pools ← configurePlatform host sstBf sstCp p numExclusive numShared exclusiveMode sharedMode
    exclNonIsolcpus
  return (p, pools)

/-! ## What `configure` returns -/

variable {host : Host} {p : Platform} {numExclusive numShared : ℕ}

theorem Candidates.of_sublist {cores : List Core} (hp : p.cores.Nodup) (h : cores.Sublist p.cores) :
    Candidates p cores := ⟨hp.sublist h, h.subset⟩

theorem Candidates.general (hp : p.cores.Nodup) (mode : String) (isolated sstBf : Bool) :
    Candidates p (p.getCoresGeneral mode isolated sstBf) := by
  have hperm := perm_getCoresGeneral p mode isolated sstBf
  refine ⟨hperm.nodup_iff.mpr (hp.filter _), fun c hc => ?_⟩
  exact List.mem_of_mem_filter (hperm.mem_iff.mp hc)

theorem Candidates.getSharedCores (hp : p.cores.Nodup) : Candidates p p.getSharedCores := by
  rw [getSharedCores_eq]
  exact .of_sublist hp List.filter_sublist

/-- Induction on the cores still to read; those found so far precede them. -/
theorem eppCores_sublist {eppValue : String} {n : ℤ} {unavailable : List ℤ}
    {found cores result : List Core}
    (h : host.eppCores eppValue n unavailable found cores = .ok (some result)) :
    result.Sublist (found ++ cores) := by
  induction cores generalizing found with
  | nil => nomatch h
  | cons core cores ih =>
    have hskip : (found ++ cores).Sublist (found ++ core :: cores) :=
      (List.sublist_cons_self core cores).append_left found
    rw [Host.eppCores] at h
    split at h
    · exact (ih h).trans hskip
    · obtain ⟨line, -, h⟩ := bind_eq_ok.mp h
      split at h
      · split at h
        · obtain rfl := Option.some.inj (pure_eq_ok.mp h)
          exact List.Sublist.append_left (by simp) found
        · have hsub := ih h
          rwa [List.append_assoc] at hsub
      · exact (ih h).trans hskip

theorem eppCoresNoLimit_sublist {eppValue : String} {cores result : List Core}
    (h : host.eppCoresNoLimit eppValue cores = .ok result) : result.Sublist cores := by
  induction cores generalizing result with
  | nil =>
    obtain rfl := Except.ok.inj h
    exact .slnil
  | cons core cores ih =>
    obtain ⟨line, -, h⟩ := bind_eq_ok.mp h
    obtain ⟨rest, hrest, h⟩ := bind_eq_ok.mp h
    obtain rfl := pure_eq_ok.mp h
    split
    · exact (ih hrest).cons_cons core
    · exact (ih hrest).cons core

theorem overCores_eq_ok {found : Option (List Core)} {cores : List Core} :
    overCores found = .ok cores ↔ found = some cores := by
  cases found <;> simp [overCores]

/-- What the candidates are read by, with three EPP values and with two. -/
theorem sstCpCandidates_ok {numExclusive numShared : ℤ} {eppOrder : List String}
    {exclusive shared infra : List Core}
    (h : sstCpCandidates host p numExclusive numShared eppOrder = .ok (exclusive, shared, infra)) :
    (∃ high middle low, eppOrder = [high, middle, low] ∧
      host.getEppCores p high numExclusive [] = .ok (some exclusive) ∧
      host.getEppCores p middle numShared [] = .ok (some shared) ∧
      host.getEppCoresNoLimit p low = .ok infra) ∨
    ∃ high low, eppOrder = [high, low] ∧
      host.getEppCores p high numExclusive [] = .ok (some exclusive) ∧
      host.getEppCores p high numShared exclusive = .ok (some shared) ∧
      host.getEppCoresNoLimit p low = .ok infra := by
  unfold sstCpCandidates at h
  split at h
  · obtain ⟨found, hfound, h⟩ := bind_eq_ok.mp h
    obtain ⟨found', hfound', h⟩ := bind_eq_ok.mp h
    obtain ⟨cores, hcores, h⟩ := bind_eq_ok.mp h
    obtain ⟨cores', hcores', h⟩ := bind_eq_ok.mp h
    obtain ⟨cores'', hcores'', h⟩ := bind_eq_ok.mp h
    obtain ⟨rfl, rfl, rfl⟩ : cores' = exclusive ∧ cores'' = shared ∧ cores = infra := by
      simpa [pure_eq_ok] using h
    obtain rfl := overCores_eq_ok.mp hcores'
    obtain rfl := overCores_eq_ok.mp hcores''
    exact .inl ⟨_, _, _, rfl, hfound, hfound', hcores⟩
  · obtain ⟨cores', hcores', h⟩ := bind_eq_ok.mp h
    obtain ⟨found, hfound, hcores'⟩ := bind_eq_ok.mp hcores'
    obtain ⟨found', hfound', h⟩ := bind_eq_ok.mp h
    obtain ⟨cores, hcores, h⟩ := bind_eq_ok.mp h
    obtain ⟨cores'', hcores'', h⟩ := bind_eq_ok.mp h
    obtain ⟨rfl, rfl, rfl⟩ : cores' = exclusive ∧ cores'' = shared ∧ cores = infra := by
      simpa [pure_eq_ok] using h
    obtain rfl := overCores_eq_ok.mp hcores'
    obtain rfl := overCores_eq_ok.mp hcores''
    exact .inr ⟨_, _, rfl, hfound, hfound', hcores⟩
  · nomatch h

/-- Cores read by EPP value are candidates, and so are all three lists of them. -/
theorem Candidates.sstCp (hp : p.cores.Nodup) {eppOrder : List String}
    {exclusive shared infra : List Core}
    (h : sstCpCandidates host p numExclusive numShared eppOrder = .ok (exclusive, shared, infra)) :
    Candidates p exclusive ∧ Candidates p shared ∧ Candidates p infra := by
  have hlimit : ∀ {eppValue n unavailable cores},
      host.getEppCores p eppValue n unavailable = .ok (some cores) → Candidates p cores :=
    fun h => .of_sublist hp (eppCores_sublist h)
  have hall : ∀ {eppValue cores}, host.getEppCoresNoLimit p eppValue = .ok cores →
      Candidates p cores := fun h => .of_sublist hp (eppCoresNoLimit_sublist h)
  rcases sstCpCandidates_ok h with ⟨high, middle, low, -, he, hs, hi⟩ | ⟨high, low, -, he, hs, hi⟩
  · exact ⟨hlimit he, hlimit hs, hall hi⟩
  · exact ⟨hlimit he, hlimit hs, hall hi⟩

/-- **Whichever branch is taken**, the pools are as they should be. -/
theorem assigned_configurePlatform (hp : p.cores.Nodup) {sstBf sstCp : Bool}
    {exclusiveMode sharedMode exclNonIsolcpus : String} {pools : Pools}
    (h : configurePlatform host sstBf sstCp p numExclusive numShared exclusiveMode sharedMode
      exclNonIsolcpus = .ok pools) : Assigned p numExclusive numShared exclNonIsolcpus pools := by
  obtain ⟨-, -, h⟩ := bind_eq_ok.mp h
  split at h
  · rename_i hcp
    obtain ⟨eppOrder, -, h⟩ := bind_eq_ok.mp h
    split at h
    · nomatch h
    · obtain ⟨-, -, h⟩ := bind_eq_ok.mp h
      obtain ⟨⟨exclusive, shared, infra⟩, hcand, h⟩ := bind_eq_ok.mp h
      obtain ⟨he, hs, hi⟩ := Candidates.sstCp hp hcand
      exact assigned_assignPools hp (Bool.and_eq_true_iff.mp hcp).2 he hs hi h
  · split at h
    · rename_i hbf
      refine assigned_assignPools hp ?_ (.general hp _ _ _) (.general hp _ _ _)
        (.getSharedCores hp) h
      exact hasIsolatedCores_of_sstBf (Bool.and_eq_true_iff.mp hbf).2
    · split at h
      · rename_i hisol
        exact assigned_assignPools hp hisol (.general hp _ _ _) (.general hp _ _ _)
          (.getSharedCores hp) h
      · rename_i hisol
        exact assigned_assignAll hp (Bool.not_eq_true _ ▸ hisol) (.general hp _ _ _)
          (.general hp _ _ _) (perm_getCores p _) h

/-- What `configure` returns is what one of the branches, chosen by the labels, makes of the
platform discovered. -/
theorem configure_eq_ok_iff {numExclusive numShared : ℤ}
    {exclusiveMode sharedMode exclNonIsolcpus : String} {pools : Pools} :
    configure host numExclusive numShared exclusiveMode sharedMode exclNonIsolcpus =
      .ok (p, pools) ↔ ∃ sstBf sstCp, host.hasLabel sstBfLabel = .ok sstBf ∧
        host.hasLabel sstCpLabel = .ok sstCp ∧ host.discover sstBf = .ok p ∧
          configurePlatform host sstBf sstCp p numExclusive numShared exclusiveMode sharedMode
            exclNonIsolcpus = .ok pools := by
  constructor
  · intro h
    obtain ⟨sstBf, hbf, h⟩ := bind_eq_ok.mp h
    obtain ⟨sstCp, hcp, h⟩ := bind_eq_ok.mp h
    obtain ⟨p', hdisc, h⟩ := bind_eq_ok.mp h
    obtain ⟨pools', hconf, h⟩ := bind_eq_ok.mp h
    obtain ⟨rfl, rfl⟩ := Prod.mk.inj (pure_eq_ok.mp h)
    exact ⟨sstBf, sstCp, hbf, hcp, hdisc, hconf⟩
  · rintro ⟨sstBf, sstCp, hbf, hcp, hdisc, hconf⟩
    refine bind_eq_ok.mpr ⟨sstBf, hbf, bind_eq_ok.mpr ⟨sstCp, hcp, ?_⟩⟩
    exact bind_eq_ok.mpr ⟨p, hdisc, bind_eq_ok.mpr ⟨pools, hconf, rfl⟩⟩

/-- What `configure` returns is what one of the branches makes of the platform discovered. -/
theorem configure_eq_ok {numExclusive numShared : ℤ}
    {exclusiveMode sharedMode exclNonIsolcpus : String} {pools : Pools}
    (h : configure host numExclusive numShared exclusiveMode sharedMode exclNonIsolcpus =
      .ok (p, pools)) : ∃ sstBf sstCp, host.hasLabel sstCpLabel = .ok sstCp ∧
        host.discover sstBf = .ok p ∧ configurePlatform host sstBf sstCp p numExclusive
          numShared exclusiveMode sharedMode exclNonIsolcpus = .ok pools := by
  obtain ⟨sstBf, sstCp, -, hcp, hdisc, hconf⟩ := configure_eq_ok_iff.mp h
  exact ⟨sstBf, sstCp, hcp, hdisc, hconf⟩

/-- The platform `configure` returns has its cores once, each under its socket. -/
theorem placed_of_discover {sstBf : Bool} (h : host.discover sstBf = .ok p) :
    ∀ s ∈ p.sockets.rows, ∀ core ∈ s.cores.rows, core.socketId = s.socketId := by
  obtain ⟨isol, -, h⟩ := bind_eq_ok.mp h
  obtain ⟨sstBfCpus, -, h⟩ := bind_eq_ok.mp h
  obtain ⟨lscpuOutput, -, hparse⟩ := bind_eq_ok.mp h
  obtain ⟨rs, -, hbuilt⟩ := built_of_parse hparse
  exact hbuilt.placed

/-- A platform discovered is a parsed one. -/
theorem parse_of_discover {sstBf : Bool} (h : host.discover sstBf = .ok p) :
    ∃ lscpuOutput isol sstBfCpus, host.lscpu = .ok lscpuOutput ∧
      parse lscpuOutput isol sstBfCpus = .ok p := by
  obtain ⟨isol, -, h⟩ := bind_eq_ok.mp h
  obtain ⟨sstBfCpus, -, h⟩ := bind_eq_ok.mp h
  obtain ⟨lscpuOutput, hout, hparse⟩ := bind_eq_ok.mp h
  exact ⟨lscpuOutput, isol, sstBfCpus, hout, hparse⟩

/-- **What `configure` returns** is a platform as it should be, and its pools are what one of the
branches makes of it. -/
theorem configure_ok {numExclusive numShared : ℤ}
    {exclusiveMode sharedMode exclNonIsolcpus : String} {pools : Pools}
    (hd : ∀ lscpuOutput, host.lscpu = .ok lscpuOutput → DistinctCpus lscpuOutput)
    (h : configure host numExclusive numShared exclusiveMode sharedMode exclNonIsolcpus =
      .ok (p, pools)) : p.Ok ∧ ∃ sstBf sstCp, configurePlatform host sstBf sstCp p numExclusive
        numShared exclusiveMode sharedMode exclNonIsolcpus = .ok pools := by
  obtain ⟨sstBf, sstCp, -, hdisc, hconf⟩ := configure_eq_ok h
  obtain ⟨lscpuOutput, isol, sstBfCpus, hout, hparse⟩ := parse_of_discover hdisc
  exact ⟨ok_of_parse (hd lscpuOutput hout) hparse, sstBf, sstCp, hconf⟩

end Cmk
