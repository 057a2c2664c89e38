import Cmk.Init.Partition
import Cmk.Isolate
import Cmk.Reconfigure.Keeps

/-!
# Reconfigure/Fits — when `reconfigure_directory` finds a place for everybody

The check before it counts the occupied lists of a pool against the cores requested for the whole
node; the loops after it place a list on its own socket only.  So they return exactly when every
socket has enough lists in every pool (`reconfigureDirectory_places_iff`), and the guarantee stated
over them fails as soon as a pool moves between sockets (`spread_has_no_place`).
-/

open Machinery Machinery.Seating Cmk.Topology

namespace Cmk

/-- The request of a reconfiguration, as `reconfigure_directory` gets it. -/
structure Request where
  numExclusiveCores : ℤ
  numSharedCores : ℤ
  exclusiveMode : String
  sharedMode : String
  exclNonIsolcpus : String

/-- `init.configure` on a request. -/
def Request.configure (req : Request) (host : Host) : Except PyErr (Platform × Pools) :=
  Cmk.configure host req.numExclusiveCores req.numSharedCores req.exclusiveMode req.sharedMode
    req.exclNonIsolcpus

/-- The check of a request against the occupied lists. -/
def Request.check (req : Request) (procInfo : List (ProcessInfo String)) : Except PyErr Unit := do
  let exclNonIsols ← parseCpusStr (splitText ',' req.exclNonIsolcpus)
  checkProcesses procInfo req.numExclusiveCores exclNonIsols.length

/-- `reconfigure_directory`, but for the patch of the node's resources between the new configuration
and the loops. -/
def reconfigureDirectory (host : Host) (req : Request) (procInfo : List (ProcessInfo String))
    (procs : Procs String) : Except PyErr (Conf String String × Procs String) := do
  let (platform, pools) ← req.configure host
  let conf ← buildConfig (newConfig platform pools req.exclNonIsolcpus)
  matching conf procInfo procs

/-- No socket has more occupied lists of a pool than the new configuration has lists there. -/
def Fits (old : Conf String String) (d : ConfDict String String) : Prop :=
  ∀ k : String × Scalar, old.occupied.countP (fun e => (e.pool, e.socket) = k) ≤
    d.entries.countP fun e => (e.pool, e.socket) = k

instance (old : Conf String String) (d : ConfDict String String) : Decidable (Fits old d) :=
  decidable_of_iff (∀ e ∈ old.occupied,
      old.occupied.countP (fun e' => (e'.pool, e'.socket) = (e.pool, e.socket)) ≤
        d.entries.countP fun e' => (e'.pool, e'.socket) = (e.pool, e.socket)) <| by
    refine ⟨fun h k => ?_, fun h e _ => h _⟩
    by_cases hk : ∃ e ∈ old.occupied, (e.pool, e.socket) = k
    · obtain ⟨e, he, rfl⟩ := hk
      exact h e he
    · have hzero : old.occupied.countP (fun e => (e.pool, e.socket) = k) = 0 :=
        List.countP_eq_zero.mpr fun e he heq => hk ⟨e, he, of_decide_eq_true heq⟩
      omega

variable {host : Host} {req : Request} {p : Platform} {pools : Pools}
  {old new' : Conf String String} {infos : List (ProcessInfo String)} {procs procs' : Procs String}

theorem buildProcInfo_ok (h : buildProcInfo old = .ok (infos, procs)) :
    infos = procInfo old ∧ procs = procsOf infos := by
  unfold buildProcInfo at h
  split at h
  · obtain ⟨rfl, rfl⟩ := Prod.mk.inj (Except.ok.inj h)
    exact ⟨rfl, rfl⟩
  · nomatch h

/-- **The new configuration is built**, with free lists and unique names. -/
theorem buildConfig_newConfig (hok : p.Ok) (pools : Pools) (exclNonIsolcpus : String) :
    ∃ new, buildConfig (newConfig p pools exclNonIsolcpus) = .ok new ∧
      new.entries = (newConfig p pools exclNonIsolcpus).entries ∧
      (∀ e ∈ new.entries, e.tasks = []) ∧ UniqueNames new.entries := by
  have hknown : ∀ pool ∈ (newConfig p pools exclNonIsolcpus).keys, (exclusivity pool).isSome := by
    rw [(encodes_newConfig hok pools exclNonIsolcpus).keys]
    unfold newPools
    split <;> decide
  have hbuild : buildConfig (newConfig p pools exclNonIsolcpus) = .ok _ := if_pos hknown
  have hent := entries_of_buildConfig hbuild
  have hfresh := fresh_newConfig hok pools exclNonIsolcpus
  exact ⟨_, hbuild, hent, hent ▸ hfresh.empty, hent ▸ hfresh.unique⟩

/-- What the directory step returns is what the loops return on the new configuration. -/
theorem reconfigureDirectory_eq (hconf : req.configure host = .ok (p, pools))
    {new : Conf String String}
    (hnew : buildConfig (newConfig p pools req.exclNonIsolcpus) = .ok new) :
    reconfigureDirectory host req infos procs = matching new infos procs := by
  rw [reconfigureDirectory, hconf]
  refine Eq.trans (b := buildConfig (newConfig p pools req.exclNonIsolcpus) >>= fun conf =>
    matching conf infos procs) rfl ?_
  rw [hnew]
  rfl

/-- The guests of a socket are its occupied lists. -/
theorem fits_iff {new : Conf String String} {d : ConfDict String String}
    (hnew : new.entries = d.entries) :
    (∀ k, (procInfo old).countP (ProcessInfo.wants · = k) ≤ new.seats.countP (Place.kind · = k)) ↔
      Fits old d := by
  refine forall_congr' fun k => ?_
  rw [procInfo_eq, List.countP_map, Conf.seats, List.countP_map, hnew]
  rfl

/-- **The directory step returns exactly when the old lists fit.** -/
theorem isOk_reconfigureDirectory_iff
    (hd : ∀ lscpuOutput, host.lscpu = .ok lscpuOutput → DistinctCpus lscpuOutput)
    (hconf : req.configure host = .ok (p, pools)) (hinfo : buildProcInfo old = .ok (infos, procs)) :
    IsOk (reconfigureDirectory host req infos procs) ↔
      Fits old (newConfig p pools req.exclNonIsolcpus) := by
  obtain ⟨new, hnew, hent, hempty, hu⟩ :=
    buildConfig_newConfig (configure_ok hd hconf).1 pools req.exclNonIsolcpus
  obtain ⟨rfl, rfl⟩ := buildProcInfo_ok hinfo
  rw [reconfigureDirectory_eq hconf hnew, ← fits_iff hent]
  exact isOk_matching_iff hu hempty (pid_ne_nil (.refl _)) (nodup_homes (.refl _))

/-- **Everybody finds a place exactly when every socket has one for its own**: for every node, every
old configuration and every request for which `configure` returns, the loops return with every group
on a list of its pool if and only if the old lists fit, socket by socket. -/
theorem reconfigureDirectory_places_iff (host : Host) (req : Request) (p : Platform) (pools : Pools)
    (hd : ∀ lscpuOutput, host.lscpu = .ok lscpuOutput → DistinctCpus lscpuOutput)
    (hconf : req.configure host = .ok (p, pools)) (old : Conf String String)
    (infos : List (ProcessInfo String)) (procs : Procs String)
    (hinfo : buildProcInfo old = .ok (infos, procs)) :
    (∃ new' procs', reconfigureDirectory host req infos procs = .ok (new', procs') ∧
      ∀ e ∈ old.entries, e.tasks ≠ [] → ∃ y ∈ new'.entries, y.pool = e.pool ∧ y.tasks = e.tasks) ↔
      Fits old (newConfig p pools req.exclNonIsolcpus) := by
  rw [← isOk_reconfigureDirectory_iff hd hconf hinfo]
  refine ⟨fun ⟨new', procs', h, _⟩ => ⟨_, h⟩, fun ⟨⟨new', procs'⟩, h⟩ => ⟨new', procs', h, ?_⟩⟩
  intro e he hne
  obtain ⟨new, hnew, -, hempty, hu⟩ :=
    buildConfig_newConfig (configure_ok hd hconf).1 pools req.exclNonIsolcpus
  obtain ⟨rfl, rfl⟩ := buildProcInfo_ok hinfo
  rw [reconfigureDirectory_eq hconf hnew] at h
  obtain ⟨st, hst, rfl, -⟩ := seated_of_matching hempty hu (.refl _) h
  obtain ⟨hy, hpool, htasks⟩ := hst.placed (mem_occupied.mpr ⟨he, hne⟩)
  exact ⟨_, (mem_occupied.mp hy).1, hpool, htasks⟩

/-! ## A pool that moves between sockets -/

/-- Two sockets with two isolated cores each, and one core more on the first. -/
def twoSockets : Host where
  nodeLabel _ := .error (.keyError none)
  cmdline := .ok "isolcpus=0-3"
  sstBfCpus := .ok []
  lscpu := .ok "# CPU,Core,Socket\n0,0,0\n1,1,0\n2,2,1\n3,3,1\n4,4,0\n"
  epp _ := .error .osError

theorem twoSockets_distinct (lscpuOutput : String) (h : twoSockets.lscpu = .ok lscpuOutput) :
    DistinctCpus lscpuOutput := by
  intro rs hrs
  obtain rfl := Except.ok.inj h
  have hread : records "# CPU,Core,Socket\n0,0,0\n1,1,0\n2,2,1\n3,3,1\n4,4,0\n" =
      .ok [⟨0, 0, 0⟩, ⟨1, 1, 0⟩, ⟨2, 2, 1⟩, ⟨3, 3, 1⟩, ⟨4, 4, 0⟩] := by rfl
  obtain rfl := Except.ok.inj (hread.symm.trans hrs)
  decide

/-- The node as `init` leaves it with two exclusive cores and one shared one, all packed. -/
def packedRequest : Request := ⟨2, 1, "packed", "packed", "-1"⟩

/-- The same, the exclusive cores spread. -/
def spreadRequest : Request := { packedRequest with exclusiveMode := "spread" }

/-- The packed node with a wrapper on each exclusive core, as two runs of `isolate` leave it. -/
def packedNode : Except PyErr (Conf String String) := do
  let (platform, pools) ← packedRequest.configure twoSockets
  let conf ← buildConfig (newConfig platform pools packedRequest.exclNonIsolcpus)
  let conf := (isolateSection ⟨"exclusive", some "-1"⟩ ⟨none, 0, fun _ => .ok 7⟩ conf).2
  return (isolateSection ⟨"exclusive", some "-1"⟩ ⟨none, 0, fun _ => .ok 8⟩ conf).2

/-- The configuration it has then. -/
def packedConf : Conf String String :=
  ⟨.ofList _ [
    ⟨true, "exclusive", .ofList _ [⟨.int 0, .ofList _ [⟨"0", ["7"]⟩, ⟨"1", ["8"]⟩]⟩,
      ⟨.int 1, .empty⟩]⟩,
    ⟨false, "shared", .ofList _ [⟨.int 0, .empty⟩, ⟨.int 1, .ofList _ [⟨"2", []⟩]⟩]⟩,
    ⟨false, "infra", .ofList _ [⟨.int 0, .ofList _ [⟨"4", []⟩]⟩, ⟨.int 1, .empty⟩]⟩]⟩

/-- The packed node reconfigured as it is. -/
theorem reconfigureDirectory_places_packed : ∃ new' procs',
    reconfigureDirectory twoSockets packedRequest (procInfo packedConf)
        (procsOf (procInfo packedConf)) = .ok (new', procs') ∧
      ∀ e ∈ packedConf.entries, e.tasks ≠ [] →
        ∃ y ∈ new'.entries, y.pool = e.pool ∧ y.tasks = e.tasks := by
  have hfits : ((packedRequest.configure twoSockets).toOption.map fun x =>
      decide (Fits packedConf (newConfig x.1 x.2 "-1"))) = some true := by decide
  cases hconf : packedRequest.configure twoSockets with
  | error err =>
    rw [hconf] at hfits
    nomatch hfits
  | ok x =>
    rw [hconf] at hfits
    exact (reconfigureDirectory_places_iff twoSockets packedRequest x.1 x.2 twoSockets_distinct
      hconf packedConf _ _ rfl).mpr (of_decide_eq_true (Option.some.inj hfits))

/-- The packed node spread: the request is accepted and configured, and the loops do not return. -/
theorem spread_has_no_place : packedNode.toOption = some packedConf ∧
    buildProcInfo packedConf = .ok (procInfo packedConf, procsOf (procInfo packedConf)) ∧
    IsOk (spreadRequest.check (procInfo packedConf)) ∧ IsOk (spreadRequest.configure twoSockets) ∧
    ¬ IsOk (reconfigureDirectory twoSockets spreadRequest (procInfo packedConf)
      (procsOf (procInfo packedConf))) := by
  have hfits : ((spreadRequest.configure twoSockets).toOption.map fun x =>
      decide (Fits packedConf (newConfig x.1 x.2 "-1"))) = some false := by decide
  refine ⟨by decide, rfl, ⟨(), rfl⟩, ?_⟩
  cases hconf : spreadRequest.configure twoSockets with
  | error err =>
    rw [hconf] at hfits
    nomatch hfits
  | ok x =>
    rw [hconf] at hfits
    refine ⟨⟨x, rfl⟩, fun h => ?_⟩
    have hno := of_decide_eq_false (Option.some.inj hfits)
    exact hno ((isOk_reconfigureDirectory_iff twoSockets_distinct hconf rfl).mp h)

end Cmk
