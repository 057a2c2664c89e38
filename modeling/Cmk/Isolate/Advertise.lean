import Cmk.Config.Yaml
import Cmk.Isolate
import Cmk.Proc

/-!
# Isolate/Advertise — what `isolate` tells its child

Between the allocation and the start of the child, `isolate` writes the names of the CPU lists into
`CMK_CPUS_ASSIGNED`, folds them into `CMK_CPUS_ASSIGNED_MASK` and sets the affinity of the process.
The mask is made of `int(n)` for every piece between commas, which a range is not, so the child
starts with descriptions that agree exactly when no range was allocated (`descriptions_agree_iff`).
-/

open Machinery

namespace Cmk

variable {τ : Type}

/-- What the child is started with: four environment variables, and the affinity unless it was not
to be set. -/
structure Launch where
  cpusAssigned : String
  cpusAssignedMask : String
  cpusShared : String
  cpusInfra : String
  affinity : Option (List ℤ)

/-- The names of all CPU lists of a pool; `pools[name]` raises if it is missing. -/
def poolNames (c : Conf Scalar τ) (pool : String) : Except PyErr String := do
  let p ← c.getPool pool
  let coreLists ← p.getCoreLists none
  joinNames (coreLists.map CoreList.coreId)

/-- The affinity that is set, unless it is not to be. -/
def setAffinity (cpuAffinity : List ℤ → Except PyErr Unit) (noAffinity : Bool) (cpuIds : String) :
    Except PyErr (Option (List ℤ)) :=
  if noAffinity then .ok none
  else do
    let cpuList ← unfoldCpuList cpuIds
    cpuAffinity cpuList
    return some cpuList

/-- The code of `isolate` from the unlock to the start of the child. -/
def launch (cpuAffinity : List ℤ → Except PyErr Unit) (noAffinity : Bool) (c : Conf Scalar τ)
    (clists : List Scalar) : Except PyErr Launch := do
  let cpuIds ← joinNames clists
  let cpusArr ← (splitText ',' cpuIds).mapM intOfStr
  let cpusBitMask ← convertArray2bitmask cpusArr
  let shared ← poolNames c "shared"
  let infra ← poolNames c "infra"
  let affinity ← setAffinity cpuAffinity noAffinity cpuIds
  return ⟨cpuIds, cpusBitMask, shared, infra, affinity⟩

/-- **The descriptions agree**: each denotes the CPUs of the lists allocated. -/
structure Agree (names : List String) (noAffinity : Bool) (l : Launch) : Prop where
  format : IsCpuList l.cpusAssigned
  assigned : ∀ i, i ∈ cpusIn l.cpusAssigned ↔ ∃ name ∈ names, i ∈ cpusIn name
  mask : ∃ m, hexNat? l.cpusAssignedMask = some m ∧
    ∀ i, m.testBit i = true ↔ ∃ name ∈ names, i ∈ cpusIn name
  set : l.affinity.isSome ↔ noAffinity = false
  affinity : ∀ cpus, l.affinity = some cpus →
    ∀ z, z ∈ cpus ↔ ∃ i : ℕ, z = i ∧ ∃ name ∈ names, i ∈ cpusIn name

/-- The pool is there and its CPU lists have texts for names. -/
def TextPool (c : Conf Scalar τ) (pool : String) : Prop :=
  ∃ p, c.getPool pool = .ok p ∧ ∀ name ∈ p.names, ∃ s, name = .str s

/-! ## The pools advertised -/

theorem isOk_poolNames {c : Conf Scalar τ} {pool : String} :
    IsOk (poolNames c pool) ↔ TextPool c pool := by
  rw [poolNames, isOk_bind]
  refine exists_congr fun p => and_congr_right fun _ => ?_
  rw [p.getCoreLists_none, isOk_bind, Pool.names]
  constructor
  · rintro ⟨coreLists, hcls, h⟩
    obtain rfl := Except.ok.inj hcls
    rw [isOk_joinNames, List.map_map] at h
    exact h
  · intro h
    refine ⟨_, rfl, ?_⟩
    rw [isOk_joinNames, List.map_map]
    exact h

/-! ## Reading the pieces -/

/-- **The pieces of a CPU list read as integers exactly when it has no hyphen**, and these are its
CPUs. -/
theorem mapM_intOfStr_iff {text : String} (h : IsCpuList text) (cpus : List ℤ) :
    (splitText ',' text).mapM intOfStr = .ok cpus ↔
      '-' ∉ text.toList ∧ cpus = (cpusIn text).map Int.ofNat := by
  obtain ⟨items, hitems⟩ := Option.isSome_iff_exists.mp h
  have hpieces : List.Forall₂ (fun piece item => cpuItem? piece = some item)
    (splitText ',' text) items := mapM_eq_some.mp hitems
  have hhyphen : '-' ∈ text.toList ↔ ∃ piece ∈ splitText ',' text, '-' ∈ piece.toList := by
    rw [← mem_joinText (by decide : '-' ≠ ','), joinText_splitText]
  rw [hhyphen, mapM_eq_ok, cpusIn, hitems, Option.getD_some]
  clear hitems hhyphen h
  generalize splitText ',' text = pieces at hpieces
  induction hpieces generalizing cpus with
  | nil => simp [List.forall₂_nil_left_iff]
  | @cons piece item pieces items hitem _ ih =>
    have hread := intOfText?_of_cpuItem? hitem
    by_cases hmem : '-' ∈ piece.toList
    · rw [if_pos hmem] at hread
      refine iff_of_false ?_ fun hno => hno.1 ⟨piece, List.mem_cons_self, hmem⟩
      rintro (_ | ⟨hok, _⟩)
      rw [intOfStr_eq_ok_iff, hread] at hok
      cases hok
    · rw [if_neg hmem] at hread
      obtain ⟨id, rfl, hid⟩ := hread
      have hstr : intOfStr piece = .ok (id : ℤ) := intOfStr_eq_ok_iff.mpr hid
      rw [List.forall₂_cons_left_iff]
      simp only [ih, List.exists_mem_cons_iff, hmem, false_or, hstr]
      constructor
      · rintro ⟨z, zs, hz, ⟨hno, rfl⟩, rfl⟩
        exact ⟨hno, by rw [← Except.ok.inj hz]; rfl⟩
      · rintro ⟨hno, rfl⟩
        exact ⟨id, _, rfl, ⟨hno, rfl⟩, rfl⟩

/-- **The descriptions of the assignment agree** and the child is started exactly when no list that
was allocated has a range in its name, and the shared and infra pools are there to be advertised. -/
theorem descriptions_agree_iff (c : Conf Scalar τ) (names : List String) (noAffinity : Bool)
    (cpuAffinity : List ℤ → Except PyErr Unit) (hne : names ≠ [])
    (hnames : ∀ name ∈ names, IsCpuList name)
    (hset : ∀ cpus : List ℤ, (∀ z, z ∈ cpus ↔ ∃ i : ℕ, z = i ∧ ∃ name ∈ names, i ∈ cpusIn name) →
      cpuAffinity cpus = .ok ()) :
    (∃ l, launch cpuAffinity noAffinity c (names.map .str) = .ok l ∧ Agree names noAffinity l) ↔
      (∀ name ∈ names, '-' ∉ name.toList) ∧ TextPool c "shared" ∧ TextPool c "infra" := by
  have hlist : IsCpuList (joinText ',' names) := isCpuList_joinText hne hnames
  have hcpus : ∀ i, i ∈ cpusIn (joinText ',' names) ↔ ∃ name ∈ names, i ∈ cpusIn name := fun i => by
    rw [cpusIn_joinText hne hnames, List.mem_flatMap]
  have hhyphen : '-' ∉ (joinText ',' names).toList ↔ ∀ name ∈ names, '-' ∉ name.toList := by
    rw [mem_joinText (by decide)]
    push Not
    rfl
  rw [← hhyphen, ← isOk_poolNames, ← isOk_poolNames]
  constructor
  · rintro ⟨l, hl, -⟩
    obtain ⟨cpuIds, hids, hl⟩ := bind_eq_ok.mp hl
    obtain rfl := Except.ok.inj ((joinNames_str names).symm.trans hids)
    obtain ⟨cpusArr, harr, hl⟩ := bind_eq_ok.mp hl
    obtain ⟨mask, -, hl⟩ := bind_eq_ok.mp hl
    obtain ⟨shared, hshared, hl⟩ := bind_eq_ok.mp hl
    obtain ⟨infra, hinfra, -⟩ := bind_eq_ok.mp hl
    exact ⟨((mapM_intOfStr_iff hlist _).mp harr).1, ⟨shared, hshared⟩, ⟨infra, hinfra⟩⟩
  · rintro ⟨hno, ⟨shared, hshared⟩, ⟨infra, hinfra⟩⟩
    obtain ⟨mask, hmask, hbits⟩ := convertArray2bitmask_spec (cpusIn (joinText ',' names))
    have harr := (mapM_intOfStr_iff hlist _).mpr ⟨hno, rfl⟩
    have hmaskAgree : ∃ m, hexNat? (hexText mask) = some m ∧
        ∀ i, m.testBit i = true ↔ ∃ name ∈ names, i ∈ cpusIn name :=
      ⟨mask, hexNat?_hexText mask, fun i => by rw [hbits, decide_eq_true_eq, hcpus]⟩
    have hstart : ∀ affinity, setAffinity cpuAffinity noAffinity (joinText ',' names) =
        .ok affinity → launch cpuAffinity noAffinity c (names.map .str) =
          .ok ⟨joinText ',' names, hexText mask, shared, infra, affinity⟩ := fun affinity h =>
      bind_eq_ok.mpr ⟨_, joinNames_str names, bind_eq_ok.mpr ⟨_, harr, bind_eq_ok.mpr ⟨_, hmask,
        bind_eq_ok.mpr ⟨_, hshared, bind_eq_ok.mpr ⟨_, hinfra, bind_eq_ok.mpr ⟨_, h, rfl⟩⟩⟩⟩⟩⟩
    cases noAffinity with
    | true => exact ⟨_, hstart none rfl, hlist, hcpus, hmaskAgree, by simp, by simp⟩
    | false =>
      have haffinity : ∀ z, z ∈ (cpusIn (joinText ',' names)).map Int.ofNat ↔
          ∃ i : ℕ, z = i ∧ ∃ name ∈ names, i ∈ cpusIn name := by
        intro z
        simp only [List.mem_map, hcpus, and_comm, eq_comm (a := z)]
        rfl
      have hthere : setAffinity cpuAffinity false (joinText ',' names) =
          .ok (some ((cpusIn (joinText ',' names)).map Int.ofNat)) :=
        bind_eq_ok.mpr ⟨_, unfoldCpuList_eq hlist, bind_eq_ok.mpr ⟨(), hset _ haffinity, rfl⟩⟩
      exact ⟨_, hstart _ hthere, hlist, hcpus, hmaskAgree, by simp,
        fun cpus h => Option.some.inj h ▸ haffinity⟩

/-- A configuration with the two pools `isolate` advertises. -/
def advertised : Conf Scalar Yaml :=
  ⟨.ofList _ [⟨false, "shared", .ofList _ [⟨.int 0, .ofList _ [⟨.str "2,3", []⟩]⟩]⟩,
    ⟨false, "infra", .ofList _ [⟨.int 0, .ofList _ [⟨.str "4,5", []⟩]⟩]⟩]⟩

theorem descriptions_agree_advertised :
    (∃ l, launch (fun _ => .ok ()) false advertised (["0,6", "1,7"].map .str) = .ok l ∧
      Agree ["0,6", "1,7"] false l) ↔
      (∀ name ∈ ["0,6", "1,7"], '-' ∉ name.toList) ∧ TextPool advertised "shared" ∧
        TextPool advertised "infra" :=
  descriptions_agree_iff advertised _ false _ (by decide) (by decide) fun _ _ => rfl

/-- The list `0-2` is allocated, and the child is not started. -/
theorem range_starts_no_child :
    ¬ ∃ l, launch (fun _ => .ok ()) false advertised (["0-2"].map .str) = .ok l ∧
      Agree ["0-2"] false l := by
  rintro ⟨l, hl, -⟩
  have hraises : launch (fun _ => .ok ()) false advertised (["0-2"].map .str) =
    .error (.valueError none) := by rfl
  cases hraises.symm.trans hl

end Cmk
