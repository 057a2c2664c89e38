import Cmk.Init.Isolated
import Cmk.Machinery.CpuList

/-!
# Init/Excl — the operator's list of cores, checked and decoded

`check_excl_non_isolcpus` checks the pieces of the list and `parse_cpus_str` decodes it, each in its
own way.  What passes the check but is no id and no ascending range is left out without notice
(`Dropped`); so the list is honoured exactly when no accepted list has such an item
(`excl_honoured_iff`).
-/

open Machinery Machinery.Deal Cmk.Topology

namespace Cmk

/-! ## What a list says -/

/-- A number in decimal digits, of any script. -/
def decimalId? (s : String) : Option ℕ := if isDigitText s then natOfDigits? s.toList else none

/-- An id, or a range from an id to one not smaller. -/
def exclItem? (item : String) : Option CpuItem :=
  match splitText '-' item with
  | [id] => (decimalId? id).map .one
  | [first, last] => (decimalId? first).bind fun a => (decimalId? last).bind fun b =>
      if a ≤ b then some (.range a b) else none
  | _ => none

/-- The items of a well-formed list. -/
def exclList? (s : String) : Option (List CpuItem) := (splitText ',' s).mapM exclItem?

/-- The ids that are decoded of an item. -/
def decodedIds (item : String) : List ℕ :=
  match splitText '-' item with
  | [id] => (decimalId? id).toList
  | [first, last] => (decimalId? first).toList.flatMap fun a =>
      (decimalId? last).toList.flatMap fun b => (CpuItem.range a b).cpus
  | _ => []

/-- Three numbers or more, or a range whose end is before its start. -/
def Dropped (item : String) : Prop :=
  3 ≤ (splitText '-' item).length ∨ ∃ first last a b, splitText '-' item = [first, last] ∧
    decimalId? first = some a ∧ decimalId? last = some b ∧ b < a

/-- The list is digits, commas and dashes, what is decoded of it are numbers, and these are cores
without a pool and not isolated. -/
structure Accepted (p : Platform) (pools : Pools) (s : String) : Prop where
  digits : ∀ item ∈ splitText ',' s, ∀ piece ∈ splitText '-' item, isDigitText piece = true
  numbers : ∀ item ∈ splitText ',' s, (splitText '-' item).length ≤ 2 →
    ∀ piece ∈ splitText '-' item, (decimalId? piece).isSome
  free : ∀ id ∈ (splitText ',' s).flatMap decodedIds, ∃ core ∈ p.cores,
    core.coreId = (id : ℤ) ∧ pools core = none ∧ core.isIsolated = false

/-- The list is well formed, its cores were free and not isolated, and just these have moved. -/
def ExclMoved (p : Platform) (s : String) (pools pools' : Pools) : Prop :=
  ∃ items, exclList? s = some items ∧
    (∀ id ∈ items.flatMap CpuItem.cpus, ∃ core ∈ p.cores,
      core.coreId = (id : ℤ) ∧ pools core = none ∧ core.isIsolated = false) ∧
    ∀ core ∈ p.cores, pools' core =
      if core.coreId ∈ (items.flatMap CpuItem.cpus).map Nat.cast then
        some "exclusive-non-isolcpus" else pools core

/-! ## The check as it changes the pools -/

/-- `assign_excl_non_isolcpus`, with the pools as they are at every point. -/
def assignExclRun (cores : List Core) (pool : String) (parsedCpus : List ℤ) :
    ExceptT PyErr (StateM Pools) Unit :=
  if parsedCpus.filter (fun c => (cores.length : ℤ) ≤ c) ≠ [] then
    throw (.runtimeError ("Following physical cores not on system: " ++
      reprInts (parsedCpus.filter fun c => (cores.length : ℤ) ≤ c) ++
      "; you may be including logical CPUs of each core"))
  else
    let coresToAssign := cores.filter fun c => c.coreId ∈ parsedCpus
    get >>= fun pools =>
      if coresToAssign.filter (fun c => pools c ≠ none) ≠ [] then
        throw (.runtimeError ("Core(s) have already been assigned to pool(s): " ++
          reprInts ((coresToAssign.filter fun c => pools c ≠ none).map Core.coreId) ++
          ", cannot add them to exclusive-non-isolcpus pool"))
      else if coresToAssign.filter Core.isIsolated ≠ [] then
        throw (.runtimeError ("Isolated cores " ++
          reprInts ((coresToAssign.filter Core.isIsolated).map Core.coreId) ++
          " cannot be placed in exclusive-non-isolcpus pool"))
      else coresToAssign.forM fun c => modify fun pools => mark pools [c] pool

/-- `check_excl_non_isolcpus`, with the pools as they are at every point. -/
def checkExclRun (exclNonIsolcpus : String) (p : Platform) : ExceptT PyErr (StateM Pools) Unit :=
  if exclNonIsolcpus = "-1" then pure ()
  else
    match (exclPieces exclNonIsolcpus).find? fun cpu => !isDigitText cpu with
    | some cpu => throw (.runtimeError ("Invalid core ID: " ++ cpu))
    | none =>
      match parseCpusStr (splitText ',' exclNonIsolcpus) with
      | .error err => throw err
      | .ok cpus => assignExclRun (p.getCores "packed") "exclusive-non-isolcpus" cpus

/-- How a call ends and what it leaves, if it changes the pools at its end only. -/
def outcome (pools : Pools) : Except PyErr Pools → Except PyErr Unit × Pools
  | .ok pools' => (.ok (), pools')
  | .error err => (.error err, pools)

variable {p : Platform} {cores chosen : List Core} {pools pools' : Pools} {pool s item : String}

theorem outcome_eq_ok {x : Except PyErr Pools} :
    outcome pools x = (.ok (), pools') ↔ x = .ok pools' := by
  cases x <;> simp [outcome]

theorem outcome_eq_error {x : Except PyErr Pools} {e : PyErr}
    (h : outcome pools x = (.error e, pools')) : pools' = pools := by
  cases x <;> simp_all [outcome]

theorem forM_mark (pools : Pools) :
    ((chosen.forM fun c => modify fun pools => mark pools [c] pool :
      ExceptT PyErr (StateM Pools) Unit).run.run pools) = (.ok (), mark pools chosen pool) := by
  induction chosen generalizing pools with
  | nil => rfl
  | cons c chosen ih =>
    have hstep : mark pools (c :: chosen) pool = mark (mark pools [c] pool) chosen pool := by
      funext c'
      simp only [mark, List.mem_cons, List.not_mem_nil, or_false]
      by_cases h : c' = c <;> by_cases h' : c' ∈ chosen <;> simp [h, h']
    rw [hstep, ← ih]
    rfl

theorem run_get_bind (k : Pools → ExceptT PyErr (StateM Pools) Unit) (pools : Pools) :
    (get >>= k).run.run pools = (k pools).run.run pools := rfl

/-- **All checks come before the first change.** -/
theorem assignExclRun_eq (cores : List Core) (pool : String) (parsedCpus : List ℤ)
    (pools : Pools) : (assignExclRun cores pool parsedCpus).run.run pools =
      outcome pools (assignExclNonIsolcpus cores pool parsedCpus pools) := by
  rw [assignExclRun, assignExclNonIsolcpus]
  by_cases h₁ : parsedCpus.filter (fun c => (cores.length : ℤ) ≤ c) ≠ []
  · rw [if_pos h₁, if_pos h₁]
    rfl
  · rw [if_neg h₁, if_neg h₁, run_get_bind]
    by_cases h₂ : (cores.filter fun c => c.coreId ∈ parsedCpus).filter
        (fun c => pools c ≠ none) ≠ []
    · rw [if_pos h₂, if_pos h₂]
      rfl
    · rw [if_neg h₂, if_neg h₂]
      by_cases h₃ : (cores.filter fun c => c.coreId ∈ parsedCpus).filter Core.isIsolated ≠ []
      · rw [if_pos h₃, if_pos h₃]
        rfl
      · rw [if_neg h₃, if_neg h₃, forM_mark]
        rfl

theorem checkExclRun_eq (s : String) (p : Platform) (pools : Pools) :
    (checkExclRun s p).run.run pools = outcome pools (checkExclNonIsolcpus s p pools) := by
  rw [checkExclRun, checkExclNonIsolcpus]
  by_cases hs : s = "-1"
  · rw [if_pos hs, if_pos hs]
    rfl
  · rw [if_neg hs, if_neg hs]
    cases (exclPieces s).find? fun cpu => !isDigitText cpu with
    | some cpu => rfl
    | none =>
      cases parseCpusStr (splitText ',' s) with
      | error err => rfl
      | ok cpus => exact assignExclRun_eq _ _ _ _

/-! ## The two parsers -/

/-- An item too short to be split has no piece of digits on one side of its dash. -/
theorem digits_of_short (h : item.length ≤ 2) :
    isDigitText item = true ↔ ∀ piece ∈ splitText '-' item, isDigitText piece = true := by
  by_cases hdash : '-' ∈ item.toList
  · refine iff_of_false (fun hd => (isDigitText_char hd hdash).2.1 rfl) fun hall => ?_
    obtain ⟨x, y, rfl⟩ := exists_append_of_mem hdash
    rw [splitText_append, List.forall_mem_append] at hall
    have hempty : x = "" ∨ y = "" := by
      rw [← String.length_toList] at h
      simp only [String.toList_append, String.toList_ofList, List.length_append,
        List.length_singleton, String.length_toList] at h
      rw [← String.length_eq_zero_iff, ← String.length_eq_zero_iff]
      omega
    rcases hempty with rfl | rfl
    · exact absurd (hall.1 "" (by decide)) (by decide)
    · exact absurd (hall.2 "" (by decide)) (by decide)
  · rw [splitText_eq_singleton hdash, List.forall_mem_singleton]

/-- **What the check looks at** are the pieces between the dashes. -/
theorem exclPieces_digits : (∀ piece ∈ exclPieces s, isDigitText piece = true) ↔
    ∀ item ∈ splitText ',' s, ∀ piece ∈ splitText '-' item, isDigitText piece = true := by
  rw [exclPieces, List.forall_mem_flatMap]
  refine forall₂_congr fun item _ => ?_
  by_cases h : item.length > 2
  · rw [if_pos h]
  · rw [if_neg h, List.forall_mem_singleton]
    exact digits_of_short (not_lt.mp h)

theorem intOfStr_eq_ok {piece : String} (h : isDigitText piece = true) {z : ℤ} :
    intOfStr piece = .ok z ↔ ∃ n, decimalId? piece = some n ∧ (n : ℤ) = z := by
  rw [intOfStr_eq_ok_iff, intOfText?_of_isDigitText h, decimalId?, if_pos h]
  cases natOfDigits? piece.toList <;> simp

/-- What is decoded of an id. -/
theorem parseCpusStr_cons_id {rest : List String} {cpus : List ℤ} (hdash : '-' ∉ item.toList)
    (hd : isDigitText item = true) :
    parseCpusStr (item :: rest) = .ok cpus ↔ (decimalId? item).isSome ∧
      ∃ cpus', parseCpusStr rest = .ok cpus' ∧
        (decimalId? item).toList.map Nat.cast ++ cpus' = cpus := by
  rw [parseCpusStr_cons_int hdash]
  simp only [bind_eq_ok, pure_eq_ok, intOfStr_eq_ok hd]
  constructor
  · rintro ⟨_, ⟨n, hn, rfl⟩, cpus', hrest, rfl⟩
    exact ⟨by simp [hn], cpus', hrest, by simp [hn]⟩
  · rintro ⟨hsome, cpus', hrest, rfl⟩
    obtain ⟨n, hn⟩ := Option.isSome_iff_exists.mp hsome
    exact ⟨n, ⟨n, hn, rfl⟩, cpus', hrest, by simp [hn]⟩

/-- What is decoded of a range. -/
theorem parseCpusStr_cons_ends {rest : List String} {cpus : List ℤ} {first last : String}
    (hdash : '-' ∈ item.toList) (hsplit : splitText '-' item = [first, last])
    (hends : splitSpace (joinWith " " (splitText '-' item)) = [first, last])
    (hfirst : isDigitText first = true) (hlast : isDigitText last = true) :
    parseCpusStr (item :: rest) = .ok cpus ↔
      ((decimalId? first).isSome ∧ (decimalId? last).isSome) ∧
      ∃ cpus', parseCpusStr rest = .ok cpus' ∧
        (decodedIds item).map Nat.cast ++ cpus' = cpus := by
  have hrange : ∀ a b : ℕ, pyRange a (b + 1) = (CpuItem.range a b).cpus.map Nat.cast :=
    pyRange_natCast
  rw [parseCpusStr_cons_range hdash hends, decodedIds, hsplit]
  simp only [bind_eq_ok, pure_eq_ok, intOfStr_eq_ok hfirst, intOfStr_eq_ok hlast]
  constructor
  · rintro ⟨_, ⟨a, ha, rfl⟩, _, ⟨b, hb, rfl⟩, cpus', hrest, rfl⟩
    refine ⟨⟨by rw [ha]; rfl, by rw [hb]; rfl⟩, cpus', hrest, ?_⟩
    rw [ha, hb, hrange]
    simp
  · rintro ⟨⟨hsomeFirst, hsomeLast⟩, cpus', hrest, rfl⟩
    obtain ⟨a, ha⟩ := Option.isSome_iff_exists.mp hsomeFirst
    obtain ⟨b, hb⟩ := Option.isSome_iff_exists.mp hsomeLast
    refine ⟨a, ⟨a, ha, rfl⟩, b, ⟨b, hb, rfl⟩, cpus', hrest, ?_⟩
    rw [ha, hb, hrange]
    simp

/-- What is decoded of the first item: an id, a range, or nothing of three parts or more. -/
theorem parseCpusStr_cons {rest : List String} {cpus : List ℤ}
    (hd : ∀ piece ∈ splitText '-' item, isDigitText piece = true) :
    parseCpusStr (item :: rest) = .ok cpus ↔
      ((splitText '-' item).length ≤ 2 →
        ∀ piece ∈ splitText '-' item, (decimalId? piece).isSome) ∧
      ∃ cpus', parseCpusStr rest = .ok cpus' ∧
        (decodedIds item).map Nat.cast ++ cpus' = cpus := by
  by_cases hdash : '-' ∈ item.toList
  · have hjoin : splitSpace (joinWith " " (splitText '-' item)) = splitText '-' item :=
      splitSpace_joinWith fun piece hp => ⟨fun he => absurd (he ▸ hd piece hp) (by decide),
        fun c hc => (isDigitText_char (hd piece hp) hc).1⟩
    by_cases hends : (splitText '-' item).length = 2
    · obtain ⟨first, last, hsplit⟩ := List.length_eq_two.mp hends
      rw [hsplit] at hd
      rw [parseCpusStr_cons_ends hdash hsplit (hjoin.trans hsplit) (hd first (.head _))
        (hd last (.tail _ (.head _))), hsplit]
      simp
    · have hlong : 2 < (splitText '-' item).length :=
        lt_of_le_of_ne (mem_toList_iff.mp hdash) (Ne.symm hends)
      have hskip : parseCpusStr (item :: rest) = parseCpusStr rest :=
        parseCpusStr_cons_skipped hdash (by rwa [hjoin])
      have hnone : decodedIds item = [] := by
        rw [decodedIds]
        split <;> simp_all
      rw [hskip, hnone]
      simp [hlong.not_ge]
  · have hone := splitText_eq_singleton hdash
    rw [hone, List.forall_mem_singleton] at hd
    rw [parseCpusStr_cons_id hdash hd, decodedIds, hone, List.forall_mem_singleton]
    exact and_congr_left fun _ => (imp_iff_right (by simp)).symm

/-- **What is decoded** of pieces of digits. -/
theorem parseCpusStr_eq_ok {items : List String} {cpus : List ℤ}
    (hd : ∀ item ∈ items, ∀ piece ∈ splitText '-' item, isDigitText piece = true) :
    parseCpusStr items = .ok cpus ↔
      (∀ item ∈ items, (splitText '-' item).length ≤ 2 →
        ∀ piece ∈ splitText '-' item, (decimalId? piece).isSome) ∧
      (items.flatMap decodedIds).map Nat.cast = cpus := by
  induction items generalizing cpus with
  | nil => simp [parseCpusStr]
  | cons item items ih =>
    obtain ⟨hitem, hitems⟩ := List.forall_mem_cons.mp hd
    rw [parseCpusStr_cons hitem, List.forall_mem_cons, List.flatMap_cons, List.map_append,
      and_assoc]
    refine and_congr_right fun _ => ?_
    constructor
    · rintro ⟨cpus', hrest, rfl⟩
      obtain ⟨hnumbers, rfl⟩ := (ih hitems).mp hrest
      exact ⟨hnumbers, rfl⟩
    · rintro ⟨hnumbers, rfl⟩
      exact ⟨_, (ih hitems).mpr ⟨hnumbers, rfl⟩, rfl⟩

/-! ## When the list is honoured -/

/-- The core ids are `0 .. n - 1`, each once. -/
def Numbered (p : Platform) : Prop :=
  (p.cores.map Core.coreId).Perm ((List.range p.cores.length).map Nat.cast)

instance (p : Platform) : Decidable (Numbered p) :=
  inferInstanceAs (Decidable (List.Perm _ _))

theorem Numbered.ext (hids : Numbered p) {core core' : Core} (hc : core ∈ p.cores)
    (hc' : core' ∈ p.cores) (h : core.coreId = core'.coreId) : core = core' := by
  have hnd : (p.cores.map Core.coreId).Nodup :=
    hids.nodup_iff.mpr (List.nodup_range.map Nat.cast_injective)
  exact List.inj_on_of_nodup_map hnd hc hc' h

theorem Numbered.exists_iff (hids : Numbered p) {id : ℕ} :
    (∃ core ∈ p.cores, core.coreId = (id : ℤ)) ↔ id < p.cores.length := by
  rw [← List.mem_map, hids.mem_iff]
  simp

/-- That every id is one of a core with a property, as the code checks it: no id is too large, and
the cores with one of the ids have the property. -/
theorem Numbered.forall_ids_iff (hids : Numbered p) {P : Core → Prop} {ids : List ℕ} :
    (∀ id ∈ ids, ∃ core ∈ p.cores, core.coreId = (id : ℤ) ∧ P core) ↔
      (∀ z ∈ (ids.map Nat.cast : List ℤ), z < p.cores.length) ∧
        ∀ c ∈ p.cores, c.coreId ∈ (ids.map Nat.cast : List ℤ) → P c := by
  constructor
  · refine fun h => ⟨fun z hz => ?_, fun c hc hm => ?_⟩
    · obtain ⟨id, hid, rfl⟩ := List.mem_map.mp hz
      obtain ⟨core, hc, he, -⟩ := h id hid
      exact Nat.cast_lt.mpr (hids.exists_iff.mp ⟨core, hc, he⟩)
    · obtain ⟨id, hid, he⟩ := List.mem_map.mp hm
      obtain ⟨core, hc', he', hcore⟩ := h id hid
      exact hids.ext hc' hc (he'.trans he) ▸ hcore
  · rintro ⟨hlt, hall⟩ id hid
    obtain ⟨core, hc, he⟩ := hids.exists_iff.mpr
      (Nat.cast_lt.mp (hlt id (List.mem_map_of_mem hid)))
    exact ⟨core, hc, he, hall core hc (he ▸ List.mem_map_of_mem hid)⟩

/-- **What the check accepts**, and what it does then. -/
theorem checkExclNonIsolcpus_eq_ok (hids : Numbered p) (hs : s ≠ "-1") :
    checkExclNonIsolcpus s p pools = .ok pools' ↔ Accepted p pools s ∧
      mark pools (p.cores.filter fun c =>
        c.coreId ∈ ((splitText ',' s).flatMap decodedIds).map Nat.cast)
          "exclusive-non-isolcpus" = pools' := by
  have hfind : (exclPieces s).find? (fun cpu => !isDigitText cpu) = none ↔
      ∀ item ∈ splitText ',' s, ∀ piece ∈ splitText '-' item, isDigitText piece = true := by
    rw [← exclPieces_digits, List.find?_eq_none]
    simp
  have hcores : p.getCores "packed" = p.cores := by
    rfl
  rw [checkExclNonIsolcpus, if_neg hs]
  by_cases hdigits : ∀ item ∈ splitText ',' s, ∀ piece ∈ splitText '-' item,
      isDigitText piece = true
  · simp only [hfind.mpr hdigits, bind_eq_ok, parseCpusStr_eq_ok hdigits, hcores,
      assignExclNonIsolcpus_eq_ok]
    constructor
    · rintro ⟨_, ⟨hnumbers, rfl⟩, hlt, hall, rfl⟩
      exact ⟨⟨hdigits, hnumbers, hids.forall_ids_iff.mpr ⟨hlt, hall⟩⟩, rfl⟩
    · rintro ⟨h, rfl⟩
      obtain ⟨hlt, hall⟩ := hids.forall_ids_iff.mp h.free
      exact ⟨_, ⟨h.numbers, rfl⟩, hlt, hall, rfl⟩
  · refine iff_of_false (fun h => ?_) fun h => hdigits h.1.digits
    obtain ⟨cpu, hcpu⟩ := Option.ne_none_iff_exists'.mp (mt hfind.mp hdigits)
    simp [hcpu] at h

/-- **An item is well formed** exactly when it is not dropped. -/
theorem exclItem?_isSome (hn : (splitText '-' item).length ≤ 2 →
      ∀ piece ∈ splitText '-' item, (decimalId? piece).isSome) :
    (exclItem? item).isSome ↔ ¬ Dropped item := by
  rw [exclItem?, Dropped]
  have hne := splitText_ne_nil '-' item
  generalize splitText '-' item = pieces at hn hne ⊢
  match pieces with
  | [id] => simpa using hn (by simp) id (.head _)
  | [first, last] =>
    obtain ⟨a, ha⟩ := Option.isSome_iff_exists.mp (hn le_rfl first (.head _))
    obtain ⟨b, hb⟩ := Option.isSome_iff_exists.mp (hn le_rfl last (.tail _ (.head _)))
    by_cases hab : a ≤ b <;> simp [ha, hb, hab]
  | _ :: _ :: _ :: _ => simp

/-- All of a well-formed item is decoded. -/
theorem decodedIds_eq {x : CpuItem} (h : exclItem? item = some x) : decodedIds item = x.cpus := by
  rw [exclItem?] at h
  rw [decodedIds]
  generalize splitText '-' item = pieces at h ⊢
  match pieces with
  | [] => cases h
  | [id] =>
    obtain ⟨n, hn, rfl⟩ := Option.map_eq_some_iff.mp h
    simp [hn, CpuItem.cpus]
  | [first, last] =>
    obtain ⟨a, ha, h⟩ := Option.bind_eq_some_iff.mp h
    obtain ⟨b, hb, h⟩ := Option.bind_eq_some_iff.mp h
    split at h
    · obtain rfl := Option.some.inj h
      simp [ha, hb]
    · cases h
  | _ :: _ :: _ :: _ => cases h

theorem flatMap_cpus {items : List CpuItem} (h : exclList? s = some items) :
    items.flatMap CpuItem.cpus = (splitText ',' s).flatMap decodedIds := by
  rw [exclList?, mapM_eq_some] at h
  generalize splitText ',' s = texts at h ⊢
  induction h with
  | nil => rfl
  | cons hx _ ih => rw [List.flatMap_cons, List.flatMap_cons, ih, decodedIds_eq hx]

/-- **The operator's list is honoured** — whenever it is not refused, it is well formed and its
cores, no others, have moved — exactly when an accepted list has no item that is dropped. -/
theorem excl_honoured_iff (p : Platform) (pools : Pools) (s : String) (hids : Numbered p)
    (hs : s ≠ "-1") :
    ((∀ e pools', (checkExclRun s p).run.run pools = (.error e, pools') → pools' = pools) ∧
      ∀ pools', (checkExclRun s p).run.run pools = (.ok (), pools') →
        ExclMoved p s pools pools') ↔
      (Accepted p pools s → ∀ item ∈ splitText ',' s, ¬ Dropped item) := by
  have hok : ∀ pools', (checkExclRun s p).run.run pools = (.ok (), pools') ↔
      checkExclNonIsolcpus s p pools = .ok pools' :=
    fun pools' => (checkExclRun_eq s p pools).symm ▸ outcome_eq_ok
  have herror : ∀ e pools', (checkExclRun s p).run.run pools = (.error e, pools') →
      pools' = pools :=
    fun e pools' h => outcome_eq_error ((checkExclRun_eq s p pools).symm.trans h)
  rw [and_iff_right herror]
  simp only [hok, checkExclNonIsolcpus_eq_ok hids hs]
  constructor
  · intro h hacc item hitem
    obtain ⟨items, hitems, -⟩ := h _ ⟨hacc, rfl⟩
    refine (exclItem?_isSome (hacc.numbers item hitem)).mp ?_
    by_contra hnone
    rw [exclList?, mapM_eq_none.mpr ⟨item, hitem, by simpa using hnone⟩] at hitems
    cases hitems
  · rintro h pools' ⟨hacc, rfl⟩
    have hsome : exclList? s ≠ none := fun hnone => by
      obtain ⟨item, hitem, hx⟩ := mapM_eq_none.mp hnone
      have hx' := (exclItem?_isSome (hacc.numbers item hitem)).mpr (h hacc item hitem)
      simp [hx] at hx'
    obtain ⟨items, hitems⟩ := Option.ne_none_iff_exists'.mp hsome
    have heq := flatMap_cpus hitems
    refine ⟨items, hitems, heq ▸ hacc.free, fun core hc => ?_⟩
    rw [heq, mark]
    exact if_congr (by rw [List.mem_filter, decide_eq_true_eq, and_iff_right hc]) rfl rfl

/-- Four cores of one CPU each. -/
def plainFour : Platform where
  sockets := .ofList _ [⟨0, .ofList _ ((List.range 4).map fun k : ℕ =>
    ⟨0, k, .ofList _ [⟨k, false, false⟩]⟩)⟩]

theorem excl_honoured_idAndRange :
    (∀ e pools', (checkExclRun "0,2-3" plainFour).run.run (fun _ => none) = (.error e, pools') →
        pools' = fun _ => none) ∧
      ∀ pools', (checkExclRun "0,2-3" plainFour).run.run (fun _ => none) = (.ok (), pools') →
        ExclMoved plainFour "0,2-3" (fun _ => none) pools' := by
  refine (excl_honoured_iff plainFour (fun _ => none) "0,2-3" (by decide) (by decide)).mpr
    fun _ item hitem => ?_
  have hitems : ∀ item ∈ splitText ',' "0,2-3", (exclItem? item).isSome ∧
      ∀ piece ∈ splitText '-' item, (decimalId? piece).isSome := by decide
  exact (exclItem?_isSome fun _ => (hitems item hitem).2).mp (hitems item hitem).1

/-- **A range whose end is before its start** is left out of what moves. -/
theorem backward_range_ignored : Numbered plainFour ∧ ∃ pools',
    (checkExclRun "0,3-1" plainFour).run.run (fun _ => none) = (.ok (), pools') ∧
      (plainFour.cores.filter fun core => pools' core = some "exclusive-non-isolcpus").map
        Core.coreId = [0] ∧ ¬ ExclMoved plainFour "0,3-1" (fun _ => none) pools' := by
  have hret : (checkExclNonIsolcpus "0,3-1" plainFour fun _ => none).toOption.any (fun pools' =>
      (plainFour.cores.filter fun core => pools' core = some "exclusive-non-isolcpus").map
        Core.coreId = [0]) = true := by decide
  refine ⟨by decide, ?_⟩
  rw [checkExclRun_eq]
  cases hrun : checkExclNonIsolcpus "0,3-1" plainFour fun _ => none with
  | error e => simp [hrun, Except.toOption] at hret
  | ok pools' =>
    have hnone : exclList? "0,3-1" = none := by decide
    rw [hrun] at hret
    exact ⟨pools', rfl, by simpa [Except.toOption] using hret, fun ⟨items, hitems, _⟩ => by
      simp [hnone] at hitems⟩

end Cmk
