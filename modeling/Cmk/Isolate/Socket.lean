import Cmk.Init.Partition
import Cmk.Isolate

/-!
# Isolate/Socket — `isolate --socket-id`

`init` files the CPU lists under integers, the command line hands `isolate` a text, and the lookup
takes a falsy id for none at all.  So `isolate` never finds the socket it is given, save `-1`, which
stands for all of them; and `get_core_lists(0)` gives the lists of every socket
(`socket_selection_iff`).
-/

open Machinery Machinery.Deal Cmk.Topology

namespace Cmk

/-- What is read back of a configuration: its pools, sockets and CPU lists in some order of keys,
with whatever tasks have been recorded since. -/
structure ConfDict.SamePlaces {κ τ : Type} (d d' : ConfDict κ τ) : Prop where
  pools : d.keys.Perm d'.keys
  sockets : d.socketKeys.Perm d'.socketKeys
  lists : (d.entries.map Entry.loc).Perm (d'.entries.map Entry.loc)

theorem ConfDict.SameData.samePlaces {κ τ : Type} {d d' : ConfDict κ τ} (h : d.SameData d') :
    d.SamePlaces d' := ⟨h.pools, h.sockets, h.entries.map _⟩

section Selection

variable {κ τ : Type} [DecidableEq κ]

/-- The CPU lists of a pool that may be handed out. -/
def Conf.usable (c : Conf κ τ) (pool : String) : List (Entry κ τ) :=
  c.entries.filter fun e => e.pool = pool ∧ (exclusivity pool = some true → e.tasks.length = 0)

/-- Those of one socket. -/
def Conf.usableOn (c : Conf κ τ) (pool : String) (socketId : ℤ) : List (Entry κ τ) :=
  (c.usable pool).filter fun e => e.socket = .int socketId

/-- How many CPU lists a call asks for. -/
def IsolateEnv.needed (env : IsolateEnv) (pool : String) : Except PyErr ℤ :=
  if exclusivity pool = some true then env.nCpus else .ok 1

/-- There are as many as asked for. -/
def Asked (env : IsolateEnv) (pool : String) (lists : List (Entry κ τ)) (n : ℕ) : Prop :=
  env.needed pool = .ok n ∧ 0 < n ∧ n ≤ lists.length

/-- There are as many as asked for, and the pid can be read for each. -/
def Enough (env : IsolateEnv) (pool : String) (lists : List (Entry κ τ)) : Prop :=
  ∃ n, Asked env pool lists n ∧ ∀ i < n, IsOk (env.getpid i)

/-- The first ones, or the one drawn. -/
def picked (env : IsolateEnv) (pool : String) (lists : List (Entry κ τ)) : List (Entry κ τ) :=
  if exclusivity pool = some true then lists.take (env.nCpus.toOption.getD 0).toNat
  else lists[env.choice % lists.length]?.toList

/-- **Allocation restricted to a socket**: it succeeds when the socket has enough lists, and takes
none of another. -/
structure OnSocket (args : IsolateArgs) (env : IsolateEnv) (c : Conf κ τ) [Task τ] (socketId : ℤ) :
    Prop where
  succeeds : IsOk (isolateSection args env c).1 ↔
    Enough env args.poolName (c.usableOn args.poolName socketId)
  own : ∀ clists, (isolateSection args env c).1 = .ok clists → ∀ cl ∈ clists,
    ∃ e ∈ c.usableOn args.poolName socketId, e.coreId = cl

/-! ## Without a socket -/

variable {p : Pool κ τ} {c : Conf κ τ} {args : IsolateArgs} {env : IsolateEnv} {clists : List κ}
  {pool : String}

omit [DecidableEq κ] in
theorem Conf.usable_eq (c : Conf κ τ) (hp : p ∈ c.pools.rows) :
    c.usable p.name =
      p.entries.filter fun e => exclusivity p.name = some true → e.tasks.length = 0 := by
  rw [← c.filter_entries hp, List.filter_filter, Conf.usable]
  refine List.filter_congr fun e _ => ?_
  rw [Bool.decide_and, Bool.and_comm]

theorem randomChoice_eq_ok {α : Type} {xs : List α} {draw : ℕ} {x : α} :
    randomChoice xs draw = .ok x ↔ xs[draw % xs.length]? = some x := by
  rw [randomChoice]
  split <;> simp_all

omit [DecidableEq κ] in
theorem Pool.chooseExclusive_eq_ok (hexcl : exclusivity p.name = some true) (hp : p ∈ c.pools.rows)
    (hsel : args.selectedSocket = none) :
    p.chooseExclusive args env = .ok clists ↔ ∃ n : ℕ, env.nCpus = .ok n ∧ 0 < n ∧
      n ≤ (c.usable p.name).length ∧ clists = ((c.usable p.name).take n).map Entry.coreId := by
  have havail : availableClists (p.entries.map fun e => ⟨e.coreId, e.tasks⟩) =
      (c.usable p.name).map Entry.coreId := by
    rw [c.usable_eq hp, availableClists, List.filter_map, List.map_map]
    simp only [hexcl, true_imp_iff]
    rfl
  rw [Pool.chooseExclusive, hsel, p.getCoreLists_none, bind_eq_ok]
  constructor
  · rintro ⟨z, hz, h⟩
    split at h
    · nomatch h
    · obtain ⟨cls, hcls, h⟩ := bind_eq_ok.mp h
      obtain rfl := Except.ok.inj hcls
      rw [havail, List.length_map] at h
      split at h
      · nomatch h
      · obtain rfl := Except.ok.inj h
        lift z to ℕ using by omega
        refine ⟨z, hz, by omega, by omega, ?_⟩
        rw [Int.toNat_natCast, List.map_take]
  · rintro ⟨n, hn, hpos, hle, rfl⟩
    refine ⟨n, hn, ?_⟩
    rw [if_neg (by omega)]
    refine bind_eq_ok.mpr ⟨_, rfl, ?_⟩
    rw [havail, List.length_map, if_neg (by omega), Int.toNat_natCast, List.map_take]

omit [DecidableEq κ] in
theorem Pool.chooseShared_eq_ok (hexcl : exclusivity p.name ≠ some true) (hp : p ∈ c.pools.rows)
    (hsel : args.selectedSocket = none) :
    p.chooseShared args env = .ok clists ↔ ∃ e : Entry κ τ,
      (c.usable p.name)[env.choice % (c.usable p.name).length]? = some e ∧ clists = [e.coreId] := by
  have hall : c.usable p.name = p.entries := by
    rw [c.usable_eq hp]
    exact List.filter_eq_self.mpr fun e _ => by simp [hexcl]
  have hdraw : ∀ cl, randomChoice ((p.entries.map fun e =>
      (⟨e.coreId, e.tasks⟩ : CoreList κ τ)).map CoreList.coreId) env.choice = .ok cl ↔
        ∃ e : Entry κ τ, p.entries[env.choice % p.entries.length]? = some e ∧ e.coreId = cl := by
    intro cl
    rw [randomChoice_eq_ok, List.map_map, List.length_map, List.getElem?_map,
      Option.map_eq_some_iff]
    rfl
  rw [Pool.chooseShared, hsel, p.getCoreLists_none, bind_eq_ok, hall]
  constructor
  · rintro ⟨cls, hcls, h⟩
    obtain rfl := Except.ok.inj hcls
    split at h
    · rename_i cl hcl
      obtain ⟨e, he, rfl⟩ := (hdraw cl).mp hcl
      exact ⟨e, he, (Except.ok.inj h).symm⟩
    · nomatch h
    · nomatch h
  · rintro ⟨e, he, rfl⟩
    refine ⟨_, rfl, ?_⟩
    rw [(hdraw e.coreId).mpr ⟨e, he, rfl⟩]

omit [DecidableEq κ] in
theorem Asked.length_picked {lists : List (Entry κ τ)} {n : ℕ} (h : Asked env pool lists n) :
    (picked env pool lists).length = n := by
  obtain ⟨hn, hpos, hle⟩ := h
  rw [picked]
  rw [IsolateEnv.needed] at hn
  split at hn
  · rename_i hexcl
    rw [if_pos hexcl, hn, List.length_take]
    simpa [Except.toOption] using hle
  · rename_i hexcl
    have hlt : env.choice % lists.length < lists.length := Nat.mod_lt _ (by omega)
    have hone : (1 : ℤ) = n := Except.ok.inj hn
    rw [if_neg hexcl, List.getElem?_eq_getElem hlt, Option.toList_some, List.length_singleton]
    omega

omit [DecidableEq κ] in
/-- Either kind of pool gives what is asked of it. -/
theorem Pool.choose_eq_ok (hk : exclusivity p.name = some p.exclusive) (hp : p ∈ c.pools.rows)
    (hsel : args.selectedSocket = none) :
    (if p.exclusive then p.chooseExclusive args env else p.chooseShared args env) = .ok clists ↔
      (∃ n, Asked env p.name (c.usable p.name) n) ∧
        clists = (picked env p.name (c.usable p.name)).map Entry.coreId := by
  cases hex : p.exclusive with
  | true =>
    have hexcl : exclusivity p.name = some true := hex ▸ hk
    rw [if_pos rfl, chooseExclusive_eq_ok hexcl hp hsel]
    simp only [Asked, IsolateEnv.needed, picked, if_pos hexcl]
    constructor
    · rintro ⟨n, hn, hpos, hle, rfl⟩
      exact ⟨⟨n, hn, hpos, hle⟩, by rw [hn]; rfl⟩
    · rintro ⟨⟨n, hn, hpos, hle⟩, rfl⟩
      exact ⟨n, hn, hpos, hle, by rw [hn]; rfl⟩
  | false =>
    have hexcl : exclusivity p.name ≠ some true := by
      rw [hk, hex]
      decide
    rw [if_neg Bool.false_ne_true, chooseShared_eq_ok hexcl hp hsel]
    simp only [Asked, IsolateEnv.needed, picked, if_neg hexcl]
    constructor
    · rintro ⟨e, he, rfl⟩
      have hlt := (List.getElem?_eq_some_iff.mp he).1
      exact ⟨⟨1, rfl, by omega, by omega⟩, by rw [he]; rfl⟩
    · rintro ⟨⟨n, hn, hpos, hle⟩, rfl⟩
      have hlt : env.choice % (c.usable p.name).length < (c.usable p.name).length :=
        Nat.mod_lt _ (by omega)
      exact ⟨_, List.getElem?_eq_getElem hlt, by rw [List.getElem?_eq_getElem hlt]; rfl⟩

omit [DecidableEq κ] in
/-- **What is chosen from the whole pool.** -/
theorem Pool.chooseClists_eq_ok (hk : exclusivity p.name = some p.exclusive) (hp : p ∈ c.pools.rows)
    (hsel : args.selectedSocket = none) :
    p.chooseClists args env = .ok clists ↔ (∃ n, Asked env p.name (c.usable p.name) n) ∧
      clists = (picked env p.name (c.usable p.name)).map Entry.coreId := by
  rw [Pool.chooseClists, bind_eq_ok]
  constructor
  · rintro ⟨clists', h, hif⟩
    split at hif
    · nomatch hif
    · exact (choose_eq_ok hk hp hsel).mp (Except.ok.inj hif ▸ h)
  · rintro h
    refine ⟨clists, (choose_eq_ok hk hp hsel).mpr h, if_neg ?_⟩
    obtain ⟨⟨n, hasked⟩, rfl⟩ := h
    have hlen := hasked.length_picked
    have hpos := hasked.2.1
    rintro hnil
    rw [List.map_eq_nil_iff.mp hnil] at hlen
    rw [← hlen] at hpos
    exact absurd hpos (lt_irrefl 0)

/-- The loop returns when the pid can be read for each list. -/
theorem isOk_recordClists [Task τ] (getpid : ℕ → Except PyErr ℤ) (clists : List κ) (k : ℕ)
    (c : Conf κ τ) : (recordClists pool getpid k clists c).1 = .ok () ↔
      ∀ i < clists.length, IsOk (getpid (k + i)) := by
  induction clists generalizing k c with
  | nil => simp [recordClists]
  | cons cl clists ih =>
    have hsplit : (∀ i < (cl :: clists).length, IsOk (getpid (k + i))) ↔
        IsOk (getpid k) ∧ ∀ i < clists.length, IsOk (getpid (k + 1 + i)) := by
      rw [List.length_cons, Nat.forall_lt_succ_left]
      simp only [Nat.add_zero, Nat.add_right_comm k 1, Nat.add_assoc]
    rw [hsplit, recordClists]
    cases hg : getpid k with
    | error e =>
      refine iff_of_false (fun h => by cases h) fun h => ?_
      obtain ⟨pid, hpid⟩ := h.1
      cases hpid
    | ok pid => exact (ih (k + 1) _).trans (and_iff_right ⟨pid, rfl⟩).symm

omit [DecidableEq κ] in
theorem Conf.usable_eq_nil (h : c.pools.get? pool = none) : c.usable pool = [] := by
  refine List.filter_eq_nil_iff.mpr fun e he hboth => Table.get?_eq_none.mp h ?_
  obtain ⟨q, hq, he⟩ := Conf.mem_entries.mp he
  obtain ⟨rfl, -⟩ : e.pool = pool ∧ _ := by simpa using hboth
  exact Table.mem_keys.mpr ⟨q, hq, (Pool.pool_of_mem_entries he).symm⟩

/-- **The section without a socket.** -/
theorem isolateSection_eq_ok [Task τ] (hk : c.Known) (hsel : args.selectedSocket = none) :
    (isolateSection args env c).1 = .ok clists ↔
      Enough env args.poolName (c.usable args.poolName) ∧
        clists = (picked env args.poolName (c.usable args.poolName)).map Entry.coreId := by
  rw [isolateSection]
  cases hpool : c.pools.get? args.poolName with
  | none =>
    refine iff_of_false (fun h => nomatch h) ?_
    rintro ⟨⟨n, ⟨-, hpos, hle⟩, -⟩, -⟩
    rw [Conf.usable_eq_nil hpool, List.length_nil] at hle
    omega
  | some q =>
    obtain ⟨hq, hname⟩ := Table.get?_eq_some.mp hpool
    have hchoose : ∀ clists, q.chooseClists args env = .ok clists ↔
        (∃ n, Asked env args.poolName (c.usable args.poolName) n) ∧
          clists = (picked env args.poolName (c.usable args.poolName)).map Entry.coreId := by
      intro clists
      rw [← hname]
      exact Pool.chooseClists_eq_ok (hk q hq) hq hsel
    have hlen : ∀ n, Asked env args.poolName (c.usable args.poolName) n →
        ((picked env args.poolName (c.usable args.poolName)).map Entry.coreId).length = n :=
      fun n hn => by rw [List.length_map, hn.length_picked]
    have hrecord : ∀ clists, (recordClists args.poolName env.getpid 0 clists c).1 = .ok () ↔
        ∀ i < clists.length, IsOk (env.getpid i) := fun clists => by
      simpa only [Nat.zero_add] using isOk_recordClists env.getpid clists 0 c
    dsimp only
    constructor
    · intro h
      split at h
      · nomatch h
      · rename_i clists' hclists
        obtain ⟨⟨n, hn⟩, rfl⟩ := (hchoose _).mp hclists
        split at h
        · nomatch h
        · rename_i c' hrec
          refine ⟨⟨n, hn, ?_⟩, (Except.ok.inj h).symm⟩
          rw [← hlen n hn]
          exact (hrecord _).mp (by rw [hrec])
    · rintro ⟨⟨n, hn, hpid⟩, rfl⟩
      rw [(hchoose _).mpr ⟨⟨n, hn⟩, rfl⟩]
      have hdone := (hrecord _).mpr (hlen n hn ▸ hpid)
      dsimp only
      split
      · rename_i e c' hrec
        rw [hrec] at hdone
        nomatch hdone
      · rfl

/-- A socket the pool does not have. -/
theorem not_isOk_isolateSection [Task τ] {s : Scalar} (hsel : args.selectedSocket = some s)
    (htruthy : s.truthy = true)
    (hno : ∀ q ∈ c.pools.rows, ∀ socket ∈ q.sockets.rows, socket.socketId ≠ s) :
    ¬ IsOk (isolateSection args env c).1 := by
  rintro ⟨clists, h⟩
  rw [isolateSection] at h
  split at h
  · cases h
  · rename_i q hq
    have hget : q.sockets.get? s = none := Table.get?_eq_none.mpr fun hin => by
      obtain ⟨socket, hsocket, hid⟩ := Table.mem_keys.mp hin
      exact hno q (Table.get?_eq_some.mp hq).1 socket hsocket hid
    have hlists : q.getCoreLists args.selectedSocket = .error (.keyError none) := by
      rw [hsel, Pool.getCoreLists, if_pos htruthy, Pool.getSocketClists, Pool.getSocket, hget]
      rfl
    split at h
    · cases h
    · rename_i clists' hchoose
      obtain ⟨cls, hcls, -⟩ := bind_eq_ok.mp hchoose
      split at hcls
      · obtain ⟨n, -, hcls⟩ := bind_eq_ok.mp hcls
        rw [hlists] at hcls
        split at hcls <;> cases hcls
      · rw [Pool.chooseShared, hlists] at hcls
        cases hcls

/-! ## With a socket -/

variable {socketId : ℤ}

omit [DecidableEq κ] in
theorem Asked.of_usableOn {n : ℕ} (h : Asked env pool (c.usableOn pool socketId) n) :
    Asked env pool (c.usable pool) n :=
  ⟨h.1, h.2.1, h.2.2.trans (List.length_filter_le _ _)⟩

omit [DecidableEq κ] in
theorem picked_sublist (lists : List (Entry κ τ)) : (picked env pool lists).Sublist lists := by
  rw [picked]
  split
  · exact List.take_sublist _ _
  · cases h : lists[env.choice % lists.length]? with
    | none => exact List.nil_sublist _
    | some e => exact List.singleton_sublist.mpr (List.mem_of_getElem? h)

theorem selectedSocket_of_ne (hpool : args.poolName ∈ socketAwarePools)
    (hid : args.socketId = some (toString socketId)) (hne : socketId ≠ -1) :
    args.selectedSocket = some (.str (toString socketId)) := by
  have hsome : args.socketId ≠ some "-1" := by
    rw [hid]
    exact fun h => hne (toString_int_injective (Option.some.inj h))
  rw [IsolateArgs.selectedSocket, if_neg (not_or.mpr ⟨hsome, not_not.mpr hpool⟩), hid,
    Option.map_some]

/-- **Without unknown sockets, whole-pool allocation keeps to a socket** exactly when what it takes
is there. -/
theorem onSocket_iff_of_none [Task τ] (hk : c.Known) (hu : UniqueNames c.entries)
    (hsel : args.selectedSocket = none) :
    OnSocket args env c socketId ↔ (Enough env args.poolName (c.usable args.poolName) →
      ∀ e ∈ picked env args.poolName (c.usable args.poolName), e.socket = .int socketId) := by
  have hok : ∀ clists, (isolateSection args env c).1 = .ok clists ↔
      Enough env args.poolName (c.usable args.poolName) ∧
        clists = (picked env args.poolName (c.usable args.poolName)).map Entry.coreId :=
    fun _ => isolateSection_eq_ok hk hsel
  constructor
  · intro hon hen e he
    obtain ⟨e', he', hname⟩ := hon.own _ ((hok _).mpr ⟨hen, rfl⟩) e.coreId (List.mem_map_of_mem he)
    obtain ⟨he', hsocket⟩ := List.mem_filter.mp he'
    have hin := List.mem_filter.mp ((picked_sublist _).subset he)
    have hin' := List.mem_filter.mp he'
    have hpool : e.pool = e'.pool :=
      (of_decide_eq_true hin.2).1.trans (of_decide_eq_true hin'.2).1.symm
    rw [hu e hin.1 e' hin'.1 hpool hname.symm]
    exact of_decide_eq_true hsocket
  · intro hall
    have hon : Enough env args.poolName (c.usable args.poolName) →
        ∀ e ∈ picked env args.poolName (c.usable args.poolName),
          e ∈ c.usableOn args.poolName socketId := fun hen e he =>
      List.mem_filter.mpr ⟨(picked_sublist _).subset he, decide_eq_true (hall hen e he)⟩
    refine ⟨⟨?_, ?_⟩, ?_⟩
    · rintro ⟨clists, h⟩
      obtain ⟨hen, -⟩ := (hok clists).mp h
      obtain ⟨n, hn, hpid⟩ := hen
      refine ⟨n, ⟨hn.1, hn.2.1, ?_⟩, hpid⟩
      have hsub : (picked env args.poolName (c.usable args.poolName)).Sublist
          (c.usable args.poolName) := picked_sublist _
      have hkept := hsub.filter fun e => e.socket = .int socketId
      rw [List.filter_eq_self.mpr fun e he => decide_eq_true (hall ⟨n, hn, hpid⟩ e he)] at hkept
      exact hn.length_picked ▸ hkept.length_le
    · rintro ⟨n, hn, hpid⟩
      exact ⟨_, (hok _).mpr ⟨⟨n, hn.of_usableOn, hpid⟩, rfl⟩⟩
    · intro clists h cl hcl
      obtain ⟨hen, rfl⟩ := (hok clists).mp h
      obtain ⟨e, he, rfl⟩ := List.mem_map.mp hcl
      exact ⟨e, hon hen e he, rfl⟩

/-- **Where sockets are filed under integers**, a socket other than `-1` is never found. -/
theorem onSocket_iff [Task τ] (hk : c.Known) (hu : UniqueNames c.entries)
    (hint : ∀ q ∈ c.pools.rows, ∀ s ∈ q.sockets.rows, ∃ z, s.socketId = .int z)
    (hpool : args.poolName ∈ socketAwarePools) (hid : args.socketId = some (toString socketId)) :
    OnSocket args env c socketId ↔
      (socketId ≠ -1 → ¬ Enough env args.poolName (c.usableOn args.poolName socketId)) ∧
        (socketId = -1 → Enough env args.poolName (c.usable args.poolName) →
          ∀ e ∈ picked env args.poolName (c.usable args.poolName), e.socket = .int socketId) := by
  by_cases hneg : socketId = -1
  · have hsel : args.selectedSocket = none := if_pos (.inl (by rw [hid, hneg]; rfl))
    rw [onSocket_iff_of_none hk hu hsel]
    simp [hneg]
  · have hfail : ¬ IsOk (isolateSection args env c).1 := by
      refine not_isOk_isolateSection (selectedSocket_of_ne hpool hid hneg) ?_
        fun q hq s hs hstr => ?_
      · have hne : toString socketId ≠ "" := fun h => by
          have hread := intOfText?_toString socketId
          rw [h] at hread
          nomatch hread
        simpa [Scalar.truthy] using hne
      · obtain ⟨z, hz⟩ := hint q hq s hs
        nomatch hz.symm.trans hstr
    have hnone : OnSocket args env c socketId ↔
        ¬ Enough env args.poolName (c.usableOn args.poolName socketId) :=
      ⟨fun hon hen => hfail (hon.succeeds.mpr hen),
        fun hno => ⟨iff_of_false hfail hno, fun clists h => absurd ⟨clists, h⟩ hfail⟩⟩
    rw [hnone]
    simp [hneg]

omit [DecidableEq κ] in
/-- **`get_core_lists` of a key** gives the lists of that socket, or of all if the key is falsy. -/
theorem Pool.getCoreLists_socket_iff (q : Pool κ τ) {s : Socket κ τ} (hs : s ∈ q.sockets.rows) :
    q.getCoreLists (some s.socketId) = .ok s.coreLists.rows ↔
      (s.socketId.truthy = true ∨ ∀ s' ∈ q.sockets.rows, s' ≠ s → s'.coreLists.rows = []) := by
  rw [Pool.getCoreLists]
  cases htruthy : s.socketId.truthy with
  | true =>
    refine iff_of_true ?_ (.inl rfl)
    rw [if_pos rfl, Pool.getSocketClists, Pool.getSocket, Table.get?_key hs]
    rfl
  | false =>
    rw [if_neg Bool.false_ne_true, Except.ok.injEq, or_iff_right Bool.false_ne_true]
    obtain ⟨before, after, hrows⟩ := List.append_of_mem hs
    have hnd : (before ++ s :: after).Nodup := hrows ▸ q.sockets.nodup_rows
    have hsplit := (List.nodup_middle.mp hnd)
    have hne : ∀ s' ∈ before ++ after, s' ≠ s := fun s' hs' heq =>
      (List.nodup_cons.mp hsplit).1 (heq ▸ hs')
    have hall : (∀ s' ∈ q.sockets.rows, s' ≠ s → s'.coreLists.rows = []) ↔
        ∀ s' ∈ before ++ after, s'.coreLists.rows = [] := by
      rw [hrows]
      refine ⟨fun h s' hs' => h s' ?_ (hne s' hs'), fun h s' hs' hother => h s' ?_⟩
      · exact List.perm_middle.mem_iff.mpr (.tail s hs')
      · exact (List.mem_cons.mp (List.perm_middle.mem_iff.mp hs')).resolve_left hother
    rw [hall, hrows, List.flatMap_append, List.flatMap_cons]
    constructor
    · intro heq s' hs'
      have hlen := congrArg List.length heq
      simp only [List.length_append] at hlen
      have hnil : (before.flatMap fun s => s.coreLists.rows) = [] ∧
          (after.flatMap fun s => s.coreLists.rows) = [] :=
        ⟨List.length_eq_zero_iff.mp (by omega), List.length_eq_zero_iff.mp (by omega)⟩
      rcases List.mem_append.mp hs' with hs' | hs'
      · exact List.flatMap_eq_nil_iff.mp hnil.1 s' hs'
      · exact List.flatMap_eq_nil_iff.mp hnil.2 s' hs'
    · intro hempty
      rw [List.flatMap_eq_nil_iff.mpr fun s' hs' => hempty s' (List.mem_append_left _ hs'),
        List.flatMap_eq_nil_iff.mpr fun s' hs' => hempty s' (List.mem_append_right _ hs'),
        List.nil_append, List.append_nil]

end Selection

/-! ## In the configuration `init` writes -/

variable {p : Platform} {pools : Pools} {exclNonIsolcpus : String}

/-- The sockets of a dictionary are all filed under integers. -/
def ConfDict.IntSockets {κ τ : Type} (d : ConfDict κ τ) : Prop :=
  ∀ pool s, (pool, s) ∈ d.socketKeys → ∃ z, s = .int z

theorem ConfDict.IntSockets.addPool {d : ConfDict String String} (h : d.IntSockets) (pool : String)
    (p : Platform) (names : Topology.Socket → List String) :
    ConfDict.IntSockets (Cmk.addPool pool p names d) := by
  intro q s hs
  obtain ⟨row, hrow, hs⟩ := List.mem_flatMap.mp hs
  rcases Table.mem_rows_insert.mp hrow with ⟨hrow, -⟩ | rfl
  · exact h q s (List.mem_flatMap.mpr ⟨row, hrow, hs⟩)
  · obtain ⟨key, hkey, heq⟩ := List.mem_map.mp hs
    obtain ⟨-, rfl⟩ := Prod.mk.inj heq
    rw [Table.keys, rows_socketDict, List.map_map] at hkey
    obtain ⟨socket, -, rfl⟩ := List.mem_map.mp hkey
    exact ⟨socket.socketId, rfl⟩

theorem intSockets_newConfig (p : Platform) (pools : Pools) (exclNonIsolcpus : String) :
    (newConfig p pools exclNonIsolcpus).IntSockets := by
  have hempty : ConfDict.IntSockets (.empty : ConfDict String String) := fun q s hs => nomatch hs
  have htwo := (hempty.addPool "exclusive" p (exclusiveNames pools "exclusive")).addPool "shared" p
    (sharedNames pools "shared")
  unfold newConfig
  split
  · exact (htwo.addPool _ p (exclusiveNames pools "exclusive-non-isolcpus")).addPool _ p _
  · exact htwo.addPool _ p _

theorem ConfDict.IntSockets.of_buildConfig {κ τ : Type} {d : ConfDict κ τ} {c : Conf κ τ}
    (h : d.IntSockets) (hc : buildConfig d = .ok c) :
    ∀ q ∈ c.pools.rows, ∀ s ∈ q.sockets.rows, ∃ z, s.socketId = .int z := by
  obtain ⟨-, rfl⟩ := buildConfig_ok hc
  intro q hq s hs
  obtain ⟨row, hrow, rfl⟩ := List.mem_map.mp hq
  obtain ⟨srow, hsrow, rfl⟩ := List.mem_map.mp hs
  exact h row.1 srow.1 (List.mem_flatMap.mpr
    ⟨row, hrow, List.mem_map.mpr ⟨srow.1, Table.key_mem_keys hsrow, rfl⟩⟩)

/-- **The socket of the command line and that of the configuration** agree exactly when nothing is
asked of them: `isolate` finds the one it is given only if it is `-1`, and then takes what the whole
pool offers first; `get_core_lists` takes socket `0` for all sockets. -/
theorem socket_selection_iff (host : Host) (numExclusive numShared : ℤ)
    (exclusiveMode sharedMode exclNonIsolcpus : String) (p : Platform) (pools : Pools)
    (hd : ∀ lscpuOutput, host.lscpu = .ok lscpuOutput → DistinctCpus lscpuOutput)
    (h : configure host numExclusive numShared exclusiveMode sharedMode exclNonIsolcpus =
      .ok (p, pools)) (d : ConfDict String String)
    (hplaces : (newConfig p pools exclNonIsolcpus).SamePlaces d) (c : Conf String String)
    (hc : buildConfig d = .ok c) (pool : String) (hpool : pool ∈ socketAwarePools) (socketId : ℤ)
    (env : IsolateEnv) :
    (OnSocket ⟨pool, some (toString socketId)⟩ env c socketId ↔
      (socketId ≠ -1 → ¬ Enough env pool (c.usableOn pool socketId)) ∧
        (socketId = -1 → Enough env pool (c.usable pool) →
          ∀ e ∈ picked env pool (c.usable pool), e.socket = .int socketId)) ∧
      ∀ q ∈ c.pools.rows, ∀ s ∈ q.sockets.rows,
        (q.getCoreLists (some s.socketId) = .ok s.coreLists.rows ↔
          (s.socketId ≠ .int 0 ∨ ∀ s' ∈ q.sockets.rows, s' ≠ s → s'.coreLists.rows = [])) := by
  obtain ⟨hok, -⟩ := configure_ok hd h
  have hunique : UniqueNames c.entries := by
    rw [entries_of_buildConfig hc]
    exact (fresh_newConfig hok pools exclNonIsolcpus).unique.of_locs hplaces.lists.symm
  have hint : d.IntSockets := fun q s hs =>
    intSockets_newConfig p pools exclNonIsolcpus q s (hplaces.sockets.mem_iff.mpr hs)
  refine ⟨onSocket_iff (.of_buildConfig hc) hunique (hint.of_buildConfig hc) hpool rfl,
    fun q hq s hs => ?_⟩
  obtain ⟨z, hz⟩ := hint.of_buildConfig hc q hq s hs
  rw [q.getCoreLists_socket_iff hs, hz]
  simp [Scalar.truthy]

/-- The configuration of the two sockets of `fourCores`, as it is read back. -/
def fourCoresConf : Except PyErr (Conf String String) := do
  let (p, pools) ← configure fourCores 1 1 "spread" "packed" "-1"
  buildConfig (newConfig p pools "-1")

/-- A wrapper that asks for one CPU list. -/
def oneList : IsolateEnv := ⟨none, 0, fun _ => .ok 7⟩

theorem socket_selection_fourCores : ∃ c : Conf String String, fourCoresConf = .ok c ∧
    (OnSocket ⟨"exclusive", some (toString (1 : ℤ))⟩ oneList c 1 ↔
      ((1 : ℤ) ≠ -1 → ¬ Enough oneList "exclusive" (c.usableOn "exclusive" 1)) ∧
        ((1 : ℤ) = -1 → Enough oneList "exclusive" (c.usable "exclusive") →
          ∀ e ∈ picked oneList "exclusive" (c.usable "exclusive"), e.socket = .int 1)) := by
  have hret : IsOk fourCoresConf := by decide
  obtain ⟨c, hc⟩ := hret
  obtain ⟨⟨p, pools⟩, hconf, hbuild⟩ := bind_eq_ok.mp hc
  exact ⟨c, hc, (socket_selection_iff fourCores 1 1 "spread" "packed" "-1" p pools
    distinctCpus_fourCores hconf _ (ConfDict.SameData.refl _).samePlaces c hbuild "exclusive"
    (by decide) 1 oneList).1⟩

/-- Socket `0` has a free exclusive CPU list, and `isolate --socket-id=0` does not find the socket.
-/
theorem isolate_misses_its_socket :
    ¬ ∀ c, fourCoresConf = .ok c → OnSocket ⟨"exclusive", some "0"⟩ oneList c 0 := by
  intro hall
  have hret : (fourCoresConf.toOption.any fun c => decide (¬ IsOk (isolateSection
      ⟨"exclusive", some "0"⟩ oneList c).1 ∧ 0 < (c.usableOn "exclusive" 0).length)) = true := by
    decide
  cases h : fourCoresConf with
  | error err =>
    rw [h] at hret
    nomatch hret
  | ok c =>
    rw [h] at hret
    obtain ⟨hfail, hlen⟩ := of_decide_eq_true hret
    exact hfail ((hall c h).succeeds.mpr ⟨1, ⟨rfl, one_pos, hlen⟩, fun i _ => ⟨7, rfl⟩⟩)

end Cmk
