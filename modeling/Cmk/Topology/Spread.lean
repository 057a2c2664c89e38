import Cmk.Machinery.Fair
import Cmk.Topology.Platform

/-!
# Topology/Spread — the loop of `allocate_spread`

The loop takes its cores out of lists it keeps in a dictionary, and drops a socket from the
dictionary when it comes to one whose list is empty.  The lists are objects here, each known by its
place among all lists there are, so that it can be said which of them the loop changes.

`fold_visit` is one round over the sockets, `spreadRun_eq` the whole loop: it ends with the cores in
the order of `allocateSpread`, and every list there was before is as it was.  The order is a fair
round robin over the sockets (`allocate_spread_fair`).
-/

open Machinery Machinery.Deal

namespace Cmk.Topology

/-- The variables of `allocate_spread`, and the lists there are. -/
structure SpreadVars where
  lists : List (List Core)
  outputCores : List Core
  socketCores : Dict ℤ ℕ

namespace SpreadVars

/-- `socket_cores[socket]`, by the place it has. -/
def content (v : SpreadVars) (place : ℕ) : List Core := v.lists.getD place []

/-- The comprehensions of `Socket` make a new list. -/
def fill (isolated sstBf : Bool) (v : SpreadVars) (s : Socket) : SpreadVars :=
  { v with
    lists := v.lists ++ [s.select isolated sstBf]
    socketCores := v.socketCores.insert (s.socketId, v.lists.length) }

/-- One round of the inner loop. -/
def visit (v : SpreadVars) (socket : ℤ) : Except PyErr SpreadVars :=
  match v.socketCores.get? socket with
  | none => .error (.keyError none)
  | some (_, place) =>
    match v.content place with
    | [] => .ok { v with socketCores := v.socketCores.erase socket }
    | core :: cores =>
      .ok { v with lists := v.lists.set place cores, outputCores := v.outputCores ++ [core] }

/-- At most that many rounds of the outer loop, `none` if they do not end it. -/
def loop : ℕ → SpreadVars → Except PyErr (Option SpreadVars)
  | 0, _ => .ok none
  | n + 1, v =>
    if v.socketCores.keys = [] then .ok (some v)
    else do
      let v ← v.socketCores.keys.foldlM visit v
      loop n v

end SpreadVars

/-- `allocate_spread`, with the lists there are before the call. -/
def Platform.spreadRun (p : Platform) (isolated sstBf : Bool) (lists : List (List Core)) (n : ℕ) :
    Except PyErr (Option SpreadVars) :=
  (p.sockets.rows.foldl (SpreadVars.fill isolated sstBf) ⟨lists, [], .empty⟩).loop n

/-! ## One round -/

namespace SpreadVars

variable {v v' : SpreadVars} {isolated sstBf : Bool}

/-- Every socket has a list of its own, none of them older than the first `n`. -/
structure Own (n : ℕ) (v : SpreadVars) : Prop where
  fresh : ∀ e ∈ v.socketCores.rows, n ≤ e.2 ∧ e.2 < v.lists.length
  distinct : (v.socketCores.rows.map Prod.snd).Nodup

/-- What the sockets still have. -/
def left (v : SpreadVars) : List (List Core) := v.socketCores.rows.map fun e => v.content e.2

section Visit

variable {n : ℕ} {done rest : List (ℤ × ℕ)} {e : ℤ × ℕ} {core : Core} {cores : List Core}

/-- A socket without a core is dropped. -/
theorem visit_of_nil (hown : v.Own n) (hrows : v.socketCores.rows = done ++ e :: rest)
    (hcontent : v.content e.2 = []) :
    v.visit e.1 = .ok { v with socketCores := v.socketCores.erase e.1 } ∧
      (v.socketCores.erase e.1).rows = done ++ rest ∧
      Own n { v with socketCores := v.socketCores.erase e.1 } := by
  have hget : v.socketCores.get? e.1 = some e := Table.get?_key (by rw [hrows]; simp)
  have hrows' : (v.socketCores.erase e.1).rows = done ++ rest := Table.rows_erase hrows
  have hsub : (v.socketCores.erase e.1).rows.Sublist v.socketCores.rows := by
    rw [hrows', hrows]
    exact (List.sublist_cons_self e rest).append_left done
  refine ⟨?_, hrows', fun e' he' => hown.fresh e' (hsub.subset he'),
    hown.distinct.sublist (hsub.map _)⟩
  simp only [visit, hget, hcontent]

/-- Any other gives its first core. -/
theorem visit_of_cons (hown : v.Own n) (hrows : v.socketCores.rows = done ++ e :: rest)
    (hcontent : v.content e.2 = core :: cores) :
    v.visit e.1 = .ok { v with
        lists := v.lists.set e.2 cores, outputCores := v.outputCores ++ [core] } ∧
      Own n { v with lists := v.lists.set e.2 cores, outputCores := v.outputCores ++ [core] } := by
  have hget : v.socketCores.get? e.1 = some e := Table.get?_key (by rw [hrows]; simp)
  refine ⟨?_, fun e' he' => by simpa using hown.fresh e' he', hown.distinct⟩
  simp only [visit, hget, hcontent]

/-- The lists at other places are left alone. -/
theorem map_content_set (hnot : e.2 ∉ rest.map Prod.snd) (outputCores : List Core) :
    (rest.map fun e' => content
        { v with lists := v.lists.set e.2 cores, outputCores := outputCores } e'.2) =
      rest.map fun e' => v.content e'.2 := by
  refine List.map_congr_left fun e' he' => ?_
  have hne : e.2 ≠ e'.2 := fun heq => hnot (heq ▸ List.mem_map_of_mem he')
  rw [content, content, List.getD_eq_getElem?_getD, List.getElem?_set_ne hne,
    List.getD_eq_getElem?_getD]

/-- Induction on the sockets still to come in the round; those it is past are `done`. -/
theorem fold_visit (hown : v.Own n) (hrows : v.socketCores.rows = done ++ rest) :
    ∃ v' kept, (rest.map Prod.fst).foldlM visit v = .ok v' ∧ v'.Own n ∧
      v'.socketCores.rows = done ++ kept ∧
      kept.map (fun e => v'.content e.2) = tails (rest.map fun e => v.content e.2) ∧
      v'.outputCores = v.outputCores ++ heads (rest.map fun e => v.content e.2) ∧
      ∀ i, i ∉ rest.map Prod.snd → v'.lists[i]? = v.lists[i]? := by
  induction rest generalizing v done with
  | nil => exact ⟨v, [], rfl, hown, hrows, rfl, by simp [heads], fun i _ => rfl⟩
  | cons e rest ih =>
    have hdistinct := hown.distinct
    rw [hrows, List.map_append, List.map_cons, List.nodup_append, List.nodup_cons] at hdistinct
    have hnot : e.2 ∉ rest.map Prod.snd := hdistinct.2.1.1
    rw [List.map_cons, List.map_cons, List.map_cons, List.foldlM_cons]
    cases hcontent : v.content e.2 with
    | nil =>
      obtain ⟨hvisit, hrows₁, hown₁⟩ := visit_of_nil hown hrows hcontent
      obtain ⟨v', kept, hrun, hown', hkept, hleft, hout, hkeep⟩ := ih hown₁ hrows₁
      rw [hvisit]
      refine ⟨v', kept, hrun, hown', hkept, hleft, hout, fun i hi => hkeep i fun hmem => ?_⟩
      exact hi (List.mem_cons_of_mem _ hmem)
    | cons core cores =>
      obtain ⟨hvisit, hown₁⟩ := visit_of_cons hown hrows hcontent
      have hlt : e.2 < v.lists.length := (hown.fresh e (by rw [hrows]; simp)).2
      have hrows₁ : v.socketCores.rows = (done ++ [e]) ++ rest := by rw [hrows]; simp
      obtain ⟨v', kept, hrun, hown', hkept, hleft, hout, hkeep⟩ := ih hown₁ hrows₁
      rw [map_content_set hnot] at hleft hout
      rw [hvisit]
      refine ⟨v', e :: kept, hrun, hown', by simpa using hkept, ?_, ?_, fun i hi => ?_⟩
      · have hmine : v'.content e.2 = cores := by
          rw [content, List.getD_eq_getElem?_getD, hkeep _ hnot, List.getElem?_set_self hlt]
          rfl
        rw [List.map_cons, hmine, hleft]
        rfl
      · rw [hout]
        simp [heads]
      · rw [List.mem_cons, not_or] at hi
        rw [hkeep i hi.2, List.getElem?_set_ne (Ne.symm hi.1)]

end Visit

/-- **One round** takes the first core of every socket and drops the sockets without any. -/
theorem round {n : ℕ} (hown : v.Own n) :
    ∃ v', v.socketCores.keys.foldlM visit v = .ok v' ∧ v'.Own n ∧ v'.left = tails v.left ∧
      v'.outputCores = v.outputCores ++ heads v.left ∧
      ∀ i < n, v'.lists[i]? = v.lists[i]? := by
  obtain ⟨v', kept, hrun, hown', hkept, hleft, hout, hkeep⟩ :=
    @fold_visit v n [] v.socketCores.rows hown rfl
  refine ⟨v', hrun, hown', ?_, hout, fun i hi => hkeep i fun hmem => ?_⟩
  · rw [left, hkept, List.nil_append, hleft, left]
  · obtain ⟨e, he, rfl⟩ := List.mem_map.mp hmem
    exact absurd (hown.fresh e he).1 (by omega)

/-! ## The whole loop -/

/-- As many rounds as `turns` has turns, and the one that finds the dictionary empty. -/
theorem loop_of_turns {n k m : ℕ} (hown : v.Own n) (hk : v.left.flatten.length < k)
    (hm : k < m) : ∃ v', v.loop m = .ok (some v') ∧
      v'.outputCores = v.outputCores ++ turns k v.left ∧ ∀ i < n, v'.lists[i]? = v.lists[i]? := by
  induction k generalizing v m with
  | zero => omega
  | succ k ih =>
    obtain ⟨m, rfl⟩ := Nat.exists_eq_add_of_lt hm
    have hnil : v.socketCores.keys = [] ↔ v.left = [] := by
      rw [Table.keys, left, List.map_eq_nil_iff, List.map_eq_nil_iff]
    rw [show k + 1 + m + 1 = (k + 1 + m) + 1 from rfl, loop, turns]
    by_cases hleft : v.left = []
    · rw [if_pos (hnil.mpr hleft), if_pos hleft]
      exact ⟨v, rfl, (List.append_nil _).symm, fun i _ => rfl⟩
    · rw [if_neg (mt hnil.mp hleft), if_neg hleft]
      obtain ⟨v₁, hrun, hown₁, hleft₁, hout₁, hkeep₁⟩ := round hown
      have hperm := (perm_heads_tails v.left).length_eq
      rw [List.length_append] at hperm
      by_cases hheads : heads v.left = []
      · -- a round that finds no core left drops all sockets
        have hempty : v₁.left = [] := hleft₁.trans (tails_of_heads_eq_nil hheads)
        have hkeys : v₁.socketCores.keys = [] := by
          rw [left, List.map_eq_nil_iff] at hempty
          rw [Table.keys, hempty]
          rfl
        refine ⟨v₁, ?_, ?_, hkeep₁⟩
        · rw [hrun, show k + 1 + m = (k + m) + 1 by omega]
          exact if_pos hkeys
        · rw [hout₁, ← hleft₁, hempty, turns_nil, List.append_nil]
      · have hpos := List.length_pos_iff.mpr hheads
        obtain ⟨v₂, hrun₂, hout₂, hkeep₂⟩ :=
          @ih v₁ (k + 1 + m) hown₁ (by rw [hleft₁]; omega) (by omega)
        refine ⟨v₂, ?_, ?_, fun i hi => (hkeep₂ i hi).trans (hkeep₁ i hi)⟩
        · rw [hrun]
          exact hrun₂
        · rw [hout₂, hout₁, hleft₁, List.append_assoc]

section Fill

variable {n : ℕ} {s : Socket}

/-- A socket that is not there yet gets a new list. -/
theorem rows_fill (hnew : s.socketId ∉ v.socketCores.keys) :
    (v.fill isolated sstBf s).socketCores.rows =
      v.socketCores.rows ++ [(s.socketId, v.lists.length)] :=
  Table.rows_insert_of_notMem hnew

theorem own_fill (hnew : s.socketId ∉ v.socketCores.keys) (hown : v.Own n)
    (hle : n ≤ v.lists.length) : (v.fill isolated sstBf s).Own n := by
  have hrows := @rows_fill v isolated sstBf s hnew
  refine ⟨fun e he => ?_, ?_⟩
  · rw [hrows] at he
    rw [fill, List.length_append]
    rcases List.mem_append.mp he with he | he
    · have hfresh := hown.fresh e he
      exact ⟨hfresh.1, by omega⟩
    · obtain rfl := List.mem_singleton.mp he
      exact ⟨hle, by simp⟩
  · rw [hrows, List.map_append]
    refine List.Nodup.append hown.distinct (List.nodup_singleton _) fun place hmem hplace => ?_
    obtain ⟨e, he, rfl⟩ := List.mem_map.mp hmem
    have hfresh := (hown.fresh e he).2
    have heq : e.2 = v.lists.length := List.mem_singleton.mp hplace
    omega

theorem left_fill (hnew : s.socketId ∉ v.socketCores.keys) (hown : v.Own n) :
    (v.fill isolated sstBf s).left = v.left ++ [s.select isolated sstBf] := by
  rw [left, rows_fill hnew, List.map_append, left]
  congr 1
  · refine List.map_congr_left fun e he => ?_
    rw [content, content, fill, List.getD_eq_getElem?_getD, List.getD_eq_getElem?_getD,
      List.getElem?_append_left (hown.fresh e he).2]
  · simp [content, fill]

/-- Before the loop every socket has its own list of matching cores. -/
theorem own_foldl_fill {lists : List (List Core)} {ss : List Socket}
    (hnd : (v.socketCores.keys ++ ss.map Socket.socketId).Nodup) (hown : v.Own lists.length)
    (hle : lists.length ≤ v.lists.length)
    (hlists : ∀ i < lists.length, v.lists[i]? = lists[i]?) :
    (ss.foldl (fill isolated sstBf) v).Own lists.length ∧
      (ss.foldl (fill isolated sstBf) v).left =
        v.left ++ ss.map (fun s => s.select isolated sstBf) ∧
      (ss.foldl (fill isolated sstBf) v).outputCores = v.outputCores ∧
      ∀ i < lists.length, (ss.foldl (fill isolated sstBf) v).lists[i]? = lists[i]? := by
  induction ss generalizing v with
  | nil => exact ⟨hown, by simp, rfl, hlists⟩
  | cons s ss ih =>
    have hnew : s.socketId ∉ v.socketCores.keys := fun hmem =>
      (List.nodup_append.mp hnd).2.2 _ hmem _ (.head _) rfl
    have hkeys : (v.fill isolated sstBf s).socketCores.keys =
        v.socketCores.keys ++ [s.socketId] := by
      rw [Table.keys, rows_fill hnew, List.map_append]
      rfl
    obtain ⟨h₁, h₂, h₃, h₄⟩ := @ih (v.fill isolated sstBf s)
      (by rw [hkeys]; simpa using hnd) (own_fill hnew hown hle)
      (by rw [fill, List.length_append]; omega) fun i hi => by
        rw [fill, List.getElem?_append_left (by omega)]
        exact hlists i hi
    refine ⟨h₁, h₂.trans ?_, h₃, h₄⟩
    rw [left_fill hnew hown]
    simp

end Fill

end SpreadVars

/-- **The loop ends**, with the cores in the order of `allocateSpread` and the older lists as they
were. -/
theorem spreadRun_eq (p : Platform) (isolated sstBf : Bool) (lists : List (List Core)) :
    ∃ k, ∀ n ≥ k, ∃ v, p.spreadRun isolated sstBf lists n = .ok (some v) ∧
      v.outputCores = p.allocateSpread isolated sstBf ∧
      ∀ i < lists.length, v.lists[i]? = lists[i]? := by
  obtain ⟨hown, hleft, hout, hlists⟩ := @SpreadVars.own_foldl_fill ⟨lists, [], .empty⟩ isolated
    sstBf lists p.sockets.rows p.sockets.nodup
    ⟨fun e he => (List.not_mem_nil he).elim, List.nodup_nil⟩ le_rfl fun i _ => rfl
  have hrows : (p.sockets.rows.foldl (SpreadVars.fill isolated sstBf) ⟨lists, [], .empty⟩).left =
      p.sockets.rows.map fun s => s.select isolated sstBf := hleft
  refine ⟨(p.sockets.rows.map fun s => s.select isolated sstBf).flatten.length + 2,
    fun n hn => ?_⟩
  obtain ⟨v, hrun, hout', hkeep⟩ := SpreadVars.loop_of_turns (m := n) hown
    (by rw [hrows]; exact Nat.lt_succ_self _) (by omega)
  refine ⟨v, hrun, ?_, fun i hi => (hkeep i hi).trans (hlists i hi)⟩
  rw [hout', hout, hrows]
  rfl

/-! ## Fairness -/

section Fair

variable {p : Platform}
  (hplaced : ∀ s ∈ p.sockets.rows, ∀ core ∈ s.cores.rows, core.socketId = s.socketId)
  (isolated sstBf : Bool)

/-- The place of the socket of a core. -/
def Platform.rowOf (p : Platform) (core : Core) : ℕ := p.sockets.keys.idxOf core.socketId

/-- The place of a core among the matching cores of its socket. -/
def Platform.rankOf (p : Platform) (isolated sstBf : Bool) (core : Core) : ℕ :=
  ((p.sockets.get? core.socketId).elim [] fun s => s.select isolated sstBf).idxOf core

theorem mem_select {s : Socket} {core : Core} (h : core ∈ s.select isolated sstBf) :
    core ∈ s.cores.rows := by
  rw [select_eq_filter] at h
  exact List.mem_of_mem_filter h

theorem nodup_select (s : Socket) : (s.select isolated sstBf).Nodup := by
  rw [select_eq_filter]
  exact s.cores.nodup_rows.filter _

theorem rowOf_eq_iff {s : Socket} (hs : s ∈ p.sockets.rows) {core : Core} :
    p.rowOf core = p.sockets.keys.idxOf s.socketId ↔ core.socketId = s.socketId := by
  rw [Platform.rowOf, eq_comm, List.idxOf_inj (Table.key_mem_keys hs), eq_comm]

include hplaced

theorem socketId_of_mem_select {s : Socket} (hs : s ∈ p.sockets.rows) {core : Core}
    (h : core ∈ s.select isolated sstBf) : core.socketId = s.socketId :=
  hplaced s hs core (mem_select isolated sstBf h)

/-- **The matching cores**, socket by socket, are numbered by place. -/
theorem ranked_select : Ranked (p.rankOf isolated sstBf) p.rowOf 0
    (p.sockets.rows.map fun s => s.select isolated sstBf) := by
  have hrow : ∀ s ∈ p.sockets.rows, ∀ core ∈ s.select isolated sstBf,
      p.rowOf core = p.sockets.keys.idxOf s.socketId := fun s hs core hc =>
    (rowOf_eq_iff hs).mpr (socketId_of_mem_select hplaced isolated sstBf hs hc)
  refine ⟨fun r hr => ?_, fun r hr x hx y hy => ?_, ?_⟩
  · obtain ⟨s, hs, rfl⟩ := List.mem_map.mp hr
    have hidx : (s.select isolated sstBf).map (p.rankOf isolated sstBf) =
        (s.select isolated sstBf).map (s.select isolated sstBf).idxOf := by
      refine List.map_congr_left fun core hc => ?_
      rw [Platform.rankOf, socketId_of_mem_select hplaced isolated sstBf hs hc, Table.get?_key hs]
      rfl
    rw [hidx]
    refine List.ext_getElem (by simp) fun i hi hi' => ?_
    rw [List.getElem_map, (nodup_select isolated sstBf s).idxOf_getElem, List.getElem_range']
    omega
  · obtain ⟨s, hs, rfl⟩ := List.mem_map.mp hr
    rw [hrow s hs x hx, hrow s hs y hy]
  · have hkeys : p.sockets.rows.Pairwise fun s s' =>
        p.sockets.keys.idxOf s.socketId < p.sockets.keys.idxOf s'.socketId := by
      refine List.pairwise_iff_getElem.mpr fun i j hi hj hij => ?_
      have hkey : ∀ k (hk : k < p.sockets.rows.length),
          p.sockets.keys.idxOf p.sockets.rows[k].socketId = k := by
        intro k hk
        have hget := p.sockets.nodup.idxOf_getElem k (by simpa using hk)
        rwa [List.getElem_map] at hget
      rw [hkey i hi, hkey j hj]
      exact hij
    refine List.pairwise_map.mpr (hkeys.imp_of_mem fun {s s'} hs hs' hlt x hx y hy => ?_)
    rw [hrow s hs x hx, hrow s' hs' y hy]
    exact hlt

/-- The cores of a socket, in the order they are taken. -/
theorem filter_allocateSpread {s : Socket} (hs : s ∈ p.sockets.rows) :
    (p.allocateSpread isolated sstBf).filter (fun core => core.socketId = s.socketId) =
      s.select isolated sstBf := by
  have hrow : (fun core : Core => decide (core.socketId = s.socketId)) =
      fun core => decide (p.rowOf core = p.sockets.keys.idxOf s.socketId) :=
    funext fun core => decide_eq_decide.mpr (rowOf_eq_iff hs).symm
  rw [Platform.allocateSpread, hrow, filter_roundRobin (ranked_select hplaced isolated sstBf),
    ← hrow, ← List.flatMap_def, List.filter_flatMap]
  rw [Table.flatMap_of_key hs fun s' hs' hne => List.filter_eq_nil_iff.mpr fun core hc => ?_]
  · refine List.filter_eq_self.mpr fun core hc => decide_eq_true ?_
    exact socketId_of_mem_select hplaced isolated sstBf hs hc
  · rw [decide_eq_true_iff, socketId_of_mem_select hplaced isolated sstBf hs' hc]
    exact hne

/-- **Among the cores taken first**, a socket two behind another has none left. -/
theorem fair_allocateSpread {taken left : List Core}
    (h : taken ++ left = p.allocateSpread isolated sstBf) {s s' : Socket}
    (hs : s ∈ p.sockets.rows) (hs' : s' ∈ p.sockets.rows)
    (hlt : taken.countP (fun core => core.socketId = s.socketId) + 1 <
      taken.countP fun core => core.socketId = s'.socketId) :
    taken.countP (fun core => core.socketId = s.socketId) = (s.select isolated sstBf).length := by
  have hrow : ∀ {s : Socket}, s ∈ p.sockets.rows →
      (fun core : Core => decide (core.socketId = s.socketId)) =
        fun core => decide (p.rowOf core = p.sockets.keys.idxOf s.socketId) := fun hs =>
    funext fun core => decide_eq_decide.mpr (rowOf_eq_iff hs).symm
  rw [← filter_allocateSpread hplaced isolated sstBf hs, ← List.countP_eq_length_filter]
  rw [hrow hs, hrow hs'] at hlt
  rw [hrow hs]
  exact fair_of_append (ranked_select hplaced isolated sstBf) h hlt

omit hplaced

end Fair

/-- What `allocate_spread` promises of the cores it returns. -/
structure FairOrder (p : Platform) (isolated sstBf : Bool) (outputCores : List Core) : Prop where
  perm : outputCores.Perm (p.allocatePacked isolated sstBf)
  order : ∀ s ∈ p.sockets.rows, outputCores.filter (fun core => core.socketId = s.socketId) =
    s.select isolated sstBf
  fair : ∀ taken left, taken ++ left = outputCores → ∀ s ∈ p.sockets.rows,
    ∀ s' ∈ p.sockets.rows, taken.countP (fun core => core.socketId = s.socketId) + 1 <
        taken.countP (fun core => core.socketId = s'.socketId) →
      taken.countP (fun core => core.socketId = s.socketId) = (s.select isolated sstBf).length

/-- **`allocate_spread` is a fair round robin.**  Whatever the sockets and the filter, its loop
ends; what it returns are the cores of `allocate_packed`, those of a socket in the same order, and
at no point of it is a socket two cores behind another unless it has no more; and the lists there
were before the call, the tables of the sockets among them, are as they were. -/
theorem allocate_spread_fair (p : Platform)
    (hplaced : ∀ s ∈ p.sockets.rows, ∀ core ∈ s.cores.rows, core.socketId = s.socketId)
    (isolated sstBf : Bool) (lists : List (List Core)) :
    ∃ outputCores, FairOrder p isolated sstBf outputCores ∧ ∃ k, ∀ n ≥ k, ∃ v,
      p.spreadRun isolated sstBf lists n = .ok (some v) ∧ v.outputCores = outputCores ∧
        ∀ i < lists.length, v.lists[i]? = lists[i]? := by
  have hperm : (p.allocateSpread isolated sstBf).Perm (p.allocatePacked isolated sstBf) := by
    rw [Platform.allocatePacked, List.flatMap_def]
    exact perm_roundRobin _
  exact ⟨_, ⟨hperm, fun s hs => filter_allocateSpread hplaced isolated sstBf hs,
    fun taken left h s hs s' hs' => fair_allocateSpread hplaced isolated sstBf h hs hs'⟩,
    spreadRun_eq p isolated sstBf lists⟩

/-- Two cores on one socket and one on the other. -/
def twoAndOne : Platform where
  sockets := .ofList _ [⟨0, .ofList _ [⟨0, 0, .empty⟩, ⟨0, 1, .empty⟩]⟩,
    ⟨1, .ofList _ [⟨1, 2, .empty⟩]⟩]

theorem allocate_spread_fair_twoAndOne :
    ∃ outputCores, FairOrder twoAndOne false false outputCores ∧ ∃ k, ∀ n ≥ k, ∃ v,
      twoAndOne.spreadRun false false (twoAndOne.sockets.rows.map fun s => s.cores.rows) n =
          .ok (some v) ∧ v.outputCores = outputCores ∧
        ∀ i < (twoAndOne.sockets.rows.map fun s => s.cores.rows).length,
          v.lists[i]? = (twoAndOne.sockets.rows.map fun s => s.cores.rows)[i]? :=
  allocate_spread_fair twoAndOne (by decide) false false _

end Cmk.Topology
