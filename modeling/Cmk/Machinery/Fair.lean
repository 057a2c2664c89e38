import Cmk.Machinery.Deal

/-!
# Machinery/Fair — the order of a round robin

Number the rows, and the items of every row along it: a round robin lists the items by their number,
those of one number by their row (`pairwise_roundRobin`).  So it keeps the order of every row
(`filter_roundRobin`), and in whatever is dealt first no row is two items behind another unless it
is used up (`fair_of_append`).

An item of a list in order is among the first `n` exactly when fewer than `n` items come before it
(`mem_take_iff`).
-/

namespace Machinery.Deal

variable {α : Type} (rank row : α → ℕ)

/-- By rank, and within a rank by row. -/
def Before (x y : α) : Prop := rank x < rank y ∨ rank x = rank y ∧ row x < row y

instance : DecidableRel (Before rank row) := fun _ _ => inferInstanceAs (Decidable (_ ∨ _))

/-- Rows in order, the items of each numbered from `n` on. -/
structure Ranked (n : ℕ) (rows : List (List α)) : Prop where
  ranks : ∀ r ∈ rows, r.map rank = List.range' n r.length
  same : ∀ r ∈ rows, ∀ x ∈ r, ∀ y ∈ r, row x = row y
  apart : rows.Pairwise fun r r' => ∀ x ∈ r, ∀ y ∈ r', row x < row y

variable {rank row} {n m : ℕ} {rows : List (List α)} {x y : α}

theorem Before.irrefl : ¬ Before rank row x x := by
  simp [Before]

theorem Before.asymm (h : Before rank row x y) : ¬ Before rank row y x := by
  unfold Before at *
  omega

/-! ## Rows and turns -/

theorem turns_nil (n : ℕ) : turns n ([] : List (List α)) = [] := by
  cases n <;> rfl

theorem mem_heads : x ∈ heads rows ↔ ∃ r ∈ rows, r.head? = some x := List.mem_filterMap

theorem mem_tails {r : List α} : r ∈ tails rows ↔ ∃ x, x :: r ∈ rows := by
  rw [tails, List.mem_map]
  constructor
  · rintro ⟨r', hr', rfl⟩
    obtain ⟨hr', hne⟩ := List.mem_filter.mp hr'
    cases r' with
    | nil => simp at hne
    | cons x r' => exact ⟨x, hr'⟩
  · rintro ⟨x, hx⟩
    exact ⟨x :: r, List.mem_filter.mpr ⟨hx, rfl⟩, rfl⟩

theorem Ranked.tail {r : List α} (h : Ranked rank row n (r :: rows)) : Ranked rank row n rows :=
  ⟨fun r' hr' => h.ranks r' (.tail r hr'), fun r' hr' => h.same r' (.tail r hr'),
    (List.pairwise_cons.mp h.apart).2⟩

/-- After a turn the rows are numbered from the next number on. -/
theorem Ranked.tails (h : Ranked rank row n rows) : Ranked rank row (n + 1) (tails rows) := by
  refine ⟨fun r hr => ?_, fun r hr x hx y hy => ?_, ?_⟩
  · obtain ⟨x, hx⟩ := mem_tails.mp hr
    have hranks := h.ranks _ hx
    rw [List.map_cons, List.length_cons, List.range'_succ] at hranks
    exact (List.cons.inj hranks).2
  · obtain ⟨z, hz⟩ := mem_tails.mp hr
    exact h.same _ hz x (.tail z hx) y (.tail z hy)
  · refine List.pairwise_map.mpr ((h.apart.filter _).imp fun {r r'} hlt x hx y hy => ?_)
    exact hlt x (List.mem_of_mem_tail hx) y (List.mem_of_mem_tail hy)

theorem Ranked.le_rank (h : Ranked rank row n rows) {r : List α} (hr : r ∈ rows) (hx : x ∈ r) :
    n ≤ rank x := by
  have hmem := List.mem_map_of_mem (f := rank) hx
  rw [h.ranks r hr, List.mem_range'_1] at hmem
  exact hmem.1

theorem Ranked.rank_head (h : Ranked rank row n rows) (hx : x ∈ heads rows) : rank x = n := by
  obtain ⟨r, hr, hhead⟩ := mem_heads.mp hx
  obtain ⟨xs, rfl⟩ := List.head?_eq_some_iff.mp hhead
  have hranks := h.ranks _ hr
  rw [List.map_cons, List.length_cons, List.range'_succ] at hranks
  exact (List.cons.inj hranks).1

theorem exists_mem_of_mem_turns (h : x ∈ turns m rows) : ∃ r ∈ rows, x ∈ r := by
  induction m generalizing rows with
  | zero => cases h
  | succ m ih =>
    rw [turns] at h
    split at h
    · cases h
    · rcases List.mem_append.mp h with h | h
      · obtain ⟨r, hr, hx⟩ := mem_heads.mp h
        exact ⟨r, hr, List.mem_of_mem_head? hx⟩
      · obtain ⟨r, hr, hx⟩ := ih h
        obtain ⟨z, hz⟩ := mem_tails.mp hr
        exact ⟨_, hz, .tail z hx⟩

/-- Induction on the turns: the heads come in the order of their rows, and before all the rest. -/
theorem pairwise_turns (h : Ranked rank row n rows) :
    (turns m rows).Pairwise (Before rank row) := by
  induction m generalizing n rows with
  | zero => exact .nil
  | succ m ih =>
    rw [turns]
    split
    · exact .nil
    · refine List.pairwise_append.mpr ⟨?_, ih h.tails, fun x hx y hy => ?_⟩
      · have hrows : (heads rows).Pairwise fun x y => row x < row y := by
          refine List.pairwise_filterMap.mpr (h.apart.imp fun {r r'} hlt x hx y hy => ?_)
          exact hlt x (List.mem_of_mem_head? hx) y (List.mem_of_mem_head? hy)
        refine hrows.imp_of_mem fun hx hy hlt => .inr ⟨?_, hlt⟩
        rw [h.rank_head hx, h.rank_head hy]
      · obtain ⟨r, hr, hy⟩ := exists_mem_of_mem_turns hy
        have hle := h.tails.le_rank hr hy
        have hx := h.rank_head hx
        exact .inl (by omega)

/-- **A round robin goes by rank, then by row.** -/
theorem pairwise_roundRobin (h : Ranked rank row n rows) :
    (roundRobin rows).Pairwise (Before rank row) := pairwise_turns h

/-! ## One row of it -/

/-- The items of one row, among those of all rows. -/
theorem map_rank_filter (h : Ranked rank row n rows) (k : ℕ) :
    (rows.flatten.filter fun x => row x = k).map rank =
      List.range' n (rows.flatten.filter fun x => row x = k).length := by
  induction rows with
  | nil => rfl
  | cons r rows ih =>
    rw [List.flatten_cons, List.filter_append]
    by_cases hk : ∃ x ∈ r, row x = k
    · obtain ⟨x, hx, rfl⟩ := hk
      have hall : r.filter (fun y => row y = row x) = r :=
        List.filter_eq_self.mpr fun y hy => decide_eq_true (h.same r (.head rows) y hy x hx)
      have hnone : rows.flatten.filter (fun y => row y = row x) = [] := by
        refine List.filter_eq_nil_iff.mpr fun y hy => ?_
        obtain ⟨r', hr', hy⟩ := List.mem_flatten.mp hy
        have hlt := (List.pairwise_cons.mp h.apart).1 r' hr' x hx y hy
        simpa using hlt.ne'
      rw [hall, hnone, List.append_nil]
      exact h.ranks r (.head rows)
    · have hnone : r.filter (fun y => row y = k) = [] :=
        List.filter_eq_nil_iff.mpr fun y hy hyk => hk ⟨y, hy, of_decide_eq_true hyk⟩
      rw [hnone, List.nil_append]
      exact ih h.tail

/-- **The order of every row is kept.** -/
theorem filter_roundRobin (h : Ranked rank row n rows) (k : ℕ) :
    (roundRobin rows).filter (fun x => row x = k) = rows.flatten.filter fun x => row x = k := by
  have hpair : ((roundRobin rows).filter fun x => row x = k).Pairwise
      fun x y => rank x < rank y := by
    refine ((pairwise_roundRobin h).filter fun x => row x = k).imp_of_mem fun {x y} hx hy hb => ?_
    have hx := of_decide_eq_true (List.mem_filter.mp hx).2
    have hy := of_decide_eq_true (List.mem_filter.mp hy).2
    unfold Before at hb
    omega
  have hpair' : (rows.flatten.filter fun x => row x = k).Pairwise fun x y => rank x < rank y := by
    refine List.pairwise_map.mp ?_
    rw [map_rank_filter h k]
    exact List.pairwise_lt_range'
  refine List.Perm.eq_of_pairwise ?_ hpair hpair' ((perm_roundRobin rows).filter _)
  exact fun x y _ _ hxy hyx => absurd hxy (Nat.lt_asymm hyx)

theorem rank_of_getElem? {xs : List α} (h : xs.map rank = List.range' n xs.length) {i : ℕ}
    (hx : xs[i]? = some x) : rank x = n + i := by
  obtain ⟨hi, -⟩ := List.getElem?_eq_some_iff.mp hx
  have hget := congrArg (·[i]?) h
  rw [List.getElem?_map, hx, List.getElem?_range' hi] at hget
  simpa using hget

/-- **Fairness.**  In whatever comes first, a row with two items less than another is used up. -/
theorem fair_of_append (h : Ranked rank row 0 rows) {before after : List α}
    (hxs : before ++ after = roundRobin rows) {k k' : ℕ}
    (hlt : before.countP (fun x => row x = k) + 1 < before.countP fun x => row x = k') :
    before.countP (fun x => row x = k) = (roundRobin rows).countP fun x => row x = k := by
  have hranks : ∀ k i x, (before.filter (fun x => row x = k) ++
      after.filter fun x => row x = k)[i]? = some x → rank x = 0 + i := by
    intro k i x hx
    rw [← List.filter_append, hxs, filter_roundRobin h] at hx
    exact rank_of_getElem? (map_rank_filter h k) hx
  rw [List.countP_eq_length_filter, List.countP_eq_length_filter] at hlt ⊢
  rw [← hxs, List.filter_append, List.length_append]
  by_contra hne
  -- the next item of the row that is behind, and the second after it of the other
  have hafter : 0 < (after.filter fun x => row x = k).length := by omega
  have hx₀ := List.getElem?_eq_getElem hafter
  have hy₀ := List.getElem?_eq_getElem hlt
  have hrank := hranks k (before.filter fun x => row x = k).length _
    (by rw [List.getElem?_append_right le_rfl, Nat.sub_self, hx₀])
  have hrank' := hranks k' ((before.filter fun x => row x = k).length + 1) _
    (by rw [List.getElem?_append_left hlt, hy₀])
  have hpair := pairwise_roundRobin h
  rw [← hxs] at hpair
  have hb := (List.pairwise_append.mp hpair).2.2 _
    (List.mem_of_mem_filter (List.mem_of_getElem? hy₀)) _
    (List.mem_of_mem_filter (List.mem_of_getElem? hx₀))
  unfold Before at hb
  omega

/-! ## The first items of a list in order -/

/-- **An item is among the first `n`** exactly when fewer than `n` come before it. -/
theorem mem_take_iff {R : α → α → Prop} [DecidableRel R] (hirr : ∀ x, ¬ R x x)
    (hasymm : ∀ x y, R x y → ¬ R y x) {xs : List α} (hs : xs.Pairwise R) (hx : x ∈ xs) :
    x ∈ xs.take n ↔ xs.countP (fun y => R y x) < n := by
  obtain ⟨before, after, rfl⟩ := List.append_of_mem hx
  obtain ⟨-, hafter, hbefore⟩ := List.pairwise_append.mp hs
  have hcount : (before ++ x :: after).countP (fun y => R y x) = before.length := by
    have hall : before.countP (fun y => R y x) = before.length :=
      List.countP_eq_length.mpr fun y hy => decide_eq_true (hbefore y hy x (.head after))
    have hnone : after.countP (fun y => R y x) = 0 := List.countP_eq_zero.mpr fun y hy => by
      simpa using hasymm x y ((List.pairwise_cons.mp hafter).1 y hy)
    rw [List.countP_append, hall, List.countP_cons_of_neg (by simpa using hirr x), hnone]
    omega
  rw [hcount]
  constructor
  · intro hmem
    by_contra hle
    rw [List.take_append_of_le_length (by omega)] at hmem
    exact hirr x (hbefore x (List.mem_of_mem_take hmem) x (.head after))
  · intro hlt
    rw [List.take_append]
    refine List.mem_append_right _ ?_
    obtain ⟨d, hd⟩ := Nat.exists_eq_add_of_lt hlt
    rw [show n - before.length = d + 1 by omega, List.take_succ_cons]
    exact .head _

end Machinery.Deal
