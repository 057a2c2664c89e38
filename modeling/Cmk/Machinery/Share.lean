import Cmk.Machinery.Fair

/-!
# Machinery/Share — shares of a round robin

`share rows taken n` are the first `n` items of a round robin, those taken before left out.  A first
share is balanced (`fair_share`), and so is a second one after it (`fair_share_share`).  After
anything else taken from the fronts of the rows a share need not be: `behind_iff` says which two
items tell, and `mem_share_iff_ahead` whether they are in the share, by the sizes of the rows alone.
-/

namespace Machinery.Deal

variable {α : Type} {rank row : α → ℕ} {n : ℕ} {rows : List (List α)}

/-! ## The front of a row -/

/-- Whoever has an item of a row has all before it. -/
def FromFront (rank : α → ℕ) (rows : List (List α)) (P : α → Prop) : Prop :=
  ∀ r ∈ rows, ∀ x ∈ r, ∀ y ∈ r, rank x < rank y → P y → P x

theorem fromFront_nil : FromFront rank rows (· ∈ ([] : List α)) :=
  fun _ _ _ _ _ _ _ hP => (List.not_mem_nil hP).elim

/-- **Of a numbered row** the items somebody has are those up to their number. -/
theorem iff_rank_lt {r : List α} (hranks : r.map rank = List.range' 0 r.length) {P : α → Prop}
    [DecidablePred P] (hfront : ∀ x ∈ r, ∀ y ∈ r, rank x < rank y → P y → P x) {x : α}
    (hx : x ∈ r) : P x ↔ rank x < r.countP fun y => P y := by
  have hget : ∀ i (hi : i < r.length), rank r[i] = i := fun i hi => by
    rw [rank_of_getElem? hranks (List.getElem?_eq_getElem hi), Nat.zero_add]
  obtain ⟨i, hi, rfl⟩ := List.getElem_of_mem hx
  rw [hget i hi]
  have hcut : r.countP (fun y => P y) =
      (r.take i).countP (fun y => P y) + (r.drop i).countP fun y => P y := by
    rw [← List.countP_append, List.take_append_drop]
  constructor
  · intro hP
    have hall : (r.take (i + 1)).countP (fun y => P y) = (r.take (i + 1)).length := by
      refine List.countP_eq_length.mpr fun y hy => decide_eq_true ?_
      obtain ⟨j, hj, rfl⟩ := List.mem_take_iff_getElem.mp hy
      rcases Nat.lt_or_ge j i with hlt | hge
      · refine hfront _ (List.getElem_mem _) _ hx ?_ hP
        rwa [hget, hget]
      · obtain rfl : j = i := by omega
        exact hP
    have hle := (List.take_sublist (i + 1) r).countP_le (p := fun y => P y)
    rw [hall, List.length_take] at hle
    omega
  · intro hlt
    by_contra hP
    have hnone : (r.drop i).countP (fun y => P y) = 0 := by
      refine List.countP_eq_zero.mpr fun y hy => ?_
      obtain ⟨j, hj, rfl⟩ := List.mem_drop_iff_getElem.mp hy
      rw [decide_eq_true_iff]
      intro hPy
      rcases Nat.eq_zero_or_pos j with rfl | hpos
      · exact hP (by simpa using hPy)
      · refine hP (hfront _ hx _ (List.getElem_mem _) ?_ hPy)
        rw [hget, hget]
        omega
    have hle := List.countP_le_length (p := fun y => decide (P y)) (l := r.take i)
    rw [List.length_take] at hle
    omega

/-- The item of a row with a given number. -/
theorem Ranked.exists_rank (h : Ranked rank row 0 rows) {r : List α} (hr : r ∈ rows) {i : ℕ}
    (hi : i < r.length) : ∃ x ∈ r, rank x = i := by
  refine ⟨r[i], List.getElem_mem hi, ?_⟩
  rw [rank_of_getElem? (h.ranks r hr) (List.getElem?_eq_getElem hi), Nat.zero_add]

theorem Ranked.rank_lt (h : Ranked rank row 0 rows) {r : List α} (hr : r ∈ rows) {x : α}
    (hx : x ∈ r) : rank x < r.length := by
  have hmem := List.mem_map_of_mem (f := rank) hx
  rw [h.ranks r hr, List.mem_range'_1] at hmem
  omega

/-! ## Shares -/

theorem mem_roundRobin {x : α} : x ∈ roundRobin rows ↔ ∃ r ∈ rows, x ∈ r := by
  rw [(perm_roundRobin rows).mem_iff, List.mem_flatten]

variable [DecidableEq α] {taken : List α}

/-- The first `n` of a round robin, those taken before left out. -/
def share (rows : List (List α)) (taken : List α) (n : ℕ) : List α :=
  ((roundRobin rows).filter fun x => x ∉ taken).take n

theorem notMem_of_mem_share {x : α} (h : x ∈ share rows taken n) : x ∉ taken :=
  of_decide_eq_true (List.mem_filter.mp (List.mem_of_mem_take h)).2

/-- **What is in a share comes before what is not.** -/
theorem before_of_mem_share (h : Ranked rank row 0 rows) {x y : α}
    (hy : y ∈ share rows taken n) {r : List α} (hr : r ∈ rows) (hx : x ∈ r) (hfree : x ∉ taken)
    (hnot : x ∉ share rows taken n) : Before rank row y x := by
  have hpair := (pairwise_roundRobin h).filter fun x => x ∉ taken
  rw [← List.take_append_drop n (List.filter _ _), List.pairwise_append] at hpair
  refine hpair.2.2 y hy x ?_
  have hin : x ∈ (roundRobin rows).filter fun x => x ∉ taken :=
    List.mem_filter.mpr ⟨mem_roundRobin.mpr ⟨r, hr, hx⟩, decide_eq_true hfree⟩
  rw [← List.take_append_drop n (List.filter _ _)] at hin
  exact (List.mem_append.mp hin).resolve_left hnot

/-- With a share, what is taken still starts at the fronts. -/
theorem fromFront_share (h : Ranked rank row 0 rows) (htaken : FromFront rank rows (· ∈ taken)) :
    FromFront rank rows fun x => x ∈ taken ∨ x ∈ share rows taken n := by
  intro r hr x hx y hy hlt hP
  rcases hP with hP | hP
  · exact .inl (htaken r hr x hx y hy hlt hP)
  · by_contra hno
    rw [not_or] at hno
    have hb := before_of_mem_share h hP hr hx hno.1 hno.2
    unfold Before at hb
    omega

theorem countP_or_share (r : List α) :
    r.countP (fun x => x ∈ taken ∨ x ∈ share rows taken n) =
      r.countP (fun x => x ∈ taken) + r.countP fun x => x ∈ share rows taken n := by
  induction r with
  | nil => rfl
  | cons x r ih =>
    have hapart : x ∈ share rows taken n → x ∉ taken := notMem_of_mem_share
    rw [List.countP_cons, List.countP_cons, List.countP_cons, ih]
    by_cases ht : x ∈ taken <;> by_cases hs : x ∈ share rows taken n <;> simp [ht, hs] <;> grind

/-- The items of a row in the share, by their number. -/
theorem mem_share_iff_rank (h : Ranked rank row 0 rows) (htaken : FromFront rank rows (· ∈ taken))
    {r : List α} (hr : r ∈ rows) {x : α} (hx : x ∈ r) :
    (x ∈ taken ↔ rank x < r.countP fun y => y ∈ taken) ∧
      (x ∈ taken ∨ x ∈ share rows taken n ↔ rank x < r.countP (fun y => y ∈ taken) +
        r.countP fun y => y ∈ share rows taken n) := by
  rw [← countP_or_share]
  exact ⟨iff_rank_lt (h.ranks r hr) (htaken r hr) hx,
    iff_rank_lt (h.ranks r hr) (fromFront_share h htaken r hr) hx⟩

/-- **A row is behind another**, with items left, exactly when for some number the next item of the
one is not in the share while the one after it of the other is. -/
theorem behind_iff (h : Ranked rank row 0 rows) (htaken : FromFront rank rows (· ∈ taken))
    {r r' : List α} (hr : r ∈ rows) (hr' : r' ∈ rows) :
    (r.countP (fun x => x ∈ share rows taken n) + 1 <
        r'.countP (fun x => x ∈ share rows taken n) ∧
      ∃ x ∈ r, x ∉ taken ∧ x ∉ share rows taken n) ↔
    ∃ c, ∃ x ∈ r, ∃ y ∈ r', rank x = r.countP (fun x => x ∈ taken) + c ∧
      rank y = r'.countP (fun x => x ∈ taken) + c + 1 ∧
        x ∉ share rows taken n ∧ y ∈ share rows taken n := by
  constructor
  · rintro ⟨hlt, z, hz, hfree, hnot⟩
    have hz' := mt (mem_share_iff_rank (n := n) h htaken hr hz).2.mpr (by simp [hfree, hnot])
    have hlen := h.rank_lt hr hz
    obtain ⟨x, hx, hrank⟩ := h.exists_rank hr (i := r.countP (fun x => x ∈ taken) +
      r.countP fun x => x ∈ share rows taken n) (by omega)
    have hle := List.countP_le_length (l := r')
      (p := fun x => decide (x ∈ taken ∨ x ∈ share rows taken n))
    rw [countP_or_share] at hle
    obtain ⟨y, hy, hrank'⟩ := h.exists_rank hr' (i := r'.countP (fun x => x ∈ taken) +
      r.countP (fun x => x ∈ share rows taken n) + 1) (by omega)
    refine ⟨_, x, hx, y, hy, hrank, hrank', fun hin => ?_, ?_⟩
    · have := (mem_share_iff_rank h htaken hr hx).2.mp (.inr hin)
      omega
    · have hy' := mem_share_iff_rank (n := n) h htaken hr' hy
      refine (hy'.2.mpr (by omega)).resolve_left fun hin => ?_
      have := hy'.1.mp hin
      omega
  · rintro ⟨c, x, hx, y, hy, hrank, hrank', hnot, hin⟩
    have hx' := mem_share_iff_rank (n := n) h htaken hr hx
    have hfree : x ∉ taken := fun hin => by
      have := hx'.1.mp hin
      omega
    have hy' := (mem_share_iff_rank h htaken hr' hy).2.mp (.inr hin)
    have hx'' := mt hx'.2.mpr (by simp [hfree, hnot])
    exact ⟨by omega, x, hx, hfree, hnot⟩

/-- **A first share is balanced**: a row two items behind another is used up. -/
theorem fair_share (h : Ranked rank row 0 rows) {r r' : List α} (hr : r ∈ rows) (hr' : r' ∈ rows)
    (hlt : r.countP (fun x => x ∈ share rows [] n) + 1 < r'.countP fun x => x ∈ share rows [] n)
    {x : α} (hx : x ∈ r) : x ∈ share rows [] n := by
  by_contra hnot
  obtain ⟨c, x, hx, y, hy, hrank, hrank', hnot, hin⟩ :=
    (behind_iff h fromFront_nil hr hr').mp ⟨hlt, x, hx, List.not_mem_nil, hnot⟩
  have hb := before_of_mem_share h hin hr hx List.not_mem_nil hnot
  simp only [List.not_mem_nil, decide_false, List.countP_false, Function.const_apply]
    at hrank hrank'
  unfold Before at hb
  omega

/-- **And so is a second**: what the first took more from one row than from another is at most the
item by which the other is then ahead. -/
theorem fair_share_share (h : Ranked rank row 0 rows) {m : ℕ} {r r' : List α} (hr : r ∈ rows)
    (hr' : r' ∈ rows) (hlt : r.countP (fun x => x ∈ share rows (share rows [] m) n) + 1 <
      r'.countP fun x => x ∈ share rows (share rows [] m) n) {x : α} (hx : x ∈ r) :
    x ∈ share rows [] m ∨ x ∈ share rows (share rows [] m) n := by
  have htaken : FromFront rank rows (· ∈ share rows [] m) := by
    simpa using fromFront_share (n := m) h fromFront_nil
  have hfront : ∀ {r}, r ∈ rows → ∀ {x}, x ∈ r →
      (x ∈ share rows [] m ↔ rank x < r.countP fun x => x ∈ share rows [] m) :=
    fun hr _ hx => iff_rank_lt (h.ranks _ hr) (htaken _ hr) hx
  by_contra hno
  rw [not_or] at hno
  obtain ⟨c, x, hx, y, hy, hrank, hrank', hnot, hin⟩ :=
    (behind_iff h htaken hr hr').mp ⟨hlt, x, hx, hno.1, hno.2⟩
  have hb := before_of_mem_share h hin hr hx (fun hx' => by
    have := (hfront hr hx).mp hx'
    omega) hnot
  have hylen := h.rank_lt hr' hy
  -- the last item the first share took of the one row, and the first it left of the other
  obtain ⟨z, hz, hzrank⟩ := h.exists_rank hr (i := r.countP (fun x => x ∈ share rows [] m) - 1)
    (by have := h.rank_lt hr hx; omega)
  obtain ⟨w, hw, hwrank⟩ := h.exists_rank hr' (i := r'.countP fun x => x ∈ share rows [] m)
    (by omega)
  have hpos : 0 < r.countP fun x => x ∈ share rows [] m := by
    unfold Before at hb
    omega
  have hb' := before_of_mem_share h ((hfront hr hz).mpr (by omega)) hr' hw List.not_mem_nil
    fun hw' => by
      have := (hfront hr' hw).mp hw'
      omega
  have hsame := h.same r hr z hz x hx
  have hsame' := h.same r' hr' w hw y hy
  unfold Before at hb hb'
  omega

/-! ## What comes before an item, by the sizes of the rows -/

/-- The items a round robin lists before place `r` of row `k`, the first `e i` of every row `i` left
out. -/
def ahead (sizes : List ℕ) (e : ℕ → ℕ) (r k : ℕ) : ℕ :=
  (sizes.zipIdx.map fun s => min s.1 (if s.2 < k then r + 1 else r) - e s.2).sum

theorem countP_range_between (len e b : ℕ) :
    (List.range len).countP (fun i => e ≤ i ∧ i < b) = min len b - e := by
  induction len with
  | zero => simp
  | succ len ih =>
    rw [List.range_succ, List.countP_append, ih, List.countP_singleton]
    split <;> simp_all <;> omega

/-- Of one row. -/
theorem countP_row (h : Ranked rank row 0 rows) {r : List α} (hr : r ∈ rows) {e i : ℕ}
    (htaken : ∀ y ∈ r, y ∈ taken ↔ rank y < e) (hi : ∀ y ∈ r, row y = i) (x : α) :
    r.countP (fun y => Before rank row y x ∧ y ∉ taken) =
      min r.length (if i < row x then rank x + 1 else rank x) - e := by
  have hrank : r.countP (fun y => Before rank row y x ∧ y ∉ taken) =
      (r.map rank).countP fun j => e ≤ j ∧ j < if i < row x then rank x + 1 else rank x := by
    rw [List.countP_map]
    refine List.countP_congr fun y hy => ?_
    simp only [decide_eq_true_eq, Function.comp_apply, htaken y hy, Before, hi y hy]
    split <;> omega
  rw [hrank, h.ranks r hr, ← List.range_eq_range']
  exact countP_range_between _ _ _

/-- **Whether an item is in a share**, by the sizes of the rows. -/
theorem mem_share_iff_ahead (h : Ranked rank row 0 rows) {e : ℕ → ℕ}
    (htaken : ∀ r ∈ rows, ∀ y ∈ r, y ∈ taken ↔ rank y < e (row y))
    (hrow : ∀ i r, rows[i]? = some r → ∀ y ∈ r, row y = i) {r : List α} (hr : r ∈ rows) {x : α}
    (hx : x ∈ r) (hfree : x ∉ taken) :
    x ∈ share rows taken n ↔ ahead (rows.map List.length) e (rank x) (row x) < n := by
  have hin : x ∈ (roundRobin rows).filter fun x => x ∉ taken :=
    List.mem_filter.mpr ⟨mem_roundRobin.mpr ⟨r, hr, hx⟩, decide_eq_true hfree⟩
  rw [share, mem_take_iff (fun x => Before.irrefl) (fun x y hxy => hxy.asymm)
    ((pairwise_roundRobin h).filter _) hin, List.countP_filter]
  have hcount : (roundRobin rows).countP
      (fun y => decide (Before rank row y x) && decide (y ∉ taken)) =
        ahead (rows.map List.length) e (rank x) (row x) := by
    rw [(perm_roundRobin rows).countP_eq, List.countP_flatten, ahead, List.zipIdx_map,
      List.map_map, ← List.zipIdx_map_fst 0 rows, List.map_map, List.zipIdx_map_fst]
    refine congrArg List.sum (List.map_congr_left fun s hs => ?_)
    have hget : rows[s.2]? = some s.1 := List.mem_zipIdx_iff_getElem?.mp hs
    have hr := List.mem_of_getElem? hget
    have hone := @countP_row α rank row rows _ taken h s.1 hr (e s.2) s.2
      (fun y hy => by rw [htaken s.1 hr y hy, hrow s.2 s.1 hget y hy]) (hrow s.2 s.1 hget) x
    simpa using hone
  rw [hcount]

/-! ## Rows one after the other -/

omit [DecidableEq α] in
/-- **Among the first `n` items**, all rows put together, by the sizes of the rows. -/
theorem mem_take_flatten_iff (h : Ranked rank row 0 rows) {i : ℕ} {r : List α}
    (hget : rows[i]? = some r) {x : α} (hx : x ∈ r) :
    x ∈ rows.flatten.take n ↔ rank x < n - ((rows.map List.length).take i).sum := by
  classical
  obtain ⟨hi, rfl⟩ := List.getElem?_eq_some_iff.mp hget
  have hrows : rows = rows.take i ++ rows[i] :: rows.drop (i + 1) := by
    rw [← List.drop_eq_getElem_cons hi, List.take_append_drop]
  have hapart := h.apart
  rw [hrows, List.pairwise_append] at hapart
  have hnot : x ∉ (rows.take i).flatten := fun hmem => by
    obtain ⟨r, hr, hxr⟩ := List.mem_flatten.mp hmem
    exact (hapart.2.2 r hr _ (.head _) x hxr x hx).false
  have hidx : rows[i].idxOf x = rank x := by
    have hget := List.getElem?_idxOf hx
    rw [rank_of_getElem? (h.ranks _ (List.getElem_mem hi)) hget, Nat.zero_add]
  have hpos : rows.flatten.idxOf x = ((rows.map List.length).take i).sum + rank x := by
    rw [← List.map_take, ← List.length_flatten]
    conv_lhs => rw [hrows, List.flatten_append, List.flatten_cons]
    rw [List.idxOf_append_of_notMem hnot, List.idxOf_append_of_mem hx, hidx]
  rw [List.mem_take_iff_idxOf_lt (List.mem_flatten.mpr ⟨_, List.getElem_mem hi, hx⟩), hpos]
  omega

/-- How many of a row somebody has who has those up to a number. -/
theorem countP_rank_lt (h : Ranked rank row 0 rows) {r : List α} (hr : r ∈ rows) {e : ℕ}
    (htaken : ∀ y ∈ r, y ∈ taken ↔ rank y < e) :
    r.countP (fun y => y ∈ taken) = min r.length e := by
  have hrank : r.countP (fun y => y ∈ taken) =
      (r.map rank).countP fun j => 0 ≤ j ∧ j < e := by
    rw [List.countP_map]
    refine List.countP_congr fun y hy => ?_
    simp [htaken y hy]
  rw [hrank, h.ranks r hr, ← List.range_eq_range', countP_range_between, Nat.sub_zero]

/-- A share of `n` items, the first `e i` of every row `i` being taken, has the `c`-th item left of
one row out and the one after it of another row in. -/
def Uneven (sizes : List ℕ) (e : ℕ → ℕ) (n : ℕ) : Prop :=
  ∃ i k c, e i + c < sizes.getD i 0 ∧ e k + c + 1 < sizes.getD k 0 ∧
    ahead sizes e (e k + c + 1) k < n ∧ n ≤ ahead sizes e (e i + c) i

section Places

variable (h : Ranked rank row 0 rows) {e : ℕ → ℕ}
  (hrow : ∀ i r, rows[i]? = some r → ∀ y ∈ r, row y = i)
  (htaken : ∀ i r, rows[i]? = some r → ∀ y ∈ r, y ∈ taken ↔ rank y < e i)

include h hrow htaken

/-- Who has the first `e i` of a row and then `c`, and who has not, by the numbers. -/
theorem mem_share_iff_place {i c : ℕ} {r : List α} (hget : rows[i]? = some r) {y : α} (hy : y ∈ r)
    (hrank : rank y = e i + c) : y ∉ taken ∧
      (y ∈ share rows taken n ↔ ahead (rows.map List.length) e (e i + c) i < n) := by
  have hmem : ∀ r ∈ rows, ∀ y ∈ r, y ∈ taken ↔ rank y < e (row y) := fun r hr y hy => by
    obtain ⟨i, hget⟩ := List.getElem?_of_mem hr
    rw [hrow i r hget y hy]
    exact htaken i r hget y hy
  have hfree : y ∉ taken := fun hin => by
    have := (htaken i r hget y hy).mp hin
    omega
  refine ⟨hfree, ?_⟩
  rw [mem_share_iff_ahead h hmem hrow (List.mem_of_getElem? hget) hy hfree, hrow i r hget y hy,
    hrank]

/-- **When one row is behind another**, by the sizes of the rows. -/
theorem behind_iff_ahead {i k : ℕ} {r r' : List α} (hget : rows[i]? = some r)
    (hget' : rows[k]? = some r') :
    (r.countP (fun x => x ∈ share rows taken n) + 1 <
        r'.countP (fun x => x ∈ share rows taken n) ∧
      ∃ x ∈ r, x ∉ taken ∧ x ∉ share rows taken n) ↔
      ∃ c, e i + c < r.length ∧ e k + c + 1 < r'.length ∧
        ahead (rows.map List.length) e (e k + c + 1) k < n ∧
          n ≤ ahead (rows.map List.length) e (e i + c) i := by
  have hfront : FromFront rank rows (· ∈ taken) := fun r hr x hx y hy hlt hin => by
    obtain ⟨i, hget⟩ := List.getElem?_of_mem hr
    exact (htaken i r hget x hx).mpr (hlt.trans ((htaken i r hget y hy).mp hin))
  have hr := List.mem_of_getElem? hget
  have hr' := List.mem_of_getElem? hget'
  rw [behind_iff h hfront hr hr', countP_rank_lt h hr (htaken i r hget),
    countP_rank_lt h hr' (htaken k r' hget')]
  constructor
  · rintro ⟨c, x, hx, y, hy, hrank, hrank', hnot, hin⟩
    have hlen := h.rank_lt hr hx
    have hlen' := h.rank_lt hr' hy
    have hplace := mem_share_iff_place h hrow htaken hget hx
      (show rank x = e i + c by omega) (n := n)
    have hplace' := mem_share_iff_place h hrow htaken hget' hy
      (show rank y = e k + (c + 1) by omega) (n := n)
    exact ⟨c, by omega, by omega, hplace'.2.mp hin, Nat.le_of_not_lt (mt hplace.2.mpr hnot)⟩
  · rintro ⟨c, hi, hk, hin, hnot⟩
    obtain ⟨x, hx, hxrank⟩ := h.exists_rank hr hi
    obtain ⟨y, hy, hyrank⟩ := h.exists_rank hr' hk
    have hplace := mem_share_iff_place h hrow htaken hget hx hxrank (n := n)
    have hplace' := mem_share_iff_place h hrow htaken hget' hy
      (show rank y = e k + (c + 1) by omega) (n := n)
    exact ⟨c, x, hx, y, hy, by omega, by omega, mt hplace.2.mp (Nat.not_lt.mpr hnot),
      hplace'.2.mpr hin⟩

/-- **When some row is behind another**, by the sizes of the rows. -/
theorem exists_behind_iff :
    (∃ r ∈ rows, ∃ r' ∈ rows, r.countP (fun x => x ∈ share rows taken n) + 1 <
        r'.countP (fun x => x ∈ share rows taken n) ∧
      ∃ x ∈ r, x ∉ taken ∧ x ∉ share rows taken n) ↔ Uneven (rows.map List.length) e n := by
  have hsize : ∀ i r, rows[i]? = some r → (rows.map List.length).getD i 0 = r.length :=
    fun i r hget => by rw [List.getD_eq_getElem?_getD, List.getElem?_map, hget]; rfl
  constructor
  · rintro ⟨r, hr, r', hr', hbehind⟩
    obtain ⟨i, hget⟩ := List.getElem?_of_mem hr
    obtain ⟨k, hget'⟩ := List.getElem?_of_mem hr'
    obtain ⟨c, hi, hk, hin, hnot⟩ := (behind_iff_ahead h hrow htaken hget hget').mp hbehind
    exact ⟨i, k, c, hsize i r hget ▸ hi, hsize k r' hget' ▸ hk, hin, hnot⟩
  · rintro ⟨i, k, c, hi, hk, hin, hnot⟩
    have hex : ∀ j, 0 < (rows.map List.length).getD j 0 → ∃ r, rows[j]? = some r := fun j hj => by
      by_contra hno
      have hnone : rows[j]? = none :=
        Option.eq_none_iff_forall_ne_some.mpr fun r hr => hno ⟨r, hr⟩
      rw [List.getD_eq_getElem?_getD, List.getElem?_map, hnone] at hj
      exact absurd hj (Nat.lt_irrefl 0)
    obtain ⟨r, hget⟩ := hex i (by omega)
    obtain ⟨r', hget'⟩ := hex k (by omega)
    exact ⟨r, List.mem_of_getElem? hget, r', List.mem_of_getElem? hget',
      (behind_iff_ahead h hrow htaken hget hget').mpr
        ⟨c, hsize i r hget ▸ hi, hsize k r' hget' ▸ hk, hin, hnot⟩⟩

end Places

end Machinery.Deal
