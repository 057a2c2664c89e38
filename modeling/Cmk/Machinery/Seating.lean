import Mathlib.Data.List.Nodup
import Mathlib.Data.List.Perm.Subperm
import Mathlib.Tactic

/-!
# Machinery/Seating — giving guests seats of their kind

A guest takes one seat, of its own kind.  `settle` lets every guest whose home is among the seats
keep it; `seat` gives every other guest the first open seat of its kind, if there is one.  Both
together seat everybody exactly when no kind has more guests than seats (`seating_complete_iff`).

A plan lists who sits where, the latest first.
-/

namespace Machinery.Seating

variable {γ σ κ : Type} [DecidableEq σ] [DecidableEq κ]

abbrev Plan (γ σ : Type) := List (γ × σ)

section Definitions

variable (wants : γ → κ) (kind : σ → κ) (home : γ → σ) (seats : List σ)

/-- The first open seat of the kind a guest wants. -/
def open? (plan : Plan γ σ) (g : γ) : Option σ :=
  seats.find? fun s => kind s = wants g ∧ s ∉ plan.map Prod.snd

/-- The plan after all guests have looked for a seat, and those who found none. -/
def seat : Plan γ σ → List γ → Plan γ σ × List γ
  | plan, [] => (plan, [])
  | plan, g :: gs =>
    match open? wants kind seats plan g with
    | some s => seat ((g, s) :: plan) gs
    | none => ((seat plan gs).1, g :: (seat plan gs).2)

/-- The guests whose home is a seat. -/
def settled (gs : List γ) : List γ := gs.filter (home · ∈ seats)

/-- The others. -/
def movers (gs : List γ) : List γ := gs.filter (home · ∉ seats)

def settle (gs : List γ) : Plan γ σ := ((settled home seats gs).map fun g => (g, home g)).reverse

def seating (gs : List γ) : Plan γ σ × List γ :=
  seat wants kind seats (settle home seats gs) (movers home seats gs)

/-- Nobody shares a seat, and everybody's is of the kind wanted. -/
structure Valid (plan : Plan γ σ) : Prop where
  nodup : (plan.map Prod.snd).Nodup
  seats : ∀ x ∈ plan, x.2 ∈ seats
  kinds : ∀ x ∈ plan, kind x.2 = wants x.1

end Definitions

variable {wants : γ → κ} {kind : σ → κ} {home : γ → σ} {seats : List σ} {plan : Plan γ σ}
  {g : γ} {gs : List γ}

theorem open?_eq_some {s : σ} (h : open? wants kind seats plan g = some s) :
    s ∈ seats ∧ kind s = wants g ∧ s ∉ plan.map Prod.snd := by
  have hp := List.find?_some h
  exact ⟨List.mem_of_find?_eq_some h, by simpa using hp⟩

theorem open?_eq_none (h : open? wants kind seats plan g = none) {s : σ} (hs : s ∈ seats)
    (hk : kind s = wants g) : s ∈ plan.map Prod.snd := by
  have hn := List.find?_eq_none.mp h s hs
  by_contra hc
  exact hn (by simpa [hk] using hc)

theorem open?_eq_find? {P : σ → Bool}
    (h : ∀ s ∈ seats, P s = true ↔ kind s = wants g ∧ ∀ x ∈ plan, x.2 ≠ s) :
    open? wants kind seats plan g = seats.find? P := by
  refine List.find?_congr fun s hs => Bool.eq_iff_iff.mpr ?_
  rw [h s hs, decide_eq_true_iff, List.mem_map, not_exists]
  exact and_congr_right fun _ => forall_congr' fun x => not_and

/-! ## What seating keeps -/

theorem Valid.cons (h : Valid wants kind seats plan) {s : σ}
    (ho : open? wants kind seats plan g = some s) : Valid wants kind seats ((g, s) :: plan) := by
  obtain ⟨hs, hk, hn⟩ := open?_eq_some ho
  exact ⟨List.nodup_cons.mpr ⟨hn, h.nodup⟩, List.forall_mem_cons.mpr ⟨hs, h.seats⟩,
    List.forall_mem_cons.mpr ⟨hk, h.kinds⟩⟩

theorem Valid.seat (h : Valid wants kind seats plan) (gs : List γ) :
    Valid wants kind seats (seat wants kind seats plan gs).1 := by
  induction gs generalizing plan with
  | nil => exact h
  | cons g gs ih =>
    rw [Seating.seat]
    split
    · rename_i s hs
      exact ih (h.cons hs)
    · exact ih h

/-- Who sits stays. -/
theorem mem_seat {x : γ × σ} (hx : x ∈ plan) (gs : List γ) :
    x ∈ (seat wants kind seats plan gs).1 := by
  induction gs generalizing plan with
  | nil => exact hx
  | cons g gs ih =>
    rw [seat]
    split
    · exact ih (List.mem_cons_of_mem _ hx)
    · exact ih hx

/-- **Every guest is seated or left over**, once. -/
theorem perm_seat (plan : Plan γ σ) (gs : List γ) :
    ((seat wants kind seats plan gs).1.map Prod.fst ++ (seat wants kind seats plan gs).2).Perm
      (plan.map Prod.fst ++ gs) := by
  induction gs generalizing plan with
  | nil => exact .refl _
  | cons g gs ih =>
    rw [seat]
    split
    · exact (ih _).trans List.perm_middle.symm
    · exact List.perm_middle.trans (((ih plan).cons g).trans List.perm_middle.symm)

/-- A guest left over saw all seats of its kind taken. -/
theorem taken_of_left (hg : g ∈ (seat wants kind seats plan gs).2) {s : σ} (hs : s ∈ seats)
    (hk : kind s = wants g) : s ∈ (seat wants kind seats plan gs).1.map Prod.snd := by
  induction gs generalizing plan with
  | nil => nomatch hg
  | cons g' gs ih =>
    rw [seat] at hg ⊢
    split at hg
    · exact ih hg
    · rename_i hnone
      rcases List.mem_cons.mp hg with rfl | hg
      · obtain ⟨x, hx, rfl⟩ := List.mem_map.mp (open?_eq_none hnone hs hk)
        exact List.mem_map_of_mem (mem_seat hx gs)
      · exact ih hg

/-! ## When everybody is seated -/

omit [DecidableEq σ] in
/-- As many seats of a kind are taken as guests of that kind sit. -/
theorem Valid.countP_eq (h : Valid wants kind seats plan) (k : κ) :
    (plan.map Prod.snd).countP (kind · = k) = (plan.map Prod.fst).countP (wants · = k) := by
  rw [List.countP_map, List.countP_map]
  refine List.countP_congr fun x hx => ?_
  simp [h.kinds x hx]

omit [DecidableEq σ] in
theorem Valid.countP_le (h : Valid wants kind seats plan) (k : κ) :
    (plan.map Prod.fst).countP (wants · = k) ≤ seats.countP (kind · = k) := by
  rw [← h.countP_eq]
  refine (List.subperm_of_subset h.nodup fun s hs => ?_).countP_le _
  obtain ⟨x, hx, rfl⟩ := List.mem_map.mp hs
  exact h.seats x hx

/-- **Nobody is left over exactly when no kind has more guests than seats.** -/
theorem seat_complete_iff (hseats : seats.Nodup) (h : Valid wants kind seats plan) :
    (seat wants kind seats plan gs).2 = [] ↔
      ∀ k, (plan.map Prod.fst ++ gs).countP (wants · = k) ≤ seats.countP (kind · = k) := by
  have hperm : ((seat wants kind seats plan gs).1.map Prod.fst ++
      (seat wants kind seats plan gs).2).Perm (plan.map Prod.fst ++ gs) := perm_seat plan gs
  have hvalid := h.seat gs
  constructor
  · intro hnil k
    rw [hnil, List.append_nil] at hperm
    rw [← hperm.countP_eq]
    exact hvalid.countP_le k
  · intro hle
    by_contra hne
    obtain ⟨g, hg⟩ := List.exists_mem_of_ne_nil _ hne
    have hall : seats.countP (kind · = wants g) ≤
        ((seat wants kind seats plan gs).1.map Prod.fst).countP (wants · = wants g) := by
      rw [← hvalid.countP_eq, List.countP_eq_length_filter, List.countP_eq_length_filter]
      refine (List.subperm_of_subset (hseats.filter _) fun s hs => ?_).length_le
      obtain ⟨hs, hk⟩ := List.mem_filter.mp hs
      exact List.mem_filter.mpr ⟨taken_of_left hg hs (by simpa using hk), hk⟩
    have hone : 0 < (seat wants kind seats plan gs).2.countP (wants · = wants g) :=
      List.countP_pos_iff.mpr ⟨g, hg, by simp⟩
    have htotal := hperm.countP_eq (wants · = wants g)
    rw [List.countP_append] at htotal
    have := hle (wants g)
    omega

/-! ## With homes -/

omit [DecidableEq κ] in
theorem valid_settle (hnd : (gs.map home).Nodup) (hk : ∀ g ∈ gs, kind (home g) = wants g) :
    Valid wants kind seats (settle home seats gs) := by
  refine ⟨?_, fun x hx => ?_, fun x hx => ?_⟩
  · rw [settle, List.map_reverse, List.nodup_reverse, List.map_map]
    exact hnd.sublist (List.filter_sublist.map _)
  all_goals
    obtain ⟨g, hg, rfl⟩ := List.mem_map.mp (List.mem_reverse.mp hx)
    obtain ⟨hg, hs⟩ := List.mem_filter.mp hg
  · exact of_decide_eq_true hs
  · exact hk g hg

theorem perm_settle (gs : List γ) :
    ((settle home seats gs).map Prod.fst ++ movers home seats gs).Perm gs := by
  rw [settle, List.map_reverse, List.map_map]
  have hid : (settled home seats gs).map (Prod.fst ∘ fun g => (g, home g)) =
      settled home seats gs := List.map_id _
  rw [hid]
  refine ((List.reverse_perm _).append_right _).trans ?_
  have hsplit := List.filter_append_perm (fun g => decide (home g ∈ seats)) gs
  simpa [settled, movers] using hsplit

/-- **Who has a home among the seats sits there.** -/
theorem home_mem_seating (hg : g ∈ gs) (hs : home g ∈ seats) :
    (g, home g) ∈ (seating wants kind home seats gs).1 :=
  mem_seat (List.mem_reverse.mpr (List.mem_map_of_mem
    (List.mem_filter.mpr ⟨hg, by simpa using hs⟩))) _

theorem valid_seating (hnd : (gs.map home).Nodup) (hk : ∀ g ∈ gs, kind (home g) = wants g) :
    Valid wants kind seats (seating wants kind home seats gs).1 := (valid_settle hnd hk).seat _

theorem perm_seating (gs : List γ) :
    ((seating wants kind home seats gs).1.map Prod.fst ++
      (seating wants kind home seats gs).2).Perm gs :=
  (perm_seat _ _).trans (perm_settle gs)

/-- **Everybody is seated exactly when no kind has more guests than seats.** -/
theorem seating_complete_iff (hseats : seats.Nodup) (hnd : (gs.map home).Nodup)
    (hk : ∀ g ∈ gs, kind (home g) = wants g) :
    (seating wants kind home seats gs).2 = [] ↔
      ∀ k, gs.countP (wants · = k) ≤ seats.countP (kind · = k) := by
  rw [seating, seat_complete_iff hseats (valid_settle hnd hk)]
  refine forall_congr' fun k => ?_
  rw [(perm_settle gs).countP_eq]

end Machinery.Seating
