import Mathlib.Data.List.Nodup
import Mathlib.Data.List.Perm.Basic
import Mathlib.Tactic

/-!
# Machinery/Deal — dealing items out

`roundRobin` takes one item of every row in turn until all rows are empty; it is a permutation of
the rows put together (`perm_roundRobin`).  A `Marking` says which owner an item was dealt to, if
any; `mark` deals some free items to one owner, who then holds these (`holders_mark_self`) while
everybody else holds what they held (`holders_mark_other`).

Sorting items of two classes by a key that only tells the classes apart puts one class before the
other and leaves either in order (`insertionSort_classes`).
-/

namespace Machinery.Deal

variable {α ν : Type}

/-! ## Round robin -/

/-- The first items of the rows that have one. -/
def heads (rows : List (List α)) : List α := rows.filterMap List.head?

/-- The rows that had an item, without their first. -/
def tails (rows : List (List α)) : List (List α) :=
  (rows.filter fun row => !row.isEmpty).map List.tail

/-- At most that many turns. -/
def turns : ℕ → List (List α) → List α
  | 0, _ => []
  | n + 1, rows => if rows = [] then [] else heads rows ++ turns n (tails rows)

theorem perm_heads_tails (rows : List (List α)) :
    (heads rows ++ (tails rows).flatten).Perm rows.flatten := by
  induction rows with
  | nil => exact .refl _
  | cons row rows ih =>
    cases row with
    | nil => exact ih
    | cons x row =>
      have hh : heads ((x :: row) :: rows) = x :: heads rows := rfl
      have ht : tails ((x :: row) :: rows) = row :: tails rows := rfl
      rw [hh, ht, List.flatten_cons, List.flatten_cons, List.cons_append, List.cons_append]
      refine .cons x ?_
      rw [← List.append_assoc]
      refine (List.perm_append_comm.append_right _).trans ?_
      rw [List.append_assoc]
      exact ih.append_left row

theorem tails_of_heads_eq_nil {rows : List (List α)} (h : heads rows = []) : tails rows = [] := by
  induction rows with
  | nil => rfl
  | cons row rows ih =>
    cases row with
    | nil => exact ih h
    | cons x row => exact absurd h (by simp [heads])

/-- **Enough turns empty the rows.** -/
theorem perm_turns {n : ℕ} {rows : List (List α)} (h : rows.flatten.length < n) :
    (turns n rows).Perm rows.flatten := by
  induction n generalizing rows with
  | zero => omega
  | succ n ih =>
    rw [turns]
    split
    · rename_i hnil
      rw [hnil]
      exact .refl _
    · have hperm := perm_heads_tails rows
      by_cases hh : heads rows = []
      · rw [tails_of_heads_eq_nil hh, hh] at hperm ⊢
        cases n with
        | zero => simpa [turns] using hperm
        | succ n => simpa [turns] using hperm
      · have hlen := hperm.length_eq
        have hpos : 0 < (heads rows).length := List.length_pos_iff.mpr hh
        rw [List.length_append] at hlen
        exact ((ih (by omega)).append_left _).trans hperm

/-- One item of every row in turn, until the rows are empty. -/
def roundRobin (rows : List (List α)) : List α := turns (rows.flatten.length + 1) rows

/-- **A round robin gives every item once.** -/
theorem perm_roundRobin (rows : List (List α)) : (roundRobin rows).Perm rows.flatten :=
  perm_turns (Nat.lt_succ_self _)

/-! ## Two classes -/

section Classes

variable {p : α → Bool} {r : α → α → Prop} [DecidableRel r]

/-- An item of the second class goes between the classes. -/
theorem orderedInsert_append {x : α} {xs ys : List α} (hxs : ∀ y ∈ xs, ¬ r x y)
    (hys : ∀ y ∈ ys, r x y) : (xs ++ ys).orderedInsert r x = xs ++ x :: ys := by
  induction xs with
  | nil =>
    cases ys with
    | nil => rfl
    | cons y ys => exact List.orderedInsert_cons_of_le r ys (hys y (.head _))
  | cons z xs ih =>
    obtain ⟨hz, hxs⟩ := List.forall_mem_cons.mp hxs
    rw [List.cons_append, List.orderedInsert_of_not_le r (xs ++ ys) hz, ih hxs]
    rfl

/-- **Sorting by a class** puts the first class first and keeps the order inside both. -/
theorem insertionSort_classes (hr : ∀ x y, r x y ↔ (p y = true → p x = true)) (xs : List α) :
    xs.insertionSort r = xs.filter p ++ xs.filter fun x => !p x := by
  induction xs with
  | nil => rfl
  | cons x xs ih =>
    rw [List.insertionSort_cons, ih]
    by_cases hx : p x = true
    · have hall : ∀ y ∈ xs.filter p ++ xs.filter fun x => !p x, r x y :=
        fun y _ => (hr x y).mpr fun _ => hx
      rw [List.filter_cons_of_pos hx, List.filter_cons_of_neg (by simp [hx])]
      exact orderedInsert_append (List.forall_mem_nil _) hall
    · rw [List.filter_cons_of_neg hx, List.filter_cons_of_pos (by simp [hx])]
      refine orderedInsert_append (fun y hy h => ?_) fun y hy => (hr x y).mpr fun h => ?_
      · exact hx ((hr x y).mp h (List.mem_filter.mp hy).2)
      · simp [h] at hy

end Classes

/-! ## Marking -/

/-- The owner every item was dealt to. -/
abbrev Marking (α ν : Type) := α → Option ν

variable [DecidableEq α] [DecidableEq ν]

/-- The items of a list that nobody has. -/
def free (m : Marking α ν) (xs : List α) : List α := xs.filter fun x => m x = none

/-- The items of a list that one owner has. -/
def holders (m : Marking α ν) (xs : List α) (v : ν) : List α := xs.filter fun x => m x = some v

/-- Deal items to an owner. -/
def mark (m : Marking α ν) (chosen : List α) (v : ν) : Marking α ν := fun x =>
  if x ∈ chosen then some v else m x

variable {m : Marking α ν} {xs chosen : List α} {v w : ν}

omit [DecidableEq α] in
theorem mem_holders {x : α} : x ∈ holders m xs v ↔ x ∈ xs ∧ m x = some v := by
  simp [holders]

/-- **The new owner holds what was dealt**, if nothing before. -/
theorem holders_mark_self (hxs : xs.Nodup) (hc : chosen.Nodup) (hsub : chosen ⊆ xs)
    (hnone : ∀ x ∈ xs, m x ≠ some v) : (holders (mark m chosen v) xs v).Perm chosen := by
  refine (List.perm_ext_iff_of_nodup (hxs.filter _) hc).mpr fun x => ?_
  refine mem_holders.trans ⟨?_, ?_⟩
  · rintro ⟨hx, hm⟩
    by_contra hn
    rw [mark, if_neg hn] at hm
    exact hnone x hx hm
  · intro hx
    exact ⟨hsub hx, by rw [mark, if_pos hx]⟩

/-- **Everybody else holds what they held**, if only free items were dealt. -/
theorem holders_mark_other (hfree : ∀ x ∈ chosen, m x = none) (hne : w ≠ v) :
    holders (mark m chosen v) xs w = holders m xs w := by
  refine List.filter_congr fun x _ => ?_
  by_cases hx : x ∈ chosen
  · simp [mark, hx, hfree x hx, hne.symm]
  · simp [mark, hx]

end Machinery.Deal
