import Mathlib.Data.List.Basic
import Mathlib.Logic.Function.Basic

/-!
# Machinery/Walk — rewriting the cells on a way down a tree

A walk that goes from a node to its first child visits the `spine` of the tree.  `sweep` rewrites
the cell of every node visited, in order.  As the cells of different nodes are different, each
visited cell is rewritten once and the others are left (`sweep_of_mem`, `sweep_of_notMem`); so the
walk does what is wanted on the whole tree exactly when nothing is wanted off the spine
(`sweep_spine_iff`).  Two walks whose rewrites respect a relation keep it (`sweep_rel`).
-/

namespace Machinery

inductive RoseTree (α : Type)
  | node (a : α) (children : List (RoseTree α))

variable {α β : Type}

namespace RoseTree

mutual

/-- The nodes, every one before those below it. -/
def nodes : RoseTree α → List α
  | node a children => a :: nodesList children

def nodesList : List (RoseTree α) → List α
  | [] => []
  | t :: ts => nodes t ++ nodesList ts

end

/-- The root, its first child, the first child of that one, and so on. -/
def spine : RoseTree α → List α
  | node a [] => [a]
  | node a (child :: _) => a :: spine child

theorem spine_sublist (t : RoseTree α) : t.spine.Sublist t.nodes := by
  fun_induction spine t with
  | case1 a => simp [nodes, nodesList]
  | case2 a child rest ih =>
    rw [nodes, nodesList]
    exact (ih.trans (List.sublist_append_left _ _)).cons_cons a

end RoseTree

variable [DecidableEq α] {f : β → β} {s : α → β} {a : α} {visited : List α}

/-- Rewrite one cell. -/
def rewriteAt (f : β → β) (s : α → β) (a : α) : α → β := Function.update s a (f (s a))

/-- Rewrite the cells of a list, one after another. -/
def sweep (f : β → β) (s : α → β) (visited : List α) : α → β := visited.foldl (rewriteAt f) s

theorem sweep_of_notMem (h : a ∉ visited) : sweep f s visited a = s a := by
  induction visited generalizing s with
  | nil => rfl
  | cons b visited ih =>
    obtain ⟨hne, hrest⟩ := List.ne_and_not_mem_of_not_mem_cons h
    rw [sweep, List.foldl_cons, ← sweep, ih hrest, rewriteAt, Function.update_of_ne hne]

/-- **A cell is rewritten once.** -/
theorem sweep_of_mem (hnd : visited.Nodup) (h : a ∈ visited) : sweep f s visited a = f (s a) := by
  induction visited generalizing s with
  | nil => nomatch h
  | cons b visited ih =>
    obtain ⟨hb, hnd⟩ := List.nodup_cons.mp hnd
    rw [sweep, List.foldl_cons, ← sweep]
    rcases List.mem_cons.mp h with rfl | h
    · rw [sweep_of_notMem hb, rewriteAt, Function.update_self]
    · have hne : a ≠ b := fun heq => hb (heq ▸ h)
      rw [ih hnd h, rewriteAt, Function.update_of_ne hne]

/-- **Two sweeps whose rewrites respect a relation** keep it between their cells. -/
theorem sweep_rel {R : β → β → Prop} {f' : β → β} (hf : ∀ b b', R b b' → R (f b) (f' b'))
    {s' : α → β} (h : ∀ a, R (s a) (s' a)) (visited : List α) :
    ∀ a, R (sweep f s visited a) (sweep f' s' visited a) := by
  induction visited generalizing s s' with
  | nil => exact h
  | cons b visited ih =>
    refine ih fun a => ?_
    by_cases hb : a = b
    · rw [hb, rewriteAt, rewriteAt, Function.update_self, Function.update_self]
      exact hf _ _ (h b)
    · rw [rewriteAt, rewriteAt, Function.update_of_ne hb, Function.update_of_ne hb]
      exact h a

/-- **The walk does what is wanted on the whole tree exactly when nothing is wanted off its way.**
-/
theorem sweep_spine_iff {R : β → β → Prop} (hR : ∀ b, R b (f b)) {t : RoseTree α}
    (ht : t.nodes.Nodup) :
    (∀ a ∈ t.nodes, R (s a) (sweep f s t.spine a)) ↔
      ∀ a ∈ t.nodes, a ∉ t.spine → R (s a) (s a) := by
  have hspine := ht.sublist t.spine_sublist
  constructor
  · intro h a ha hoff
    have hr := h a ha
    rwa [sweep_of_notMem hoff] at hr
  · intro h a ha
    by_cases hon : a ∈ t.spine
    · rw [sweep_of_mem hspine hon]
      exact hR (s a)
    · rw [sweep_of_notMem hon]
      exact h a ha hon

end Machinery
