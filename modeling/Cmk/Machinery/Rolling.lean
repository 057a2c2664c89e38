import Mathlib.Data.List.Induction
import Mathlib.Data.Set.Insert
import Mathlib.Logic.Relation
import Mathlib.Tactic

/-!
# Machinery/Rolling — one task after another

A driver starts its tasks in their order, and after each it waits for the report of a success before
it starts the next.  The tasks run elsewhere and end when they like; one that ends without success,
or whose report is taken away, is to the driver one that does not end.  The driver takes a report
for the one that it waits for when the two look alike to it: `sees g t`.

Where no report of an earlier task looks like that of a later one, the only task that can be active
is the one waited for, and the driver goes on when that one has succeeded (`Inv.step`,
`Inv.succeeded_of_sees`).
-/

namespace Machinery.Rolling

/-- The task waited for, those after it, the tasks that have not ended and those whose success is
reported. -/
structure State (γ : Type) where
  current : Option γ
  later : List γ
  active : Set γ
  succeeded : Set γ

variable {γ : Type}

/-- One step of the driver or of a task. -/
inductive Step (sees : γ → γ → Prop) : State γ → State γ → Prop
  | start {s : State γ} (g : γ) (later : List γ) (hidle : s.current = none)
      (hs : s.later = g :: later) :
      Step sees s { s with current := some g, later, active := insert g s.active }
  /-- A task ends well. -/
  | succeed {s : State γ} (t : γ) (ht : t ∈ s.active) :
      Step sees s { s with active := s.active \ {t}, succeeded := insert t s.succeeded }
  /-- A report that looks right. -/
  | pass {s : State γ} (g t : γ) (hs : s.current = some g) (hsees : sees g t)
      (ht : t ∈ s.succeeded) : Step sees s { s with current := none }

/-- A driver before the first of its tasks. -/
def start (tasks : List γ) : State γ := ⟨none, tasks, ∅, ∅⟩

/-- No report of an earlier task looks like that of a later one. -/
def Clear (sees : γ → γ → Prop) (tasks : List γ) : Prop :=
  tasks.Pairwise fun earlier later => ¬ sees later earlier

/-- What every run keeps. -/
structure Inv (tasks : List γ) (s : State γ) : Prop where
  apart : ∀ t ∈ s.active, t ∉ s.succeeded
  alone : ∀ t ∈ s.active, s.current = some t
  placed : ∃ before, tasks = before ++ s.current.toList ++ s.later ∧
    ∀ t ∈ s.succeeded, t ∈ before ++ s.current.toList

variable {sees : γ → γ → Prop} {tasks : List γ} {s s' : State γ}

theorem clear_of_split (h : ∀ before g after, tasks = before ++ g :: after →
    ∀ t ∈ before, ¬ sees g t) : Clear sees tasks := by
  induction tasks using List.reverseRecOn with
  | nil => exact .nil
  | append_singleton tasks g ih =>
    refine List.pairwise_append.mpr
      ⟨ih fun before x after hsplit => ?_, List.pairwise_singleton _ _, fun t ht x hx => ?_⟩
    · exact h before x (after ++ [g]) (by rw [hsplit, List.append_assoc, List.cons_append])
    · obtain rfl := List.mem_singleton.mp hx
      exact h tasks x [] rfl t ht

theorem Inv.init (tasks : List γ) : Inv tasks (start tasks) where
  apart _ ht := ht.elim
  alone _ ht := ht.elim
  placed := ⟨[], rfl, fun _ ht => ht.elim⟩

theorem Inv.current_mem (hinv : Inv tasks s) {g : γ} (hs : s.current = some g) : g ∈ tasks := by
  obtain ⟨before, htasks, -⟩ := hinv.placed
  simp [htasks, hs]

theorem Inv.later_mem (hinv : Inv tasks s) {g : γ} (hs : g ∈ s.later) : g ∈ tasks := by
  obtain ⟨before, htasks, -⟩ := hinv.placed
  simp [htasks, hs]

/-- **A report that looks like the one waited for is that one.** -/
theorem Inv.succeeded_of_sees (hinv : Inv tasks s) (hclear : Clear sees tasks) {g t : γ}
    (hs : s.current = some g) (hsees : sees g t) (ht : t ∈ s.succeeded) : t = g := by
  obtain ⟨before, htasks, hplaced⟩ := hinv.placed
  rw [hs] at htasks hplaced
  rcases List.mem_append.mp (hplaced t ht) with hbefore | hcurrent
  · rw [htasks, List.append_assoc] at hclear
    exact absurd hsees ((List.pairwise_append.mp hclear).2.2 t hbefore g (by simp))
  · simpa using hcurrent

/-- **One step keeps the invariant.** -/
theorem Inv.step (hinv : Inv tasks s) (hclear : Clear sees tasks) (hnd : tasks.Nodup)
    (h : Step sees s s') : Inv tasks s' := by
  obtain ⟨before, htasks, hplaced⟩ := hinv.placed
  cases h with
  | start g later hidle hs =>
    rw [hidle, hs, Option.toList_none, List.append_nil] at htasks
    rw [hidle, Option.toList_none, List.append_nil] at hplaced
    have hnew : g ∉ s.succeeded := fun hg => by
      rw [htasks] at hnd
      exact (List.nodup_append.mp hnd).2.2 g (hplaced g hg) g List.mem_cons_self rfl
    refine ⟨?_, ?_, before, by simp [htasks], fun t ht => List.mem_append_left _ (hplaced t ht)⟩
    · rintro t (rfl | ht)
      · exact hnew
      · exact hinv.apart t ht
    · rintro t (rfl | ht)
      · rfl
      · rw [hinv.alone t ht] at hidle
        cases hidle
  | succeed t ht =>
    have hcurrent := hinv.alone t ht
    refine ⟨?_, fun x hx => hinv.alone x hx.1, before, htasks, ?_⟩
    · rintro x ⟨hx, hne⟩ (rfl | hsucceeded)
      · exact hne rfl
      · exact hinv.apart x hx hsucceeded
    · rintro x (rfl | hx)
      · exact List.mem_append_right _ (by simp [hcurrent])
      · exact hplaced x hx
  | pass g t hs hsees ht =>
    obtain rfl := hinv.succeeded_of_sees hclear hs hsees ht
    rw [hs, Option.toList_some] at htasks hplaced
    refine ⟨hinv.apart, fun x hx => ?_, before ++ [t], by simpa using htasks, fun x hx => ?_⟩
    · obtain rfl := Option.some.inj (hs.symm.trans (hinv.alone x hx))
      exact absurd ht (hinv.apart t hx)
    · simpa using hplaced x hx

end Machinery.Rolling
