import Mathlib.Data.Set.Insert
import Mathlib.Logic.Function.Basic
import Mathlib.Logic.Relation
import Mathlib.Tactic

/-!
# Machinery/VersionLock — a lock kept in the versioned cell it protects

A cell holds some data, an owner and a version that no two writes share.  A client locks it by
reading it while it has no owner and writing its own name over *that very version*; it unlocks by
overwriting data and owner unconditionally.  Nothing in the unlocking write checks who the owner
is, so everything rests on the claim being refused when the cell has changed since it was read.

`Inv` is the invariant of every interleaving; `Inv.serial` is what it is for: the data is what the
critical sections give one after another in the order their locks were taken.
-/

namespace Machinery.VersionLock

/-- What the clients share. -/
structure Cell (V O D : Type) where
  version : V
  owner : Option O
  data : D

/-- Where a client is; `seen` keeps what it read, `inside` the data it locked. -/
inductive Pc (V D : Type)
  | idle
  | seen (v : V) (d : D)
  | inside (d : D)
  | stopped

/-- The cell, the clients, and what a run leaves behind: the versions issued, how many sections each
client has completed, the locks taken and the sections completed, oldest first. -/
structure State (ι V O D : Type) where
  cell : Cell V O D
  pc : ι → Pc V D
  issued : Set V
  count : ι → ℕ
  locked : List (ι × ℕ)
  completed : List (ι × ℕ)

variable {ι V O D : Type} [DecidableEq ι]

/-- One step of one client; `sec i n` is what the `n`-th critical section of client `i` computes
from the data it locked. -/
inductive Step (name : ι → O) (sec : ι → ℕ → D → D) : State ι V O D → State ι V O D → Prop
  /-- A client reads the cell and finds no owner. -/
  | look {s : State ι V O D} (i : ι) (hi : s.pc i = .idle) (hfree : s.cell.owner = none) :
      Step name sec s
        { s with pc := Function.update s.pc i (.seen s.cell.version s.cell.data) }
  /-- Its claim goes through: the cell is still at the version it read. -/
  | claim {s : State ι V O D} (i : ι) (v w : V) (d : D) (hi : s.pc i = .seen w d)
      (hw : w = s.cell.version) (hv : v ∉ s.issued) :
      Step name sec s
        { s with
          cell := ⟨v, some (name i), d⟩
          pc := Function.update s.pc i (.inside d)
          issued := insert v s.issued
          locked := s.locked ++ [(i, s.count i)] }
  /-- Its claim goes through, but the client fails before it enters. -/
  | claimStop {s : State ι V O D} (i : ι) (v w : V) (d : D) (hi : s.pc i = .seen w d)
      (hw : w = s.cell.version) (hv : v ∉ s.issued) :
      Step name sec s
        { s with
          cell := ⟨v, some (name i), d⟩
          pc := Function.update s.pc i .stopped
          issued := insert v s.issued }
  /-- A client leaves its section: data and owner are overwritten, whatever they are. -/
  | publish {s : State ι V O D} (i : ι) (v : V) (d : D) (hi : s.pc i = .inside d)
      (hv : v ∉ s.issued) :
      Step name sec s
        { s with
          cell := ⟨v, none, sec i (s.count i) d⟩
          pc := Function.update s.pc i .idle
          issued := insert v s.issued
          count := Function.update s.count i (s.count i + 1)
          completed := s.completed ++ [(i, s.count i)] }
  /-- A client stops for good: its claim was refused, or it raised, or it was killed. -/
  | stop {s : State ι V O D} (i : ι) :
      Step name sec s { s with pc := Function.update s.pc i .stopped }

/-- The sections of a list, applied one after another. -/
def applyAll (sec : ι → ℕ → D → D) (xs : List (ι × ℕ)) (d : D) : D :=
  xs.foldl (fun d x => sec x.1 x.2 d) d

omit [DecidableEq ι] in
@[simp] theorem applyAll_concat (sec : ι → ℕ → D → D) (xs : List (ι × ℕ)) (x : ι × ℕ) (d : D) :
    applyAll sec (xs ++ [x]) d = sec x.1 x.2 (applyAll sec xs d) := by
  simp [applyAll]

/-- What every interleaving keeps, from data `d₀`. -/
structure Inv (name : ι → O) (sec : ι → ℕ → D → D) (d₀ : D) (s : State ι V O D) : Prop where
  issued : s.cell.version ∈ s.issued
  /-- What a client has seen is current as long as the version is. -/
  seen : ∀ i w d, s.pc i = .seen w d →
    w ∈ s.issued ∧ (w = s.cell.version → s.cell.owner = none ∧ s.cell.data = d)
  /-- A client inside its section owns the cell, and nobody has touched the data. -/
  inside : ∀ i d, s.pc i = .inside d →
    s.cell.owner = some (name i) ∧ s.cell.data = d ∧ s.locked = s.completed ++ [(i, s.count i)]
  /-- At most one client is inside. -/
  one : ∀ i j d d', s.pc i = .inside d → s.pc j = .inside d' → i = j
  /-- No update is lost. -/
  data : s.cell.data = applyAll sec s.completed d₀
  /-- While nobody owns the cell, every lock taken has been given back. -/
  free : s.cell.owner = none → s.locked = s.completed
  /-- At most the last lock taken has not been given back, and then its taker owns the cell. -/
  order : s.locked = s.completed ∨
    ∃ i n, s.locked = s.completed ++ [(i, n)] ∧ s.cell.owner = some (name i)

variable {name : ι → O} {sec : ι → ℕ → D → D} {d₀ : D} {s s' : State ι V O D}

omit [DecidableEq ι] in
theorem Inv.init {v : V} : Inv name sec d₀
    (⟨⟨v, none, d₀⟩, fun _ => .idle, {v}, fun _ => 0, [], []⟩ : State ι V O D) where
  issued := rfl
  seen _ _ _ h := by simp at h
  inside _ _ h := by simp at h
  one _ _ _ _ h := by simp at h
  data := rfl
  free _ := rfl
  order := Or.inl rfl

/-- A client that is not where the updated one went is where it was. -/
theorem place_of_update {α : Type} {f : ι → α} {i j : ι} {a b : α}
    (h : Function.update f i a j = b) (hne : a ≠ b) : j ≠ i ∧ f j = b := by
  by_cases hj : j = i
  · subst hj
    rw [Function.update_self] at h
    exact absurd h hne
  · rw [Function.update_of_ne hj] at h
    exact ⟨hj, h⟩

omit [DecidableEq ι] in
/-- A claim only goes through while nobody is inside. -/
theorem Inv.not_inside_of_claim (hinv : Inv name sec d₀ s) {i : ι} {w : V} {d : D}
    (hi : s.pc i = .seen w d) (hw : w = s.cell.version) (j : ι) (d' : D) :
    s.pc j ≠ .inside d' := fun hj => by
  have hfree := ((hinv.seen i w d hi).2 hw).1
  rw [(hinv.inside j d' hj).1] at hfree
  exact Option.some_ne_none _ hfree

omit [DecidableEq ι] in
/-- What has been seen is outdated by a write under a fresh version. -/
theorem Inv.seen_outdated (hinv : Inv name sec d₀ s) {v : V} (hv : v ∉ s.issued) {P : Prop} {i : ι}
    {w : V} {d : D} (hi : s.pc i = .seen w d) : w ∈ insert v s.issued ∧ (w = v → P) :=
  ⟨Set.mem_insert_of_mem _ (hinv.seen i w d hi).1,
    fun hwv => absurd (hwv ▸ (hinv.seen i w d hi).1) hv⟩

/-- **One step keeps the invariant.** -/
theorem Inv.step (hinv : Inv name sec d₀ s) (h : Step name sec s s') : Inv name sec d₀ s' := by
  cases h with
  | look i hi hfree =>
    refine ⟨hinv.issued, fun j w d hj => ?_, fun j d hj => ?_, fun j k d d' hj hk => ?_, hinv.data,
      hinv.free, hinv.order⟩
    · by_cases hji : j = i
      · subst hji
        obtain ⟨rfl, rfl⟩ : s.cell.version = w ∧ s.cell.data = d := by simpa using hj
        exact ⟨hinv.issued, fun _ => ⟨hfree, rfl⟩⟩
      · exact hinv.seen j w d (by simpa [Function.update_of_ne hji] using hj)
    · exact hinv.inside j d (place_of_update hj (by simp)).2
    · exact hinv.one j k d d' (place_of_update hj (by simp)).2 (place_of_update hk (by simp)).2
  | claim i v w d hi hw hv =>
    have hnone := hinv.not_inside_of_claim hi hw
    have hcur := (hinv.seen i w d hi).2 hw
    have hinside : ∀ j d', Function.update s.pc i (.inside d) j = .inside d' → j = i ∧ d = d' := by
      intro j d' hj
      by_cases hji : j = i
      · subst hji
        exact ⟨rfl, by simpa using hj⟩
      · exact absurd (by simpa [Function.update_of_ne hji] using hj) (hnone j d')
    refine ⟨Set.mem_insert _ _, fun j u d' hj => ?_, fun j d' hj => ?_, fun j k d' d'' hj hk => ?_,
      ?_, fun hfree => by simp at hfree, Or.inr ⟨i, s.count i, ?_, rfl⟩⟩
    · exact hinv.seen_outdated hv (place_of_update hj (by simp)).2
    · obtain ⟨rfl, rfl⟩ := hinside j d' hj
      exact ⟨rfl, rfl, by rw [hinv.free hcur.1]⟩
    · exact (hinside j d' hj).1.trans (hinside k d'' hk).1.symm
    · exact hcur.2.symm.trans hinv.data
    · exact congrArg (· ++ [(i, s.count i)]) (hinv.free hcur.1)
  | claimStop i v w d hi hw hv =>
    have hnone := hinv.not_inside_of_claim hi hw
    have hcur := (hinv.seen i w d hi).2 hw
    refine ⟨Set.mem_insert _ _, fun j u d' hj => ?_, fun j d' hj => ?_, fun j k d' d'' hj _ => ?_,
      ?_, fun hfree => by simp at hfree, Or.inl (hinv.free hcur.1)⟩
    · exact hinv.seen_outdated hv (place_of_update hj (by simp)).2
    · exact absurd (place_of_update hj (by simp)).2 (hnone j d')
    · exact absurd (place_of_update hj (by simp)).2 (hnone j d')
    · exact hcur.2.symm.trans hinv.data
  | publish i v d hi hv =>
    obtain ⟨-, hd, hlocked⟩ := hinv.inside i d hi
    have hnone : ∀ j d', Function.update s.pc i .idle j ≠ .inside d' := fun j d' hj => by
      obtain ⟨hji, hj⟩ := place_of_update hj (by simp)
      exact hji (hinv.one j i d' d hj hi)
    refine ⟨Set.mem_insert _ _, fun j u d' hj => ?_, fun j d' hj => absurd hj (hnone j d'),
      fun j k d' d'' hj _ => absurd hj (hnone j d'), ?_, fun _ => hlocked, Or.inl hlocked⟩
    · exact hinv.seen_outdated hv (place_of_update hj (by simp)).2
    · rw [applyAll_concat, ← hinv.data, hd]
  | stop i =>
    exact ⟨hinv.issued, fun j w d hj => hinv.seen j w d (place_of_update hj (by simp)).2,
      fun j d hj => hinv.inside j d (place_of_update hj (by simp)).2,
      fun j k d d' hj hk => hinv.one j k d d' (place_of_update hj (by simp)).2
        (place_of_update hk (by simp)).2, hinv.data, hinv.free, hinv.order⟩

/-- **Every interleaving keeps the invariant.** -/
theorem Inv.run (hinv : Inv name sec d₀ s) (h : Relation.ReflTransGen (Step name sec) s s') :
    Inv name sec d₀ s' := by
  induction h with
  | refl => exact hinv
  | tail _ hstep ih => exact ih.step hstep

omit [DecidableEq ι] in
/-- **Serial equivalence.**  While nobody owns the cell, its data is what all the locked sections
give one after another in the order of their locks. -/
theorem Inv.serial (hinv : Inv name sec d₀ s) (h : s.cell.owner = none) :
    s.cell.data = applyAll sec s.locked d₀ := by rw [hinv.free h, hinv.data]

/-- **Only the client inside its section changes the data.** -/
theorem Inv.data_changes (hinv : Inv name sec d₀ s) (h : Step name sec s s')
    (hd : s'.cell.data ≠ s.cell.data) : ∃ i d, s.pc i = .inside d ∧ s'.pc i = .idle := by
  cases h with
  | look => exact absurd rfl hd
  | claim i v w d hi hw => exact absurd ((hinv.seen i w d hi).2 hw).2.symm hd
  | claimStop i v w d hi hw => exact absurd ((hinv.seen i w d hi).2 hw).2.symm hd
  | publish i v d hi => exact ⟨i, d, hi, Function.update_self ..⟩
  | stop => exact absurd rfl hd

/-! ## A lock that nobody gives back -/

/-- Somebody owns the cell, and nobody is inside. -/
def Abandoned (s : State ι V O D) : Prop := s.cell.owner ≠ none ∧ ∀ i d, s.pc i ≠ .inside d

omit [DecidableEq ι] in
/-- While the cell is abandoned, no claim goes through. -/
theorem Abandoned.outdated (h : Abandoned s) (hinv : Inv name sec d₀ s) {i : ι} {w : V} {d : D}
    (hi : s.pc i = .seen w d) : w ≠ s.cell.version :=
  fun hw => h.1 ((hinv.seen i w d hi).2 hw).1

/-- **Nothing happens to an abandoned cell.** -/
theorem Abandoned.step (h : Abandoned s) (hinv : Inv name sec d₀ s) (hs : Step name sec s s') :
    Abandoned s' ∧ s'.cell = s.cell ∧ s'.locked = s.locked ∧ s'.completed = s.completed := by
  obtain ⟨howner, hnone⟩ := h
  cases hs with
  | look i hi hfree => exact absurd hfree howner
  | claim i v w d hi hw => exact absurd hw (Abandoned.outdated ⟨howner, hnone⟩ hinv hi)
  | claimStop i v w d hi hw => exact absurd hw (Abandoned.outdated ⟨howner, hnone⟩ hinv hi)
  | publish i v d hi => exact absurd hi (hnone i d)
  | stop i =>
    refine ⟨⟨howner, fun j d hj => ?_⟩, rfl, rfl, rfl⟩
    exact hnone j d (place_of_update hj (by simp)).2

/-- **An abandoned cell stays as it is**, whatever the clients do. -/
theorem Abandoned.run (h : Abandoned s) (hinv : Inv name sec d₀ s)
    (hs : Relation.ReflTransGen (Step name sec) s s') :
    Abandoned s' ∧ s'.cell = s.cell ∧ s'.locked = s.locked ∧ s'.completed = s.completed := by
  induction hs with
  | refl => exact ⟨h, rfl, rfl, rfl⟩
  | tail hrun hstep ih =>
    obtain ⟨hmiddle, hcell, hlocked, hcompleted⟩ := ih
    obtain ⟨hlast, hcell', hlocked', hcompleted'⟩ := hmiddle.step (hinv.run hrun) hstep
    exact ⟨hlast, hcell'.trans hcell, hlocked'.trans hlocked, hcompleted'.trans hcompleted⟩

end Machinery.VersionLock
