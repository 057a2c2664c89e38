import Mathlib.Logic.Function.Basic
import Mathlib.Logic.Relation
import Mathlib.Tactic

/-!
# Machinery/Gated — parts that are put up behind a gate, and taken down behind it

A store refuses to create what is there and to delete what is not.  A builder creates the parts
`0, …, n - 1` and then the gate `n`; a wrecker deletes the gate and then the parts, in the same
order.  Any number of both interleave call by call, and each may end at any call.

Whoever follows the other never passes it, so the gate is only up while all parts are, and all by
one builder (`Inv.gate`).  The price is that a client that ends on its way strands a part for good
(`Inv.stranded_of_stop`, `Stranded.run`); nothing else is in the way of a gate (`exists_gate_iff`).
-/

namespace Machinery.Gated

inductive Role
  | builder
  | wrecker

/-- What is in the store, and how many calls each client has made; `n + 1` is the end. -/
structure State (ι D : Type) where
  store : ℕ → Option D
  calls : ι → ℕ

variable {ι D : Type} [DecidableEq ι]

/-- One call of one client, or its end. -/
inductive Step (n : ℕ) (role : ι → Role) (part : ι → ℕ → D) : State ι D → State ι D → Prop
  /-- A builder creates the next part, or the gate. -/
  | create {s : State ι D} (i : ι) (hi : role i = .builder) (hle : s.calls i ≤ n)
      (hfree : s.store (s.calls i) = none) :
      Step n role part s
        { store := Function.update s.store (s.calls i) (some (part i (s.calls i)))
          calls := Function.update s.calls i (s.calls i + 1) }
  /-- A wrecker deletes the gate. -/
  | unlock {s : State ι D} (i : ι) (hi : role i = .wrecker) (hstart : s.calls i = 0)
      (hgate : s.store n ≠ none) :
      Step n role part s
        { store := Function.update s.store n none
          calls := Function.update s.calls i 1 }
  /-- A wrecker deletes the next part. -/
  | delete {s : State ι D} (i : ι) (k : ℕ) (hi : role i = .wrecker) (hk : s.calls i = k + 1)
      (hlt : k < n) (hthere : s.store k ≠ none) :
      Step n role part s
        { store := Function.update s.store k none
          calls := Function.update s.calls i (k + 2) }
  /-- A client ends: its call was refused, or it was killed. -/
  | stop {s : State ι D} (i : ι) :
      Step n role part s { s with calls := Function.update s.calls i (n + 1) }

/-- A client has begun and has not ended. -/
def Active (n calls : ℕ) : Prop := 0 < calls ∧ calls ≤ n

/-- What every interleaving keeps. -/
structure Inv (n : ℕ) (role : ι → Role) (part : ι → ℕ → D) (s : State ι D) : Prop where
  /-- What a builder has created is still there. -/
  built : ∀ i, role i = .builder → Active n (s.calls i) →
    (∀ m < s.calls i, s.store m = some (part i m)) ∧ s.store n = none
  /-- What a wrecker is going to delete is there. -/
  wrecked : ∀ i, role i = .wrecker → Active n (s.calls i) →
    (∀ m < n, s.calls i ≤ m + 1 → s.store m ≠ none) ∧ s.store n = none
  /-- At most one client of each kind is on its way. -/
  one : ∀ i j, role i = role j → Active n (s.calls i) → Active n (s.calls j) → i = j
  /-- A builder is behind a wrecker. -/
  behind : ∀ i j, role i = .builder → role j = .wrecker → Active n (s.calls i) →
    Active n (s.calls j) → s.calls i < s.calls j
  /-- Behind the gate is everything, by one builder. -/
  gate : s.store n ≠ none → ∃ i, role i = .builder ∧ ∀ m ≤ n, s.store m = some (part i m)

variable {n : ℕ} {role : ι → Role} {part : ι → ℕ → D} {s s' : State ι D}

omit [DecidableEq ι] in
theorem Inv.init : Inv n role part (⟨fun _ => none, fun _ => 0⟩ : State ι D) where
  built _ _ h := absurd h.1 (lt_irrefl 0)
  wrecked _ _ h := absurd h.1 (lt_irrefl 0)
  one _ _ _ h := absurd h.1 (lt_irrefl 0)
  behind _ _ _ _ h := absurd h.1 (lt_irrefl 0)
  gate h := absurd rfl h

/-! ## One step -/

omit [DecidableEq ι] in
theorem not_active_end (n : ℕ) : ¬ Active n (n + 1) := fun h => absurd h.2 (by omega)

/-- A client that is on its way is the one that has moved, or was so before. -/
theorem active_update {f : ι → ℕ} {i j : ι} {c : ℕ} (h : Active n (Function.update f i c j)) :
    (j = i ∧ Active n c) ∨ (j ≠ i ∧ Active n (f j)) := by
  by_cases hj : j = i
  · subst hj
    rw [Function.update_self] at h
    exact .inl ⟨rfl, h⟩
  · rw [Function.update_of_ne hj] at h
    exact .inr ⟨hj, h⟩

/-- What holds of the clients of a kind that are on their way holds after one of them has moved. -/
theorem forall_active_update {P : ℕ → Prop} {f : ι → ℕ} {i : ι} {c : ℕ} {r : Role}
    (hothers : ∀ j, role j = r → Active n (f j) → P (f j)) (hi : role i = r → Active n c → P c)
    (j : ι) (hj : role j = r) (h : Active n (Function.update f i c j)) :
    P (Function.update f i c j) := by
  rcases active_update h with ⟨rfl, hactive⟩ | ⟨hne, hactive⟩
  · rw [Function.update_self]
    exact hi hj hactive
  · rw [Function.update_of_ne hne]
    exact hothers j hj hactive

omit [DecidableEq ι] in
/-- While the gate is up, nobody is on its way. -/
theorem Inv.idle_of_gate (hinv : Inv n role part s) (hgate : s.store n ≠ none) (i : ι) :
    ¬ Active n (s.calls i) := by
  intro h
  cases hi : role i with
  | builder => exact hgate (hinv.built i hi h).2
  | wrecker => exact hgate (hinv.wrecked i hi h).2

omit [DecidableEq ι] in
/-- What a builder finds free, no other builder has been to, and every wrecker has passed. -/
theorem Inv.of_free (hinv : Inv n role part s) {i : ι} (hi : role i = .builder)
    (hle : s.calls i ≤ n) (hfree : s.store (s.calls i) = none) :
    s.store n = none ∧ (∀ m < s.calls i, s.store m = some (part i m)) ∧
      (∀ j, role j = .builder → Active n (s.calls j) → j = i) ∧
      ∀ j, role j = .wrecker → Active n (s.calls j) → s.calls i + 1 < s.calls j := by
  have hgate : s.store n = none := by
    by_contra hgate
    obtain ⟨b, -, hall⟩ := hinv.gate hgate
    rw [hall _ hle] at hfree
    cases hfree
  refine ⟨hgate, fun m hm => ?_, fun j hj hactive => ?_, fun j hj hactive => ?_⟩
  · exact (hinv.built i hi ⟨by omega, hle⟩).1 m hm
  · by_cases hzero : s.calls i = 0
    · have hthere := (hinv.built j hj hactive).1 0 hactive.1
      rw [hzero, hthere] at hfree
      cases hfree
    · exact hinv.one j i (hj.trans hi.symm) hactive ⟨by omega, hle⟩
  · have hbehind : s.calls i < s.calls j := by
      by_cases hzero : s.calls i = 0
      · rw [hzero]
        exact hactive.1
      · exact hinv.behind i j hi hj ⟨by omega, hle⟩ hactive
    by_contra hnot
    have hlt : s.calls i < n := lt_of_lt_of_le hbehind hactive.2
    exact (hinv.wrecked j hj hactive).1 _ hlt (by omega) hfree

theorem Inv.create (hinv : Inv n role part s) {i : ι} (hi : role i = .builder)
    (hle : s.calls i ≤ n) (hfree : s.store (s.calls i) = none) :
    Inv n role part
      { store := Function.update s.store (s.calls i) (some (part i (s.calls i)))
        calls := Function.update s.calls i (s.calls i + 1) } := by
  obtain ⟨hgate, hbefore, halone, hpassed⟩ := hinv.of_free hi hle hfree
  have hbuilder : role i ≠ .wrecker := by simp [hi]
  refine ⟨fun j hj h => ?_,
    forall_active_update
      (P := fun c => (∀ m < n, c ≤ m + 1 → Function.update s.store _ _ m ≠ none) ∧ _)
      (fun j hj h => ⟨fun m hm hc => ?_, ?_⟩) fun hj => absurd hj hbuilder,
    fun j k hjk h h' => ?_, fun j k hj hk h h' => ?_, fun h => ?_⟩
  · obtain rfl : j = i := (active_update h).elim And.left fun hj' => halone j hj hj'.2
    dsimp only at h ⊢
    rw [Function.update_self] at h ⊢
    refine ⟨fun m hm => ?_, ?_⟩
    · rcases Nat.lt_succ_iff_lt_or_eq.mp hm with hlt | rfl
      · rw [Function.update_of_ne hlt.ne, hbefore m hlt]
      · rw [Function.update_self]
    · rw [Function.update_of_ne (by have := h.2; omega), hgate]
  · have := hpassed j hj h
    rw [Function.update_of_ne (by omega)]
    exact (hinv.wrecked j hj h).1 m hm hc
  · have := hpassed j hj h
    exact (Function.update_of_ne (by have := h.2; omega) _ _).trans hgate
  · rcases active_update h with ⟨rfl, -⟩ | ⟨-, hactive⟩ <;>
      rcases active_update h' with ⟨rfl, -⟩ | ⟨-, hactive'⟩
    · rfl
    · exact (halone k (hjk.symm.trans hi) hactive').symm
    · exact halone j (hjk.trans hi) hactive
    · exact hinv.one j k hjk hactive hactive'
  · obtain rfl : j = i := (active_update h).elim And.left fun hj' => halone j hj hj'.2
    dsimp only
    rw [Function.update_self]
    exact forall_active_update (P := fun c => s.calls j + 1 < c) hpassed
      (fun hj' => absurd hj' hbuilder) k hk h'
  · -- only the builder that has come to the gate puts it up
    have hn : s.calls i = n := by
      by_contra hne
      exact h ((Function.update_of_ne (Ne.symm hne) _ _).trans hgate)
    refine ⟨i, hi, fun m hm => ?_⟩
    by_cases heq : m = s.calls i
    · rw [heq]
      exact Function.update_self ..
    · exact (Function.update_of_ne heq _ _).trans (hbefore m (by omega))

theorem Inv.unlock (hinv : Inv n role part s) {i : ι} (hi : role i = .wrecker)
    (hgate : s.store n ≠ none) :
    Inv n role part
      { store := Function.update s.store n none
        calls := Function.update s.calls i 1 } := by
  have hidle := hinv.idle_of_gate hgate
  obtain ⟨b, -, hall⟩ := hinv.gate hgate
  have only : ∀ j, Active n (Function.update s.calls i 1 j) → j = i := fun j h =>
    (active_update h).elim And.left fun hj => absurd hj.2 (hidle j)
  refine ⟨fun j hj h => ?_, fun j hj h => ⟨fun m hm _ => ?_, Function.update_self ..⟩,
    fun j k hjk h h' => (only j h).trans (only k h').symm, fun j k hj hk h h' => ?_,
    fun h => absurd (Function.update_self ..) h⟩
  · rw [only j h, hi] at hj
    cases hj
  · dsimp only
    rw [Function.update_of_ne hm.ne, hall m hm.le]
    exact Option.some_ne_none _
  · rw [only j h, hi] at hj
    cases hj

theorem Inv.delete (hinv : Inv n role part s) {i : ι} {k : ℕ} (hi : role i = .wrecker)
    (hk : s.calls i = k + 1) (hlt : k < n) :
    Inv n role part
      { store := Function.update s.store k none
        calls := Function.update s.calls i (k + 2) } := by
  have hactive : Active n (s.calls i) := ⟨by omega, by omega⟩
  obtain ⟨hthere, hgate⟩ := hinv.wrecked i hi hactive
  have hgate' : Function.update s.store k none n = none :=
    (Function.update_of_ne hlt.ne' _ _).trans hgate
  have only : ∀ j, role j = .wrecker → Active n (Function.update s.calls i (k + 2) j) → j = i :=
    fun j hj h => (active_update h).elim And.left fun h' =>
      hinv.one j i (hj.trans hi.symm) h'.2 hactive
  have builder : ∀ j, role j = .builder → Active n (Function.update s.calls i (k + 2) j) →
      j ≠ i ∧ Active n (s.calls j) ∧ s.calls j ≤ k := by
    intro j hj h
    rcases active_update h with ⟨rfl, -⟩ | ⟨hne, hj'⟩
    · rw [hi] at hj
      cases hj
    · have := hinv.behind j i hj hi hj' hactive
      exact ⟨hne, hj', by omega⟩
  refine ⟨fun j hj h => ?_, fun j hj h => ?_, fun j j' hjj' h h' => ?_, fun j j' hj hj' h h' => ?_,
    fun h => absurd hgate' h⟩
  · obtain ⟨hne, hj', hle⟩ := builder j hj h
    dsimp only
    rw [Function.update_of_ne hne]
    refine ⟨fun m hm => ?_, hgate'⟩
    rw [Function.update_of_ne (by omega), (hinv.built j hj hj').1 m hm]
  · obtain rfl := only j hj h
    dsimp only
    rw [Function.update_self]
    refine ⟨fun m hm hle => ?_, hgate'⟩
    rw [Function.update_of_ne (by omega)]
    exact hthere m hm (by omega)
  · cases hj : role j with
    | builder =>
      obtain ⟨-, hactive₁, -⟩ := builder j hj h
      obtain ⟨-, hactive₂, -⟩ := builder j' (hjj'.symm.trans hj) h'
      exact hinv.one j j' hjj' hactive₁ hactive₂
    | wrecker => exact (only j hj h).trans (only j' (hjj'.symm.trans hj) h').symm
  · obtain ⟨hne, -, hle⟩ := builder j hj h
    obtain rfl := only j' hj' h'
    dsimp only
    rw [Function.update_self, Function.update_of_ne hne]
    omega

theorem Inv.stop (hinv : Inv n role part s) (i : ι) :
    Inv n role part { s with calls := Function.update s.calls i (n + 1) } := by
  have before : ∀ j, Active n (Function.update s.calls i (n + 1) j) →
      Function.update s.calls i (n + 1) j = s.calls j ∧ Active n (s.calls j) := by
    intro j h
    rcases active_update h with ⟨-, hend⟩ | ⟨hne, hj⟩
    · exact absurd hend (not_active_end n)
    · exact ⟨Function.update_of_ne hne .., hj⟩
  refine ⟨fun j hj h => ?_, fun j hj h => ?_, fun j k hjk h h' => ?_, fun j k hj hk h h' => ?_,
    hinv.gate⟩
  · obtain ⟨hsame, hactive⟩ := before j h
    dsimp only
    rw [hsame]
    exact hinv.built j hj hactive
  · obtain ⟨hsame, hactive⟩ := before j h
    dsimp only
    rw [hsame]
    exact hinv.wrecked j hj hactive
  · exact hinv.one j k hjk (before j h).2 (before k h').2
  · obtain ⟨hsame, hactive⟩ := before j h
    obtain ⟨hsame', hactive'⟩ := before k h'
    dsimp only
    rw [hsame, hsame']
    exact hinv.behind j k hj hk hactive hactive'

/-- **One call keeps the invariant.** -/
theorem Inv.step (hinv : Inv n role part s) (h : Step n role part s s') :
    Inv n role part s' := by
  cases h with
  | create i hi hle hfree => exact hinv.create hi hle hfree
  | unlock i hi hstart hgate => exact hinv.unlock hi hgate
  | delete i k hi hk hlt hthere => exact hinv.delete hi hk hlt
  | stop i => exact hinv.stop i

/-- **Every interleaving keeps the invariant.** -/
theorem Inv.run (hinv : Inv n role part s) (h : Relation.ReflTransGen (Step n role part) s s') :
    Inv n role part s' := by
  induction h with
  | refl => exact hinv
  | tail _ hstep ih => exact ih.step hstep

/-! ## Stranded parts -/

/-- A part is there and the gate is not; the builders have not come to the part, and the wreckers
have passed it. -/
structure Stranded (n : ℕ) (role : ι → Role) (s : State ι D) (m : ℕ) : Prop where
  lt : m < n
  there : s.store m ≠ none
  gate : s.store n = none
  builders : ∀ i, role i = .builder → Active n (s.calls i) → s.calls i ≤ m
  wreckers : ∀ i, role i = .wrecker → Active n (s.calls i) → m + 1 < s.calls i

variable {m : ℕ}

/-- **A stranded part stays**, and no builder passes it. -/
theorem Stranded.step (h : Stranded n role s m) (hs : Step n role part s s') :
    Stranded n role s' m ∧ s'.store m = s.store m := by
  obtain ⟨hlt, hthere, hgate, hbuilders, hwreckers⟩ := h
  cases hs with
  | create i hi hle hfree =>
    have hne : m ≠ s.calls i := fun heq => hthere (heq ▸ hfree)
    have hbefore : s.calls i < m := by
      by_cases hzero : s.calls i = 0
      · omega
      · have := hbuilders i hi ⟨by omega, hle⟩
        omega
    have hsame : Function.update s.store (s.calls i) (some (part i (s.calls i))) m = s.store m :=
      Function.update_of_ne hne ..
    exact ⟨⟨hlt, hsame.trans_ne hthere, (Function.update_of_ne (by omega) _ _).trans hgate,
      forall_active_update (P := (· ≤ m)) hbuilders fun _ _ => hbefore,
      forall_active_update (P := (m + 1 < ·)) hwreckers fun hi' => by simp [hi] at hi'⟩, hsame⟩
  | unlock i hi hstart hup => exact absurd hgate hup
  | delete i k hi hk hkn hk' =>
    have hpassed := hwreckers i hi ⟨by omega, by omega⟩
    have hsame : Function.update s.store k none m = s.store m :=
      Function.update_of_ne (by omega) ..
    exact ⟨⟨hlt, hsame.trans_ne hthere, (Function.update_of_ne hkn.ne' _ _).trans hgate,
      forall_active_update (P := (· ≤ m)) hbuilders fun hi' => by simp [hi] at hi',
      forall_active_update (P := (m + 1 < ·)) hwreckers fun _ _ => by omega⟩, hsame⟩
  | stop i =>
    exact ⟨⟨hlt, hthere, hgate,
      forall_active_update (P := (· ≤ m)) hbuilders fun _ h => absurd h (not_active_end n),
      forall_active_update (P := (m + 1 < ·)) hwreckers
        fun _ h => absurd h (not_active_end n)⟩, rfl⟩

/-- **For good.** -/
theorem Stranded.run (h : Stranded n role s m)
    (hs : Relation.ReflTransGen (Step n role part) s s') :
    Stranded n role s' m ∧ s'.store m = s.store m := by
  induction hs with
  | refl => exact ⟨h, rfl⟩
  | tail _ hstep ih =>
    obtain ⟨hlast, hsame⟩ := ih.1.step hstep
    exact ⟨hlast, hsame.trans ih.2⟩

/-- **A client that ends on its way strands the part before it.** -/
theorem Inv.stranded_of_stop (hinv : Inv n role part s) {i : ι} (hactive : Active n (s.calls i)) :
    Stranded n role { s with calls := Function.update s.calls i (n + 1) } (s.calls i - 1) := by
  obtain ⟨hpos, hle⟩ := hactive
  have others : ∀ j, Active n (Function.update s.calls i (n + 1) j) → j ≠ i ∧
      Active n (s.calls j) ∧ Function.update s.calls i (n + 1) j = s.calls j := by
    intro j h
    rcases active_update h with ⟨-, hend⟩ | ⟨hne, hj⟩
    · exact absurd hend (not_active_end n)
    · exact ⟨hne, hj, Function.update_of_ne hne ..⟩
  cases hi : role i with
  | builder =>
    obtain ⟨hbuilt, hgate⟩ := hinv.built i hi ⟨hpos, hle⟩
    refine ⟨by omega, ?_, hgate, fun j hj h => ?_, fun j hj h => ?_⟩
    · rw [hbuilt _ (by omega)]
      exact Option.some_ne_none _
    · obtain ⟨hne, hj', -⟩ := others j h
      exact absurd (hinv.one j i (hj.trans hi.symm) hj' ⟨hpos, hle⟩) hne
    · obtain ⟨-, hj', hsame⟩ := others j h
      have := hinv.behind i j hi hj ⟨hpos, hle⟩ hj'
      dsimp only
      omega
  | wrecker =>
    obtain ⟨hthere, hgate⟩ := hinv.wrecked i hi ⟨hpos, hle⟩
    refine ⟨by omega, hthere _ (by omega) (by omega), hgate, fun j hj h => ?_, fun j hj h => ?_⟩
    · obtain ⟨-, hj', hsame⟩ := others j h
      have := hinv.behind j i hj hi hj' ⟨hpos, hle⟩
      dsimp only
      omega
    · obtain ⟨hne, hj', -⟩ := others j h
      exact absurd (hinv.one j i (hj.trans hi.symm) hj' ⟨hpos, hle⟩) hne

/-! ## Nothing else is in the way -/

/-- A builder that finds everything free from where it is comes to the gate. -/
theorem exists_built {i : ι} (hi : role i = .builder) (hle : s.calls i ≤ n)
    (hfree : ∀ m, s.calls i ≤ m → m ≤ n → s.store m = none) :
    ∃ s', Relation.ReflTransGen (Step n role part) s s' ∧ s'.store n ≠ none := by
  obtain ⟨left, hleft⟩ : ∃ left, s.calls i + left = n := ⟨n - s.calls i, by omega⟩
  induction left generalizing s with
  | zero =>
    refine ⟨_, .single (.create i hi hle (hfree _ le_rfl hle)), ?_⟩
    dsimp only
    rw [show n = s.calls i by omega, Function.update_self]
    exact Option.some_ne_none _
  | succ left ih =>
    have hstep : Step n role part s _ := .create i hi hle (hfree _ le_rfl hle)
    generalize hs₁ : State.mk (Function.update s.store (s.calls i) (some (part i (s.calls i))))
      (Function.update s.calls i (s.calls i + 1)) = s₁ at hstep
    have hcalls : s₁.calls i = s.calls i + 1 := by
      rw [← hs₁]
      exact Function.update_self ..
    obtain ⟨s', hrun, hup⟩ := ih (s := s₁) (by omega) (fun m hm hmn => by
      rw [← hs₁]
      exact (Function.update_of_ne (by omega) _ _).trans (hfree m (by omega) hmn)) (by omega)
    exact ⟨s', .head hstep hrun, hup⟩

/-- A deletion strands nothing. -/
theorem Inv.stranded_of_delete (hinv : Inv n role part s) {i : ι} {k : ℕ} (hi : role i = .wrecker)
    (hk : s.calls i = k + 1) (hlt : k < n)
    (h : Stranded n role
      { store := Function.update s.store k none
        calls := Function.update s.calls i (k + 2) } m) : Stranded n role s m := by
  obtain ⟨hmn, hthere, hgate, hbuilders, hwreckers⟩ := h
  dsimp only at hthere hgate hbuilders hwreckers
  have hne : m ≠ k := fun heq => hthere (heq ▸ Function.update_self ..)
  have hmk : m < k := by
    by_cases hle : k + 2 ≤ n
    · have hcalls := hwreckers i hi (by rw [Function.update_self]; exact ⟨by omega, hle⟩)
      rw [Function.update_self] at hcalls
      omega
    · omega
  rw [Function.update_of_ne hne] at hthere
  rw [Function.update_of_ne hlt.ne'] at hgate
  refine ⟨hmn, hthere, hgate, fun j hj hactive => ?_, fun j hj hactive => ?_⟩
  · have hji : j ≠ i := fun heq => by simp [heq ▸ hj] at hi
    have hcalls := hbuilders j hj
    rw [Function.update_of_ne hji] at hcalls
    exact hcalls hactive
  · rw [hinv.one j i (hj.trans hi.symm) hactive ⟨by omega, by omega⟩]
    omega

/-- **A wrecker that is on its way comes to its end**: no builder has moved, and nothing is stranded
that was not before. -/
theorem Inv.exists_wrecked (hinv : Inv n role part s) {i : ι} (hi : role i = .wrecker)
    (hactive : Active n (s.calls i)) :
    ∃ s', Relation.ReflTransGen (Step n role part) s s' ∧
      (∀ j, role j = .builder → s'.calls j = s.calls j) ∧
      (∀ j, role j = .wrecker → ¬ Active n (s'.calls j)) ∧
      ∀ m, Stranded n role s' m → Stranded n role s m := by
  obtain ⟨hpos, hle⟩ := hactive
  obtain ⟨k, hk⟩ : ∃ k, s.calls i = k + 1 := ⟨s.calls i - 1, by omega⟩
  obtain ⟨left, hleft⟩ : ∃ left, k + 1 + left = n := ⟨n - (k + 1), by omega⟩
  induction left generalizing s k with
  | zero =>
    have hthere := (hinv.wrecked i hi ⟨hpos, hle⟩).1 k (by omega) hk.le
    refine ⟨_, .single (.delete i k hi hk (by omega) hthere), fun j hj => ?_, fun j hj h => ?_,
      fun m => hinv.stranded_of_delete hi hk (by omega)⟩
    · exact Function.update_of_ne (fun heq => by simp [heq ▸ hj] at hi) ..
    · rcases active_update h with ⟨-, hend⟩ | ⟨hne, hj'⟩
      · exact absurd hend.2 (by omega)
      · exact hne (hinv.one j i (hj.trans hi.symm) hj' ⟨hpos, hle⟩)
  | succ left ih =>
    have hthere := (hinv.wrecked i hi ⟨hpos, hle⟩).1 k (by omega) hk.le
    have hstep : Step n role part s _ := .delete i k hi hk (by omega) hthere
    have hstranded := fun m => hinv.stranded_of_delete (m := m) hi hk (by omega)
    have hbuilders : ∀ j, role j = .builder →
        Function.update s.calls i (k + 2) j = s.calls j := fun j hj =>
      Function.update_of_ne (fun heq => by simp [heq ▸ hj] at hi) ..
    have hcalls : Function.update s.calls i (k + 2) i = k + 1 + 1 := Function.update_self ..
    obtain ⟨s', hrun, hsame, hidle, hback⟩ := ih (hinv.step hstep) (by dsimp only; omega)
      (by dsimp only; omega) (k + 1) hcalls (by omega)
    exact ⟨s', .head hstep hrun, fun j hj => (hsame j hj).trans (hbuilders j hj), hidle,
      fun m h => hstranded m (hback m h)⟩

/-- **A new builder can still come to the gate** exactly while no part is stranded. -/
theorem exists_gate_iff (hinv : Inv n role part s) {b : ι} (hb : role b = .builder)
    (hstart : s.calls b = 0) :
    (∃ s', Relation.ReflTransGen (Step n role part) s s' ∧ s'.store n ≠ none) ↔
      ∀ m, ¬ Stranded n role s m := by
  constructor
  · rintro ⟨s', hrun, hup⟩ m hstranded
    exact hup (hstranded.run hrun).1.gate
  · intro hnot
    -- the wrecker goes first, if there is one
    obtain ⟨s₁, hrun₁, hstart₁, hidle, hback⟩ : ∃ s₁,
        Relation.ReflTransGen (Step n role part) s s₁ ∧ s₁.calls b = 0 ∧
          (∀ j, role j = .wrecker → ¬ Active n (s₁.calls j)) ∧
          ∀ m, ¬ Stranded n role s₁ m := by
      by_cases hw : ∃ i, role i = .wrecker ∧ Active n (s.calls i)
      · obtain ⟨i, hi, hactive⟩ := hw
        obtain ⟨s₁, hrun, hsame, hidle, hback⟩ := hinv.exists_wrecked hi hactive
        exact ⟨s₁, hrun, (hsame b hb).trans hstart, hidle, fun m h => hnot m (hback m h)⟩
      · exact ⟨s, .refl, hstart, fun j hj h => hw ⟨j, hj, h⟩, hnot⟩
    have hinv₁ := hinv.run hrun₁
    by_cases hgate : s₁.store n = none
    · -- a builder on its way finds all free that is ahead of it, and so does the new one
      have free : ∀ i, role i = .builder →
          (∀ j, role j = .builder → Active n (s₁.calls j) → j = i) →
            ∀ m, s₁.calls i ≤ m → m ≤ n → s₁.store m = none := by
        intro i hi honly m hm hmn
        rcases hmn.lt_or_eq with hlt | rfl
        · by_contra hthere
          exact hback m ⟨hlt, hthere, hgate, fun j hj h => honly j hj h ▸ hm,
            fun j hj h => absurd h (hidle j hj)⟩
        · exact hgate
      by_cases hi : ∃ i, role i = .builder ∧ Active n (s₁.calls i)
      · obtain ⟨i, hi, hactive⟩ := hi
        obtain ⟨s', hrun, hup⟩ := exists_built (s := s₁) hi hactive.2
          (free i hi fun j hj h => hinv₁.one j i (hj.trans hi.symm) h hactive)
        exact ⟨s', hrun₁.trans hrun, hup⟩
      · obtain ⟨s', hrun, hup⟩ := exists_built (s := s₁) hb (by omega)
          (free b hb fun j hj h => absurd ⟨j, hj, h⟩ hi)
        exact ⟨s', hrun₁.trans hrun, hup⟩
    · exact ⟨s₁, hrun₁, hgate⟩

end Machinery.Gated
