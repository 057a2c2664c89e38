import Mathlib.Algebra.BigOperators.Group.Finset.Basic
import Mathlib.Logic.Function.Basic
import Mathlib.Logic.Relation
import Mathlib.Tactic

/-!
# Machinery/Lease — leases recorded in a ledger under reusable tokens

Parties `ι` come and go.  A party that is there runs under a token `π`; the token of a party that
left may be given to a later one.  The ledger records, for every resource, the tokens it has been
granted to; nobody is told when a party leaves, so entries outlive their party until a `sweep`
removes some of the tokens no party runs under.

What the ledger is for is `mutual_exclusion`: an exclusive resource is never held by two parties
that are there, however late the sweeps come and whichever tokens are reused.  The exclusive
resources with an entry are those that parties hold and those that nobody holds, the `Stray` ones
(`card_occupied`); where no token is reused while it is recorded, a party that is there is recorded
under what it holds and nothing else (`Owned.step`).
-/

namespace Machinery.Lease

/-- Where a party is: `waiting` has asked for nothing yet, `holding` was granted its resources and
`done` holds nothing any more (or never got anything). -/
inductive Party (π ρ : Type)
  | absent
  | waiting (p : π)
  | holding (p : π) (rs : List ρ)
  | done (p : π)
  | gone

/-- The token a party that is there runs under. -/
def Party.token? {π ρ : Type} : Party π ρ → Option π
  | absent => none
  | waiting p => some p
  | holding p _ => some p
  | done p => some p
  | gone => none

/-- The recorded tokens of every resource, and the parties. -/
structure Ledger (ι π ρ : Type) where
  book : ρ → List π
  party : ι → Party π ρ

variable {ι π ρ : Type} [DecidableEq ι] [DecidableEq π] [DecidableEq ρ]

/-- Some party that is there runs under the token. -/
def Ledger.Live (s : Ledger ι π ρ) (p : π) : Prop := ∃ i, (s.party i).token? = some p

/-- Record a token under every resource of a list. -/
def record (book : ρ → List π) (p : π) (rs : List ρ) (r : ρ) : List π :=
  if r ∈ rs then book r ++ [p] else book r

/-- Erase a token under every resource of a list. -/
def erase (book : ρ → List π) (p : π) (rs : List ρ) (r : ρ) : List π :=
  if r ∈ rs then (book r).filter (· ≠ p) else book r

/-- One step of the ledger, for a given set of exclusive resources. -/
inductive Step (exclusive : ρ → Prop) : Ledger ι π ρ → Ledger ι π ρ → Prop
  /-- A party starts, under a token no party that is there runs under. -/
  | arrive {s : Ledger ι π ρ} (i : ι) (p : π) (hi : s.party i = .absent) (hp : ¬ s.Live p) :
      Step exclusive s { s with party := Function.update s.party i (.waiting p) }
  /-- A waiting party is granted resources; the exclusive ones must have no entry. -/
  | grant {s : Ledger ι π ρ} (i : ι) (p : π) (rs : List ρ) (hi : s.party i = .waiting p)
      (hfree : ∀ r ∈ rs, exclusive r → s.book r = []) :
      Step exclusive s
        { book := record s.book p rs, party := Function.update s.party i (.holding p rs) }
  /-- A grant that failed after some of it was recorded. -/
  | fail {s : Ledger ι π ρ} (i : ι) (p : π) (rs : List ρ) (hi : s.party i = .waiting p)
      (hfree : ∀ r ∈ rs, exclusive r → s.book r = []) :
      Step exclusive s
        { book := record s.book p rs, party := Function.update s.party i (.done p) }
  /-- A party gives its resources back. -/
  | release {s : Ledger ι π ρ} (i : ι) (p : π) (rs : List ρ) (hi : s.party i = .holding p rs) :
      Step exclusive s
        { book := erase s.book p rs, party := Function.update s.party i (.done p) }
  /-- Some entries of tokens that are not live disappear. -/
  | sweep {s : Ledger ι π ρ} (book : ρ → List π) (hsub : ∀ r, (book r).Sublist (s.book r))
      (hlive : ∀ r, ∀ p ∈ s.book r, s.Live p → p ∈ book r) : Step exclusive s { s with book }
  /-- A party leaves, at any moment and without a word. -/
  | leave {s : Ledger ι π ρ} (i : ι) :
      Step exclusive s { s with party := Function.update s.party i .gone }

/-- What every run keeps. -/
structure Inv (exclusive : ρ → Prop) (s : Ledger ι π ρ) : Prop where
  /-- Two parties that are there never share a token. -/
  distinct : ∀ i j p, (s.party i).token? = some p → (s.party j).token? = some p → i = j
  /-- An exclusive resource has at most one entry. -/
  single : ∀ r, exclusive r → (s.book r).length ≤ 1
  /-- Whoever holds a resource has its token recorded there. -/
  recorded : ∀ i p rs, s.party i = .holding p rs → ∀ r ∈ rs, p ∈ s.book r

variable {exclusive : ρ → Prop} {s s' : Ledger ι π ρ}

omit [DecidableEq π] in
theorem mem_record {book : ρ → List π} {p q : π} {rs : List ρ} {r : ρ} (h : q ∈ book r) :
    q ∈ record book p rs r := by
  rw [record]
  split
  · exact List.mem_append_left _ h
  · exact h

omit [DecidableEq π] in
theorem mem_record_self (book : ρ → List π) (p : π) {rs : List ρ} {r : ρ} (h : r ∈ rs) :
    p ∈ record book p rs r := by simp [record, h]

theorem mem_erase {book : ρ → List π} {p q : π} {rs : List ρ} {r : ρ} (h : q ∈ book r)
    (hne : q ≠ p) : q ∈ erase book p rs r := by
  rw [erase]
  split
  · exact List.mem_filter.mpr ⟨h, by simpa using hne⟩
  · exact h

omit [DecidableEq π] in
theorem length_record_le {book : ρ → List π} {p : π} {rs : List ρ} {r : ρ}
    (hone : (book r).length ≤ 1) (hfree : r ∈ rs → book r = []) :
    (record book p rs r).length ≤ 1 := by
  rw [record]
  split
  · rename_i h
    simp [hfree h]
  · exact hone

theorem length_erase_le (book : ρ → List π) (p : π) (rs : List ρ) (r : ρ) :
    (erase book p rs r).length ≤ (book r).length := by
  rw [erase]
  split
  · exact List.length_filter_le _ _
  · exact le_refl _

omit [DecidableEq π] [DecidableEq ρ] in
/-- Tokens stay apart when one place changes to something under a token that no other place has. -/
theorem distinct_update {σ : Type} {token : σ → Option π} {f : ι → σ}
    (h : ∀ i j p, token (f i) = some p → token (f j) = some p → i = j) {i : ι} {x : σ}
    (hx : ∀ p, token x = some p → ∀ j, j ≠ i → token (f j) ≠ some p) (j k : ι) (p : π)
    (hj : token (Function.update f i x j) = some p)
    (hk : token (Function.update f i x k) = some p) : j = k := by
  by_cases hji : j = i
  · by_cases hki : k = i
    · exact hji.trans hki.symm
    · rw [hji, Function.update_self] at hj
      rw [Function.update_of_ne hki] at hk
      exact absurd hk (hx p hj k hki)
  · rw [Function.update_of_ne hji] at hj
    by_cases hki : k = i
    · rw [hki, Function.update_self] at hk
      exact absurd hj (hx p hk j hji)
    · rw [Function.update_of_ne hki] at hk
      exact h j k p hj hk

omit [DecidableEq π] [DecidableEq ρ] in
/-- **One party changes place**, with the book. -/
theorem Inv.update (hinv : Inv exclusive s) {i : ι} {a : Party π ρ} {book : ρ → List π}
    (htoken : ∀ p, a.token? = some p → ∀ j, j ≠ i → (s.party j).token? ≠ some p)
    (hsingle : ∀ r, exclusive r → (book r).length ≤ 1)
    (hown : ∀ p rs, a = .holding p rs → ∀ r ∈ rs, p ∈ book r)
    (hothers : ∀ j, j ≠ i → ∀ p rs, s.party j = .holding p rs → ∀ r ∈ rs, p ∈ book r) :
    Inv exclusive { book, party := Function.update s.party i a } where
  distinct := distinct_update hinv.distinct htoken
  single := hsingle
  recorded j p rs hj := by
    dsimp only at hj
    by_cases hji : j = i
    · rw [hji, Function.update_self] at hj
      exact hown p rs hj
    · rw [Function.update_of_ne hji] at hj
      exact hothers j hji p rs hj

omit [DecidableEq ι] [DecidableEq π] [DecidableEq ρ] in
/-- A party keeps its token to itself. -/
theorem Inv.alone (hinv : Inv exclusive s) {i : ι} {a : Party π ρ}
    (ha : a.token? = (s.party i).token?) (p : π) (hp : a.token? = some p) (j : ι) (hj : j ≠ i) :
    (s.party j).token? ≠ some p := fun hjp => hj (hinv.distinct j i p hjp (ha ▸ hp))

/-- **One step keeps the invariant.** -/
theorem Inv.step (hinv : Inv exclusive s) (h : Step exclusive s s') : Inv exclusive s' := by
  cases h with
  | arrive i p hi hp =>
    refine hinv.update (fun q hq j _ hj => hp ⟨j, hj.trans hq.symm⟩) hinv.single ?_
      fun j _ => hinv.recorded j
    exact fun _ _ ha => nomatch ha
  | grant i p rs hi hfree =>
    refine hinv.update (hinv.alone (by rw [hi]; rfl)) (fun r hr => ?_) (fun q ts ha r hr => ?_)
      fun j _ q ts hj r hr => mem_record (hinv.recorded j q ts hj r hr)
    · exact length_record_le (hinv.single r hr) fun hm => hfree r hm hr
    · obtain ⟨rfl, rfl⟩ := Party.holding.inj ha
      exact mem_record_self _ _ hr
  | fail i p rs hi hfree =>
    refine hinv.update (hinv.alone (by rw [hi]; rfl)) (fun r hr => ?_) (fun _ _ ha => nomatch ha)
      fun j _ q ts hj r hr => mem_record (hinv.recorded j q ts hj r hr)
    exact length_record_le (hinv.single r hr) fun hm => hfree r hm hr
  | release i p rs hi =>
    refine hinv.update (hinv.alone (by rw [hi]; rfl)) (fun r hr => ?_) (fun _ _ ha => nomatch ha)
      fun j hji q ts hj r hr => mem_erase (hinv.recorded j q ts hj r hr) ?_
    · exact (length_erase_le _ _ _ _).trans (hinv.single r hr)
    · intro hqp
      exact hji (hinv.distinct j i q (by rw [hj]; rfl) (by rw [hi, hqp]; rfl))
  | sweep book hsub hlive =>
    refine ⟨hinv.distinct, fun r hr => (hsub r).length_le.trans (hinv.single r hr),
      fun j q rs hj r hr => ?_⟩
    exact hlive r q (hinv.recorded j q rs hj r hr) ⟨j, by rw [hj]; rfl⟩
  | leave i =>
    exact hinv.update (fun _ hp => nomatch hp) hinv.single (fun _ _ ha => nomatch ha)
      fun j _ => hinv.recorded j

omit [DecidableEq ι] [DecidableEq π] [DecidableEq ρ] in
/-- A ledger without entries and without parties. -/
theorem Inv.init (hbook : ∀ r, s.book r = []) (hparty : ∀ i, s.party i = .absent) :
    Inv exclusive s where
  distinct i _ _ hi := by
    rw [hparty i] at hi
    nomatch hi
  single r _ := by simp [hbook r]
  recorded i _ _ hi := by simp [hparty i] at hi

omit [DecidableEq ι] [DecidableEq π] [DecidableEq ρ] in
/-- A ledger may be emptied while no party holds anything. -/
theorem Inv.reset (hinv : Inv exclusive s) {book : ρ → List π} (hbook : ∀ r, book r = [])
    (hparty : ∀ i p rs, s.party i ≠ .holding p rs) : Inv exclusive { s with book } where
  distinct := hinv.distinct
  single r _ := by simp [hbook r]
  recorded i p rs hi := absurd hi (hparty i p rs)

omit [DecidableEq ι] [DecidableEq π] [DecidableEq ρ] in
/-- **Mutual exclusion.**  Two parties that both hold an exclusive resource are the same. -/
theorem Inv.mutual_exclusion (hinv : Inv exclusive s) {i j : ι} {p q : π} {rs ts : List ρ} {r : ρ}
    (hi : s.party i = .holding p rs) (hj : s.party j = .holding q ts) (hr : exclusive r)
    (hri : r ∈ rs) (hrj : r ∈ ts) : i = j := by
  have hp := hinv.recorded i p rs hi r hri
  have hq := hinv.recorded j q ts hj r hrj
  have hpq : p = q := by
    have hone := hinv.single r hr
    match hb : s.book r with
    | [] => simp [hb] at hp
    | [x] =>
      rw [hb, List.mem_singleton] at hp hq
      exact hp.trans hq.symm
    | x :: y :: l => simp [hb] at hone
  exact hinv.distinct i j p (by rw [hi]; rfl) (by rw [hj, hpq]; rfl)

/-! ## What is held and what is left behind -/

/-- The resources a party holds. -/
def Party.held {π ρ : Type} : Party π ρ → List ρ
  | holding _ rs => rs
  | _ => []

omit [DecidableEq ι] [DecidableEq π] [DecidableEq ρ] in
theorem exists_holding {a : Party π ρ} {r : ρ} (h : r ∈ a.held) : ∃ p, a = .holding p a.held := by
  match a with
  | .holding p rs => exact ⟨p, rfl⟩
  | .absent | .waiting _ | .done _ | .gone => exact absurd h List.not_mem_nil

/-- A resource with an entry that no party holds. -/
def Ledger.Stray (s : Ledger ι π ρ) (r : ρ) : Prop := s.book r ≠ [] ∧ ∀ i, r ∉ (s.party i).held

instance [Fintype ι] (s : Ledger ι π ρ) : DecidablePred s.Stray :=
  fun r => inferInstanceAs (Decidable (s.book r ≠ [] ∧ ∀ i, r ∉ (s.party i).held))

omit [DecidableEq ι] [DecidableEq π] [DecidableEq ρ] in
/-- What is held has an entry. -/
theorem Inv.book_ne_nil (hinv : Inv exclusive s) {i : ι} {r : ρ} (h : r ∈ (s.party i).held) :
    s.book r ≠ [] := by
  obtain ⟨p, hp⟩ := exists_holding h
  exact List.ne_nil_of_mem (hinv.recorded i p _ hp r h)

omit [DecidableEq ι] [DecidableEq π] [DecidableEq ρ] in
theorem Inv.holder_unique (hinv : Inv exclusive s) {i j : ι} {r : ρ} (hr : exclusive r)
    (hi : r ∈ (s.party i).held) (hj : r ∈ (s.party j).held) : i = j := by
  obtain ⟨p, hp⟩ := exists_holding hi
  obtain ⟨q, hq⟩ := exists_holding hj
  exact hinv.mutual_exclusion hp hq hr hi hj

omit [DecidableEq ι] [DecidableEq π] in
/-- **The account.**  Among exclusive resources, those with an entry are the ones each party holds,
which no two share, and the stray ones. -/
theorem Inv.card_occupied [Fintype ι] (hinv : Inv exclusive s) {rs : Finset ρ}
    (hrs : ∀ r ∈ rs, exclusive r) :
    (rs.filter fun r => s.book r ≠ []).card =
      (∑ i, (rs.filter fun r => r ∈ (s.party i).held).card) + (rs.filter s.Stray).card := by
  have hapart : ((Finset.univ : Finset ι) : Set ι).PairwiseDisjoint
      fun i => rs.filter fun r => r ∈ (s.party i).held := by
    intro i _ j _ hij
    refine Finset.disjoint_left.mpr fun r hi hj => hij ?_
    obtain ⟨hr, hi⟩ := Finset.mem_filter.mp hi
    exact hinv.holder_unique (hrs r hr) hi (Finset.mem_filter.mp hj).2
  have hstray : Disjoint (Finset.univ.biUnion fun i => rs.filter fun r => r ∈ (s.party i).held)
      (rs.filter s.Stray) := by
    refine Finset.disjoint_left.mpr fun r hheld hstray => ?_
    obtain ⟨i, -, hi⟩ := Finset.mem_biUnion.mp hheld
    exact (Finset.mem_filter.mp hstray).2.2 i (Finset.mem_filter.mp hi).2
  rw [← Finset.card_biUnion hapart, ← Finset.card_union_of_disjoint hstray]
  refine congrArg Finset.card (Finset.ext fun r => ?_)
  simp only [Finset.mem_union, Finset.mem_biUnion, Finset.mem_filter, Finset.mem_univ, true_and,
    Ledger.Stray]
  constructor
  · rintro ⟨hr, hbook⟩
    by_cases hheld : ∃ i, r ∈ (s.party i).held
    · obtain ⟨i, hi⟩ := hheld
      exact .inl ⟨i, hr, hi⟩
    · exact .inr ⟨hr, hbook, not_exists.mp hheld⟩
  · rintro (⟨i, hr, hi⟩ | ⟨hr, hbook, -⟩)
    · exact ⟨hr, hinv.book_ne_nil hi⟩
    · exact ⟨hr, hbook⟩

/-! ## Runs that reuse no recorded token -/

/-- A party that starts does so under a token recorded nowhere, and a grant that fails has recorded
nothing. -/
structure Careful (s s' : Ledger ι π ρ) : Prop where
  arrival : ∀ i p, (s.party i).token? = none → (s'.party i).token? = some p → ∀ r, p ∉ s.book r
  failure : ∀ i p, s.party i = .waiting p → s'.party i = .done p → s'.book = s.book

/-- The token of a party that is there is recorded under what the party holds and nowhere else. -/
def Owned (s : Ledger ι π ρ) : Prop :=
  ∀ i p, (s.party i).token? = some p → ∀ r, p ∈ s.book r → r ∈ (s.party i).held

omit [DecidableEq π] [DecidableEq ρ] in
theorem Owned.update (h : Owned s) {i : ι} {a : Party π ρ} {book : ρ → List π}
    (hown : ∀ p, a.token? = some p → ∀ r, p ∈ book r → r ∈ a.held)
    (hothers : ∀ j, j ≠ i → ∀ p, (s.party j).token? = some p → ∀ r, p ∈ book r → p ∈ s.book r) :
    Owned { book, party := Function.update s.party i a } := by
  intro j p hj r hr
  dsimp only at hj ⊢
  by_cases hji : j = i
  · rw [hji, Function.update_self] at hj ⊢
    exact hown p hj r hr
  · rw [Function.update_of_ne hji] at hj ⊢
    exact h j p hj r (hothers j hji p hj r hr)

omit [DecidableEq ι] [DecidableEq π] in
theorem mem_of_mem_record {book : ρ → List π} {p q : π} {rs : List ρ} {r : ρ}
    (h : q ∈ record book p rs r) : q ∈ book r ∨ q = p ∧ r ∈ rs := by
  rw [record] at h
  split at h
  · rename_i hr
    exact (List.mem_append.mp h).imp_right fun hq => ⟨List.mem_singleton.mp hq, hr⟩
  · exact .inl h

omit [DecidableEq ι] in
theorem mem_of_mem_erase {book : ρ → List π} {p q : π} {rs : List ρ} {r : ρ}
    (h : q ∈ erase book p rs r) : q ∈ book r ∧ (r ∈ rs → q ≠ p) := by
  rw [erase] at h
  split at h
  · exact ⟨(List.mem_filter.mp h).1, fun _ => by simpa using (List.mem_filter.mp h).2⟩
  · rename_i hr
    exact ⟨h, fun hmem => absurd hmem hr⟩

/-- **Whoever is newly recorded is there.** -/
theorem Step.mem_book (hs : Step exclusive s s') {r : ρ} {p : π} (hp : p ∈ s'.book r) :
    p ∈ s.book r ∨ s.Live p := by
  cases hs with
  | arrive | leave => exact .inl hp
  | grant i q rs hi _ | fail i q rs hi _ =>
    refine (mem_of_mem_record hp).imp_right fun hnew => ⟨i, ?_⟩
    rw [hi, hnew.1]
    rfl
  | release i q rs _ => exact .inl (mem_of_mem_erase hp).1
  | sweep book hsub _ => exact .inl ((hsub r).subset hp)

/-- **A careful step keeps every token to its party's own resources.** -/
theorem Owned.step (h : Owned s) (hinv : Inv exclusive s) (hs : Step exclusive s s')
    (hcareful : Careful s s') : Owned s' := by
  cases hs with
  | arrive i p hi hp =>
    have hnew := hcareful.arrival i p (by rw [hi]; rfl)
      (by simp [Function.update_self, Party.token?])
    refine h.update (fun q hq r hr => ?_) fun j _ q _ r hr => hr
    obtain rfl : p = q := Option.some.inj hq
    exact absurd hr (hnew r)
  | grant i p rs hi hfree =>
    have hp : (s.party i).token? = some p := by rw [hi]; rfl
    refine h.update (fun q hq r hr => ?_) fun j hji q hq r hr => ?_
    · obtain rfl : p = q := Option.some.inj hq
      refine (mem_of_mem_record hr).elim (fun hold => ?_) And.right
      have hnone := h i p hp r hold
      rw [hi] at hnone
      exact absurd hnone List.not_mem_nil
    · refine (mem_of_mem_record hr).resolve_right fun hnew => hji ?_
      exact hinv.distinct j i q hq (hnew.1 ▸ hp)
  | fail i p rs hi hfree =>
    have hbook := hcareful.failure i p hi (Function.update_self ..)
    have hp : (s.party i).token? = some p := by rw [hi]; rfl
    refine h.update (fun q hq r hr => ?_) fun j _ q _ r hr => hbook ▸ hr
    obtain rfl : p = q := Option.some.inj hq
    have hnone := h i p hp r (hbook ▸ hr)
    rw [hi] at hnone
    exact absurd hnone List.not_mem_nil
  | release i p rs hi =>
    have hp : (s.party i).token? = some p := by rw [hi]; rfl
    refine h.update (fun q hq r hr => ?_) fun j _ q _ r hr => (mem_of_mem_erase hr).1
    obtain rfl : p = q := Option.some.inj hq
    obtain ⟨hold, hgone⟩ := mem_of_mem_erase hr
    have hheld := h i p hp r hold
    rw [hi] at hheld
    exact absurd rfl (hgone hheld)
  | sweep book hsub hlive => exact fun i p hp r hr => h i p hp r ((hsub r).subset hr)
  | leave i => exact h.update (fun _ hq => nomatch hq) fun j _ q _ r hr => hr

omit [DecidableEq ι] [DecidableEq π] [DecidableEq ρ] in
/-- **After a sweep of every token that is not live** nothing is stray. -/
theorem Owned.not_stray (h : Owned s) (hswept : ∀ r, ∀ p ∈ s.book r, s.Live p) (r : ρ) :
    ¬ s.Stray r := by
  rintro ⟨hbook, hnobody⟩
  obtain ⟨p, hp⟩ := List.exists_mem_of_ne_nil _ hbook
  obtain ⟨i, hi⟩ := hswept r p hp
  exact hnobody i (h i p hi r hp)

end Machinery.Lease
