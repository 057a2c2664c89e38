import Cmk.Config.LockProtocol

/-!
# Config/Abandoned — a lock whose owner is gone

A client that dies between `lock` and `unlock`, or raises on the content it has just locked, leaves
its name in `Owner`.  No other client removes it: from then on every `lock` waits, for good
(`abandoned_forever`).  Everywhere else the lock can still be had (`lock_available_iff`).
-/

open Machinery

namespace Cmk

variable {ι V T C : Type}

/-- The configmap has an owner, and no client is between its `lock` and its `unlock`. -/
def System.Abandoned (s : System ι V T C) : Prop :=
  s.cm.owner ≠ some "" ∧ ∀ i, (s.clients i).pc ≠ .critical

variable [DecidableEq ι] [DecidableEq V] {codec : Codec T C} {body : ι → ℕ → C → C}
  {owners : ι → String} {cmName cmNamespace : String} {v : V} {t : Option T}
  {s s' : System ι V T C}

omit [DecidableEq ι] [DecidableEq V] in
theorem System.abandoned_abs : VersionLock.Abandoned s.abs ↔ s.Abandoned := by
  constructor
  · rintro ⟨howner, hnone⟩
    refine ⟨fun hfree => howner (by simp [System.abs, ConfigMap.abs, hfree]), fun i hi => ?_⟩
    obtain ⟨d, hd⟩ := abs_critical hi
    exact hnone i d hd
  · rintro ⟨howner, hnone⟩
    refine ⟨fun hfree => howner ?_, fun i d hi => hnone i (abs_inside hi)⟩
    simp only [System.abs, ConfigMap.abs] at hfree
    split at hfree
    · assumption
    · cases hfree

/-- A run of the clients is a run of the versioned lock. -/
theorem System.sim_run (howners : ∀ i, owners i ≠ "") {d₀ : Option T} (hok : s.Ok codec owners)
    (hinv : VersionLock.Inv (nameOf owners) (sectionOf codec body) d₀ s.abs)
    (h : Relation.ReflTransGen (System.Step codec body) s s') :
    s'.Ok codec owners ∧ Relation.ReflTransGen
      (VersionLock.Step (nameOf owners) (sectionOf codec body)) s.abs s'.abs := by
  induction h with
  | refl => exact ⟨hok, .refl⟩
  | tail _ hstep ih =>
    obtain ⟨hok', hrun⟩ := ih
    refine ⟨hok'.step hstep, ?_⟩
    rcases System.sim howners hok' (hinv.run hrun) hstep with hsame | habs
    · exact hsame ▸ hrun
    · exact hrun.tail habs

omit [DecidableEq V] in
/-- The abstract cell tells the stored configmap. -/
theorem ConfigMap.abs_injective :
    Function.Injective (ConfigMap.abs : ConfigMap V T → VersionLock.Cell V _ _) := by
  rintro ⟨owner, config, version⟩ ⟨owner', config', version'⟩ h
  simp only [ConfigMap.abs, VersionLock.Cell.mk.injEq] at h
  obtain ⟨rfl, howner, rfl⟩ := h
  split_ifs at howner with h' h''
  · rw [h', h'']
  · rw [Option.some.inj howner]

/-- **An abandoned lock is never taken over**: in every run from there the stored configmap stays as
it is, nobody gets past `lock`, and no section is completed. -/
theorem abandoned_forever (codec : Codec T C) (body : ι → ℕ → C → C) (owners : ι → String)
    (howners : ∀ i, owners i ≠ "") (cmName cmNamespace : String) (v : V) (t : Option T)
    (s s' : System ι V T C)
    (h : Relation.ReflTransGen (System.Step codec body)
      (System.start cmName cmNamespace owners v t) s)
    (habandoned : s.Abandoned) (h' : Relation.ReflTransGen (System.Step codec body) s s') :
    s'.Abandoned ∧ s'.cm = s.cm ∧ s'.locked = s.locked ∧ s'.completed = s.completed := by
  obtain ⟨hok, hinv⟩ := System.run_inv howners h
  obtain ⟨-, hrun⟩ := System.sim_run howners hok hinv h'
  obtain ⟨hlast, hcell, hlocked, hcompleted⟩ :=
    (System.abandoned_abs.mpr habandoned).run hinv hrun
  exact ⟨System.abandoned_abs.mp hlast, ConfigMap.abs_injective hcell, hlocked, hcompleted⟩

/-- A client takes the lock and is killed: nobody has taken it again after whatever follows. -/
theorem abandoned_killed : ∃ s : System Bool ℕ ℕ ℕ, s.Abandoned ∧
    ∀ s', Relation.ReflTransGen (System.Step ⟨.ok, id⟩ fun _ _ c => c + 1) s s' →
      s'.Abandoned ∧ s'.cm = s.cm ∧ s'.locked = s.locked ∧ s'.completed = s.completed := by
  let codec : Codec ℕ ℕ := ⟨.ok, id⟩
  have h := Relation.ReflTransGen.refl (r := System.Step codec fun (_ : Bool) _ c => c + 1)
    (a := System.start "cmk-config-node" "default" (fun b => if b then "pod-a" else "pod-b") 0
      (some 5))
  replace h := h.tail (.read true _ rfl rfl)
  replace h := h.tail (.claim true 1 _ _ _ _ rfl rfl (by simp [System.start]) rfl rfl)
  replace h := h.tail (.stop true)
  obtain ⟨s, hrun, habandoned⟩ : ∃ s, Relation.ReflTransGen (System.Step codec _) _ s ∧
    s.Abandoned := ⟨_, h, by decide, fun b hb => by cases b <;> cases hb⟩
  exact ⟨s, habandoned, fun s' => abandoned_forever codec _ _ (by decide) _ _ 0 (some 5) s s' hrun
    habandoned⟩

/-! ## Everywhere else the lock can be had -/

/-- There is a text under `config`, and it is read without an error. -/
def Readable (codec : Codec T C) (t : Option T) : Prop :=
  ∃ text conf, t = some text ∧ codec.load text = .ok conf

omit [DecidableEq ι] in
theorem readable_applyAll (hdump : ∀ conf, Readable codec (some (codec.dump conf)))
    (ht : Readable codec t) (xs : List (ι × ℕ)) :
    Readable codec (VersionLock.applyAll (sectionOf codec body) xs t) := by
  induction xs using List.reverseRecOn with
  | nil => exact ht
  | append_singleton xs x ih =>
    obtain ⟨text, conf, htext, hload⟩ := ih
    rw [VersionLock.applyAll_concat, htext]
    simpa [sectionOf, hload] using hdump _

/-- Every run has issued finitely many versions. -/
theorem System.issued_finite
    (h : Relation.ReflTransGen (System.Step codec body)
      (System.start cmName cmNamespace owners v t) s) : s.issued.Finite := by
  induction h with
  | refl => exact Set.finite_singleton v
  | tail _ hstep ih =>
    cases hstep with
    | claim | claimError | unlock => exact ih.insert _
    | wait | readError | read | refused | unlockError | stop => exact ih

/-- **A lock that is held can be given back**, and the others do not notice. -/
theorem System.exists_unlock [Infinite V] (body : ι → ℕ → C → C) (hok : s.Ok codec owners)
    (hfinite : s.issued.Finite) {i : ι} (hi : (s.clients i).pc = .critical) :
    ∃ s', System.Step codec body s s' ∧ s'.cm.owner = some "" ∧
      (∀ j ≠ i, s'.clients j = s.clients j) := by
  obtain ⟨c, text, conf, hc, -, -, hd⟩ := (hok i).critical hi
  obtain ⟨w, hw⟩ := hfinite.exists_notMem
  have hu : ((s.clients i).config.work (body i (s.count i))).unlockPatch codec =
      .ok ⟨"", some (codec.dump (body i (s.count i) conf)), none⟩ := by
    simp [Config.unlockPatch, Config.work, hc, hd]
  exact ⟨_, .unlock i w _ _ (.inl hi) hu hw (patch_unversioned.mpr rfl), rfl,
    fun j hj => Function.update_of_ne hj _ _⟩

/-- **A lock that is free can be taken.** -/
theorem System.exists_lock [Infinite V] (body : ι → ℕ → C → C) (hfinite : s.issued.Finite)
    (hfree : s.cm.owner = some "") (hread : Readable codec s.cm.config) {i : ι}
    (hi : (s.clients i).pc = .reading) :
    ∃ s', Relation.ReflTransGen (System.Step codec body) s s' ∧
      (s'.clients i).pc = .critical := by
  obtain ⟨text, conf, htext, hload⟩ := hread
  obtain ⟨w, hw⟩ := hfinite.exists_notMem
  have hclaim : (s.clients i).config.claim? s.cm = .ok (some _) := claim?_eq_some.mpr ⟨hfree, rfl⟩
  have hread : System.Step codec body s _ := .read i _ hi hclaim
  have henter : (s.clients i).config.enter codec s.cm =
      ({ (s.clients i).config with
          c := some { s.cm with owner := some (s.clients i).config.owner },
          cData := some conf }, .ok ()) := by simp [Config.enter, htext, hload]
  refine ⟨_, (Relation.ReflTransGen.single hread).tail (.claim i w s.cm _ _ _ (by simp)
    (by simpa using hclaim) hw (patch_versioned.mpr ⟨rfl, rfl⟩) (by simpa using henter)), ?_⟩
  simp

/-- **A client that waits can still get the lock** exactly while it is not abandoned: the holder
gives it back if there is one, and then nothing is in the way. -/
theorem lock_available_iff [Infinite V] (codec : Codec T C) (body : ι → ℕ → C → C)
    (owners : ι → String) (howners : ∀ i, owners i ≠ "") (cmName cmNamespace : String) (v : V)
    (t : Option T) (ht : Readable codec t)
    (hdump : ∀ conf, Readable codec (some (codec.dump conf))) (s : System ι V T C)
    (h : Relation.ReflTransGen (System.Step codec body)
      (System.start cmName cmNamespace owners v t) s) (i : ι)
    (hi : (s.clients i).pc = .reading) :
    (∃ s', Relation.ReflTransGen (System.Step codec body) s s' ∧
      (s'.clients i).pc = .critical) ↔ ¬ s.Abandoned := by
  have readable : ∀ s' : System ι V T C, Relation.ReflTransGen (System.Step codec body)
      (System.start cmName cmNamespace owners v t) s' → Readable codec s'.cm.config := by
    intro s' h'
    obtain ⟨-, hinv⟩ := System.run_inv howners h'
    have hdata : s'.cm.config = _ := hinv.data
    exact hdata ▸ readable_applyAll hdump ht _
  obtain ⟨hok, hinv⟩ := System.run_inv howners h
  constructor
  · rintro ⟨s', hrun, hcritical⟩ habandoned
    obtain ⟨-, habs⟩ := System.sim_run howners hok hinv hrun
    obtain ⟨hlast, -⟩ := (System.abandoned_abs.mpr habandoned).run hinv habs
    exact (System.abandoned_abs.mp hlast).2 i hcritical
  · intro hnot
    by_cases hfree : s.cm.owner = some ""
    · exact System.exists_lock body (System.issued_finite h) hfree (readable s h) hi
    · -- somebody is inside, and goes first
      obtain ⟨j, hj⟩ : ∃ j, (s.clients j).pc = .critical := by
        by_contra hnone
        exact hnot ⟨hfree, not_exists.mp hnone⟩
      obtain ⟨s₁, hstep, hfree₁, hsame⟩ := System.exists_unlock body hok
        (System.issued_finite h) hj
      have hij : i ≠ j := fun heq => by rw [heq, hj] at hi; cases hi
      have h₁ := h.tail hstep
      obtain ⟨s₂, hrun, hcritical⟩ := System.exists_lock body (System.issued_finite h₁)
        hfree₁ (readable s₁ h₁) ((hsame i hij).symm ▸ hi)
      exact ⟨s₂, .head hstep hrun, hcritical⟩

/-- One of two clients holds the lock: the other one can still get it. -/
theorem lock_available_held : ∃ s : System Bool ℕ ℕ ℕ, (s.clients true).pc = .critical ∧
    ((∃ s', Relation.ReflTransGen (System.Step ⟨.ok, id⟩ fun _ _ c => c + 1) s s' ∧
      (s'.clients false).pc = .critical) ↔ ¬ s.Abandoned) := by
  let codec : Codec ℕ ℕ := ⟨.ok, id⟩
  have h := Relation.ReflTransGen.refl (r := System.Step codec fun (_ : Bool) _ c => c + 1)
    (a := System.start "cmk-config-node" "default" (fun b => if b then "pod-a" else "pod-b") 0
      (some 5))
  replace h := h.tail (.read true _ rfl rfl)
  replace h := h.tail (.claim true 1 _ _ _ _ rfl rfl (by simp [System.start]) rfl rfl)
  have readable : ∀ n, Readable codec (some n) := fun n => ⟨n, n, rfl, rfl⟩
  exact ⟨_, rfl, lock_available_iff codec _ _ (by decide) _ _ 0 (some 5) (readable 5) readable _ h
    false rfl⟩

end Cmk
