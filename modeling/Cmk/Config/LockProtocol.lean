import Cmk.Config.Lock

/-!
# Config/LockProtocol — what any interleaving of `lock` and `unlock` guarantees

`Client.Ok` is what a client's own object satisfies at its place in the code: past a `lock` that
raised, one of the two attributes `unlock` reads is still `None`, so the `unlock` of a `finally`
block raises before it patches anything.  With that, `System.sim` maps every API call to a step of
`Machinery/VersionLock` and the protocol's guarantees are its invariant.
-/

open Machinery

namespace Cmk

variable {ι V T C : Type}

/-! ## One lemma for each call -/

theorem claim?_eq_some {self : Config V T C} {c : ConfigMap V T} {p : Patch V T} :
    self.claim? c = .ok (some p) ↔
      c.owner = some "" ∧ p = ⟨self.owner, c.config, some c.resourceVersion⟩ := by
  rw [Config.claim?]
  cases c.owner with
  | none => simp
  | some owner =>
    by_cases h : owner = "" <;> simp [h, eq_comm]

theorem patch_versioned [DecidableEq V] {cm cm' : ConfigMap V T} {o : String} {t : Option T}
    {w v : V} :
    cm.patch ⟨o, t, some w⟩ v = .ok cm' ↔
      w = cm.resourceVersion ∧ cm' = ⟨some o, t.or cm.config, v⟩ := by
  rw [ConfigMap.patch]
  by_cases h : w = cm.resourceVersion <;> simp [h, eq_comm]

theorem patch_unversioned [DecidableEq V] {cm cm' : ConfigMap V T} {o : String} {t : T} {v : V} :
    cm.patch ⟨o, some t, none⟩ v = .ok cm' ↔ cm' = ⟨some o, some t, v⟩ := by
  simp [ConfigMap.patch, eq_comm]

theorem enter_ok {codec : Codec T C} {self config' : Config V T C} {c : ConfigMap V T}
    (h : self.enter codec c = (config', .ok ())) :
    ∃ text conf, c.config = some text ∧ codec.load text = .ok conf ∧
      config' =
        { self with c := some { c with owner := some self.owner }, cData := some conf } := by
  simp only [Config.enter] at h
  split at h
  · simp at h
  · rename_i text ht
    split at h
    · simp at h
    · rename_i conf hl
      exact ⟨text, conf, ht, hl, (congrArg Prod.fst h).symm⟩

theorem enter_error {codec : Codec T C} {self config' : Config V T C} {c : ConfigMap V T}
    {e : PyErr} (h : self.enter codec c = (config', .error e)) :
    config'.owner = self.owner ∧ config'.cData = self.cData := by
  simp only [Config.enter] at h
  split at h
  · obtain ⟨rfl, -⟩ := by simpa using h
    exact ⟨rfl, rfl⟩
  · split at h
    · obtain ⟨rfl, -⟩ := by simpa using h
      exact ⟨rfl, rfl⟩
    · simp at h

theorem unlockPatch_ok {codec : Codec T C} {self : Config V T C} {p : Patch V T}
    (h : self.unlockPatch codec = .ok p) :
    ∃ c conf, self.c = some c ∧ self.cData = some conf ∧
      p = ⟨"", some (codec.dump conf), none⟩ := by
  simp only [Config.unlockPatch] at h
  split at h
  · rename_i c conf hc hd
    exact ⟨c, conf, hc, hd, by simpa using h.symm⟩
  · simp at h

/-- **`unlock` on an object whose `lock` raised does not reach the API server.** -/
theorem unlockPatch_of_not_locked {codec : Codec T C} {self : Config V T C} (f : C → C)
    (h : self.c = none ∨ self.cData = none) :
    (self.work f).unlockPatch codec = .error .attributeError := by
  rcases h with h | h <;> simp [Config.unlockPatch, Config.work, h]

/-! ## Every client knows what its place in the code says -/

section Protocol

variable [DecidableEq ι] [DecidableEq V]
variable {codec : Codec T C} {body : ι → ℕ → C → C} {owners : ι → String}

/-- Every client's object is as its place in the code says. -/
def System.Ok (codec : Codec T C) (owners : ι → String) (s : System ι V T C) : Prop :=
  ∀ i, (s.clients i).Ok codec (owners i)

omit [DecidableEq V] in
theorem System.Ok.update {s : System ι V T C} (h : s.Ok codec owners) {i : ι} {x : Client V T C}
    (hx : x.Ok codec (owners i)) (j : ι) :
    (Function.update s.clients i x j).Ok codec (owners j) := by
  by_cases hj : j = i
  · subst hj
    rwa [Function.update_self]
  · rw [Function.update_of_ne hj]
    exact h j

omit [DecidableEq V] in
theorem Client.Ok.reading {owner : String} {x : Client V T C} (h : x.Ok codec owner)
    (hx : x.pc = .reading) : x.config.c = none ∧ x.config.cData = none := by
  have := h.2
  rwa [hx] at this

omit [DecidableEq V] in
theorem Client.Ok.claiming {owner : String} {x : Client V T C} {c : ConfigMap V T}
    (h : x.Ok codec owner) (hx : x.pc = .claiming c) :
    x.config.c = none ∧ x.config.cData = none ∧ c.owner = some "" := by
  have := h.2
  rwa [hx] at this

omit [DecidableEq V] in
theorem Client.Ok.critical {owner : String} {x : Client V T C} (h : x.Ok codec owner)
    (hx : x.pc = .critical) : ∃ c text conf, x.config.c = some c ∧ c.config = some text ∧
      codec.load text = .ok conf ∧ x.config.cData = some conf := by
  have := h.2
  rwa [hx] at this

omit [DecidableEq V] in
theorem Client.Ok.failed {owner : String} {x : Client V T C} (h : x.Ok codec owner)
    (hx : x.pc = .failed) : x.config.c = none ∨ x.config.cData = none := by
  have := h.2
  rwa [hx] at this

omit [DecidableEq V] in
/-- A client past a `lock` that raised does not get a patch out of `unlock`. -/
theorem Client.Ok.critical_of_unlock {owner : String} {x : Client V T C} {f : C → C} {p : Patch V T}
    (h : x.Ok codec owner) (hx : x.pc = .critical ∨ x.pc = .failed)
    (hu : (x.config.work f).unlockPatch codec = .ok p) : x.pc = .critical := by
  refine hx.resolve_right fun hf => ?_
  rw [unlockPatch_of_not_locked f (h.failed hf)] at hu
  exact absurd hu (by simp)

theorem System.Ok.step {s s' : System ι V T C} (h : s.Ok codec owners)
    (hs : System.Step codec body s s') : s'.Ok codec owners := by
  cases hs with
  | wait i hi hr => exact h
  | readError i e hi hr => exact h.update ⟨(h i).1, Or.inl ((h i).reading hi).1⟩
  | read i p hi hr =>
    obtain ⟨hc, hd⟩ := (h i).reading hi
    exact h.update ⟨(h i).1, hc, hd, (claim?_eq_some.mp hr).1⟩
  | claim i v c cm' p config' hi hr hv hp he =>
    obtain ⟨text, conf, ht, hl, rfl⟩ := enter_ok he
    exact h.update ⟨(h i).1, _, text, conf, rfl, ht, hl, rfl⟩
  | claimError i v c cm' p config' e hi hr hv hp he =>
    obtain ⟨ho, hd⟩ := enter_error he
    exact h.update ⟨ho.trans (h i).1, Or.inr (hd.trans ((h i).claiming hi).2.1)⟩
  | refused i v c p e hi hr hp => exact h.update ⟨(h i).1, Or.inl ((h i).claiming hi).1⟩
  | unlock i v cm' p hi hu hv hp => exact h.update ⟨(h i).1, rfl, rfl⟩
  | unlockError i e hi hu => exact h.update ⟨(h i).1, trivial⟩
  | stop i => exact h.update ⟨(h i).1, trivial⟩

omit [DecidableEq ι] [DecidableEq V] in
theorem System.Ok.start (cmName cmNamespace : String) (v : V) (t : Option T) :
    (System.start cmName cmNamespace owners v t : System ι V T C).Ok codec owners :=
  fun _ => ⟨rfl, rfl, rfl⟩

/-! ## The simulation -/

/-- The name a client writes into the cell. -/
abbrev nameOf (owners : ι → String) (i : ι) : Option String := some (owners i)

omit [DecidableEq ι] [DecidableEq V] in
theorem abs_owner_of_claim (owners : ι → String) (howners : ∀ i, owners i ≠ "") (i : ι)
    (t : Option T) (v : V) :
    (ConfigMap.abs ⟨some (owners i), t, v⟩ : VersionLock.Cell V (Option String) (Option T))
      = ⟨v, some (nameOf owners i), t⟩ := by simp [ConfigMap.abs, howners i]

omit [DecidableEq V] in
theorem System.abs_mk {s : System ι V T C} {i : ι} {x : Client V T C} (cm : ConfigMap V T)
    (issued : Set V) (count : ι → ℕ) (locked completed : List (ι × ℕ)) :
    System.abs ⟨cm, Function.update s.clients i x, issued, count, locked, completed⟩
      = ⟨cm.abs, Function.update s.abs.pc i x.abs, issued, count, locked, completed⟩ := by
  simp only [System.abs, Cmk.abs_update]

/-- **Every API call is a step of the versioned lock**, or changes nothing. -/
theorem System.sim (howners : ∀ i, owners i ≠ "") {d₀ : Option T} {s s' : System ι V T C}
    (hok : s.Ok codec owners)
    (hinv : VersionLock.Inv (nameOf owners) (sectionOf codec body) d₀ s.abs)
    (hs : System.Step codec body s s') :
    s'.abs = s.abs ∨
      VersionLock.Step (nameOf owners) (sectionOf codec body) s.abs s'.abs := by
  cases hs with
  | wait i hi hr => exact Or.inl rfl
  | readError i e hi hr =>
    rw [System.abs_mk]
    exact Or.inr (.stop i)
  | read i p hi hr =>
    have howner : s.cm.owner = some "" := (claim?_eq_some.mp hr).1
    have hpc : s.abs.pc i = .idle := by simp [System.abs, Client.abs, hi]
    have hfree : s.abs.cell.owner = none := by simp [System.abs, ConfigMap.abs, howner]
    rw [System.abs_mk]
    exact Or.inr (.look i hpc hfree)
  | claim i v c cm' p config' hi hr hv hp he =>
    obtain ⟨text, conf, ht, hl, rfl⟩ := enter_ok he
    obtain ⟨-, rfl⟩ := claim?_eq_some.mp hr
    obtain ⟨hcur, rfl⟩ := patch_versioned.mp hp
    have hpc : s.abs.pc i = .seen c.resourceVersion c.config := by simp [System.abs, Client.abs, hi]
    have hstep : VersionLock.Step (nameOf owners) (sectionOf codec body) s.abs _ :=
      .claim i v c.resourceVersion c.config hpc hcur hv
    refine Or.inr ?_
    rw [ht] at hstep
    rw [System.abs_mk, (hok i).1, ht, Option.some_or, abs_owner_of_claim owners howners]
    simp only [Client.abs, Option.bind_some]
    exact hstep
  | claimError i v c cm' p config' e hi hr hv hp he =>
    obtain ⟨-, rfl⟩ := claim?_eq_some.mp hr
    obtain ⟨hcur, rfl⟩ := patch_versioned.mp hp
    have hpc : s.abs.pc i = .seen c.resourceVersion c.config := by simp [System.abs, Client.abs, hi]
    have hdata : c.config.or s.cm.config = c.config := by
      have hseen : s.cm.config = c.config := ((hinv.seen i _ _ hpc).2 hcur).2
      rw [hseen, Option.or_self]
    have hstep : VersionLock.Step (nameOf owners) (sectionOf codec body) s.abs _ :=
      .claimStop i v c.resourceVersion c.config hpc hcur hv
    refine Or.inr ?_
    rw [System.abs_mk, (hok i).1, hdata, abs_owner_of_claim owners howners]
    exact hstep
  | refused i v c p e hi hr hp =>
    rw [System.abs_mk]
    exact Or.inr (.stop i)
  | unlock i v cm' p hi hu hv hp =>
    have hcrit := (hok i).critical_of_unlock hi hu
    obtain ⟨c, text, conf, hc, ht, hl, hd⟩ := (hok i).critical hcrit
    obtain ⟨c', conf', -, hd', rfl⟩ := unlockPatch_ok hu
    obtain rfl := patch_unversioned.mp hp
    obtain rfl : body i (s.count i) conf = conf' := by simpa [Config.work, hd] using hd'
    have hpc : s.abs.pc i = .inside (some text) := by simp [System.abs, Client.abs, hcrit, hc, ht]
    have hstep : VersionLock.Step (nameOf owners) (sectionOf codec body) s.abs _ :=
      .publish i v (some text) hpc hv
    have hsec : sectionOf codec body i (s.count i) (some text)
        = some (codec.dump (body i (s.count i) conf)) := by simp [sectionOf, hl]
    rw [show s.abs.count = s.count from rfl, hsec] at hstep
    rw [System.abs_mk]
    exact Or.inr hstep
  | unlockError i e hi hu =>
    rw [System.abs_mk]
    exact Or.inr (.stop i)
  | stop i =>
    rw [System.abs_mk]
    exact Or.inr (.stop i)

/-- **The invariant of every run**, from any configmap that nobody owns. -/
theorem System.run_inv (howners : ∀ i, owners i ≠ "") {cmName cmNamespace : String} {v : V}
    {t : Option T} {s : System ι V T C}
    (h : Relation.ReflTransGen (System.Step codec body)
      (System.start cmName cmNamespace owners v t) s) :
    s.Ok codec owners ∧
      VersionLock.Inv (nameOf owners) (sectionOf codec body) t s.abs := by
  induction h with
  | refl => exact ⟨System.Ok.start cmName cmNamespace v t, VersionLock.Inv.init⟩
  | tail _ hs ih =>
    refine ⟨ih.1.step hs, ?_⟩
    rcases System.sim howners ih.1 ih.2 hs with h | h
    · exact h ▸ ih.2
    · exact ih.2.step h

/-! ## What the protocol guarantees -/

/-- The guarantees in a state reached from the text `t`. -/
structure System.Guarantee (codec : Codec T C) (body : ι → ℕ → C → C) (owners : ι → String)
    (t : Option T) (s : System ι V T C) : Prop where
  /-- At most one client is between a successful `lock` and its `unlock`. -/
  exclusive : ∀ i j, (s.clients i).pc = .critical → (s.clients j).pc = .critical → i = j
  /-- The stored `Owner` is that client's name. -/
  owner : ∀ i, (s.clients i).pc = .critical → s.cm.owner = some (owners i)
  /-- A call that changes the data is that client's `unlock`. -/
  writer : ∀ s', System.Step codec body s s' → s'.cm.config ≠ s.cm.config →
    ∃ i, (s.clients i).pc = .critical ∧ (s'.clients i).pc = .reading
  /-- Locks are given back in the order they were taken: at most the last one is still out, also
  when its taker has died, and then `Owner` is its taker's name. -/
  order : s.locked = s.completed ∨
    ∃ i n, s.locked = s.completed ++ [(i, n)] ∧ s.cm.owner = some (owners i)
  /-- The data is what the critical sections give one after another. -/
  data : s.cm.config = VersionLock.applyAll (sectionOf codec body) s.completed t
  /-- While nobody owns the configmap these are all the sections locked, in lock order. -/
  serial : s.cm.owner = some "" →
    s.cm.config = VersionLock.applyAll (sectionOf codec body) s.locked t

omit [DecidableEq V] in
/-- A client is inside its section exactly in the critical part of the code. -/
theorem abs_inside {x : Client V T C} {d : Option T} (h : x.abs = .inside d) :
    x.pc = .critical := by
  rw [Client.abs] at h
  cases hx : x.pc <;> simp [hx] at h ⊢

omit [DecidableEq V] in
theorem abs_critical {x : Client V T C} (h : x.pc = .critical) : ∃ d, x.abs = .inside d := by
  simp [Client.abs, h]

omit [DecidableEq V] in
theorem abs_idle {x : Client V T C} (h : x.abs = .idle) : x.pc = .reading := by
  rw [Client.abs] at h
  cases hx : x.pc <;> simp [hx] at h ⊢

omit [DecidableEq V] in
theorem abs_owner {cm : ConfigMap V T} {o : Option String} (h : cm.abs.owner = some o) :
    cm.owner = o := by
  simp only [ConfigMap.abs] at h
  split at h
  · simp at h
  · simpa using h

/-- **The lock protocol.**  Whatever the clients' sections do, wherever they raise, lose the race or
unlock after a failed lock, and however their API calls interleave. -/
theorem lock_protocol (codec : Codec T C) (body : ι → ℕ → C → C) (owners : ι → String)
    (howners : ∀ i, owners i ≠ "") (cmName cmNamespace : String) (v : V) (t : Option T)
    (s : System ι V T C)
    (h : Relation.ReflTransGen (System.Step codec body)
      (System.start cmName cmNamespace owners v t) s) :
    s.Guarantee codec body owners t := by
  obtain ⟨hok, hinv⟩ := System.run_inv howners h
  refine ⟨fun i j hi hj => ?_, fun i hi => ?_, fun s' hs hd => ?_, ?_, hinv.data, fun hfree => ?_⟩
  · obtain ⟨d, hd⟩ := abs_critical hi
    obtain ⟨d', hd'⟩ := abs_critical hj
    exact hinv.one i j d d' hd hd'
  · obtain ⟨d, hd⟩ := abs_critical hi
    exact abs_owner (hinv.inside i d hd).1
  · rcases System.sim howners hok hinv hs with hsame | hstep
    · exact absurd (congrArg (fun a => a.cell.data) hsame) hd
    · obtain ⟨i, d, hi, hi'⟩ := hinv.data_changes hstep hd
      exact ⟨i, abs_inside hi, abs_idle hi'⟩
  · exact hinv.order.imp_right fun ⟨i, n, hl, ho⟩ => ⟨i, n, hl, abs_owner ho⟩
  · exact hinv.serial (by simp [System.abs, ConfigMap.abs, hfree])

/-- Two clients read the same unlocked configmap; one gets the lock, the other one is refused and
runs the `unlock` of its `finally` block. -/
theorem lock_protocol_race : ∃ s : System Bool ℕ ℕ ℕ,
    (s.clients true).pc = .critical ∧ (s.clients false).pc = .stopped ∧
      s.Guarantee ⟨.ok, id⟩ (fun _ _ c => c + 1) (fun b => if b then "pod-a" else "pod-b")
        (some 5) := by
  let codec : Codec ℕ ℕ := ⟨.ok, id⟩
  have h := Relation.ReflTransGen.refl (r := System.Step codec fun (_ : Bool) _ c => c + 1)
    (a := System.start "cmk-config-node" "default" (fun b => if b then "pod-a" else "pod-b") 0
      (some 5))
  replace h := h.tail (.read true _ rfl rfl)
  replace h := h.tail (.read false _ rfl rfl)
  replace h := h.tail (.claim true 1 _ _ _ _ rfl rfl (by simp [System.start]) rfl rfl)
  replace h := h.tail (.refused false 2 _ _ _ rfl rfl rfl)
  replace h := h.tail (.unlockError false _ (.inr rfl) rfl)
  exact ⟨_, rfl, rfl, lock_protocol codec _ _ (by decide) _ _ 0 (some 5) _ h⟩

end Protocol

end Cmk
