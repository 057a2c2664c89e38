import Cmk.Node.Exclusion

/-!
# Node/Release — what the last `finally` block of `isolate` leaves behind

The block builds its `Config` object from two arguments where `__init__` takes three, so it raises
before it locks (`releaseConfig_eq`) and the wrapper's pid stays in every list it was allocated
(`release_never`).  Were the object built, the section after it would undo the allocation
(`releaseSection_undoes_isolateSection`).
-/

open Machinery

namespace Cmk

/-- The constructor call raises: `cm_namespace` is missing. -/
theorem releaseConfig_eq (configmapName podName : String) :
    releaseConfig configmapName podName = .error .typeError := rfl

/-- **The section after it undoes an allocation**, where names are unique and the pid was in no
list. -/
theorem releaseSection_undoes_isolateSection {args : IsolateArgs} {env : IsolateEnv} {pid : ℤ}
    (hpid : ∀ k q, env.getpid k = .ok q → q = pid) {c c' c'' : Conf String String} (hk : c.Known)
    (hu : UniqueNames c.entries) (hnew : ∀ e ∈ c.entries, taskOf String pid ∉ e.tasks)
    {clists : List String} (ha : isolateSection args env c = (.ok clists, c'))
    (hr : releaseSection args.poolName (.ok pid) clists c' = .ok c'') :
    c''.entries = c.entries := by
  obtain ⟨done, -, hok, rfl, -⟩ := isolateSection_spec hpid hk hu ha
  obtain rfl := hok clists rfl
  obtain ⟨q, hq, hent'⟩ := releaseSection_spec (hu.rewrite _) hr
  obtain rfl := Except.ok.inj hq
  rw [hent', Conf.entries_rewrite, List.map_map]
  refine (List.map_congr_left fun e he => ?_).trans (List.map_id _)
  have hkeep : e.tasks.filter (· ≠ taskOf String pid) = e.tasks :=
    List.filter_eq_self.mpr fun t ht => by
      simpa using fun h : t = taskOf String pid => hnew e he (h ▸ ht)
  have hback : dropAt args.poolName done (taskOf String pid) (e.pool, e.coreId)
      (appendAt args.poolName done (taskOf String pid) (e.pool, e.coreId) e.tasks) = e.tasks := by
    by_cases h : e.pool = args.poolName ∧ e.coreId ∈ done
    · rw [appendAt, if_pos h, dropAt, if_pos h, List.filter_append, hkeep]
      simp
    · rw [appendAt, if_neg h, dropAt, if_neg h]
  rw [Function.comp_apply, Entry.rewrite, Entry.rewrite, hback, id]

variable {ι : Type}

/-- The pid is in no list of the pool under the names allocated. -/
def Node.Released (s : Node ι) (pid : ℤ) (pool : String) (clists : List String) : Prop :=
  ∀ e ∈ s.config.entries, e.pool = pool → e.coreId ∈ clists → taskOf String pid ∉ e.tasks

instance (s : Node ι) (pid : ℤ) (pool : String) (clists : List String) :
    Decidable (s.Released pid pool clists) :=
  inferInstanceAs (Decidable (∀ e ∈ s.config.entries, _ → _ → _))

section Runs

variable [DecidableEq ι] {s s' : Node ι} {e : PyErr}

/-- No `finally` block that cannot build its object comes to its end. -/
theorem ended_error_step (hs : Node.Step (.error e) s s')
    (h : ∀ i pid pool clists, s.wrappers i ≠ .ended pid pool clists (.ok ())) :
    ∀ i pid pool clists, s'.wrappers i ≠ .ended pid pool clists (.ok ()) := by
  have hput : ∀ {i : ι} {w : Wrapper}, (∀ pid pool clists, w ≠ .ended pid pool clists (.ok ())) →
      ∀ j pid pool clists, Function.update s.wrappers i w j ≠ .ended pid pool clists (.ok ()) :=
    fun {i w} hw => (Function.forall_update_iff s.wrappers fun _ x =>
      ∀ pid pool clists, x ≠ .ended pid pool clists (.ok ())).mpr ⟨hw, fun j _ => h j⟩
  cases hs with
  | start i pid hi hp => exact hput (by simp)
  | allocate i pid args env c c' clists hi hread hpid hrun => exact hput (by simp)
  | allocateError i pid args env c c' e hi hread hpid hrun => exact hput (by simp)
  | finish i pid pool clists getpid c c' hi hread hpid hrun =>
    exact absurd (finallyBlock_ok hrun).1 (by simp)
  | finishError i pid pool clists getpid c e hi hread hpid hrun => exact hput (by simp)
  | reconcile procExists c c' hread hlive hrun => exact h
  | die i => exact hput (by simp)

theorem ended_error {d : ConfDict String String} (h : Node.Run (.error e) d s) :
    ∀ i pid pool clists, s.wrappers i ≠ .ended pid pool clists (.ok ()) := by
  induction h with
  | refl => simp [Node.fresh]
  | tail _ hs ih => exact ended_error_step hs ih

/-- **No `isolate` that ends has released its lists**, whichever configmap it starts from, whatever
it was allocated and whatever runs in between. -/
theorem release_never (configmapName podName : String) (d : ConfDict String String) (s : Node ι)
    (h : Node.Run (releaseConfig configmapName podName) d s) (i : ι) (pid : ℤ) (pool : String)
    (clists : List String) (r : Except PyErr Unit) (hi : s.wrappers i = .ended pid pool clists r) :
    ¬ s.Released pid pool clists := by
  intro hrel
  have hne := (h.inv.wrappers i).some_list pid pool clists r (.inr hi)
  obtain ⟨cl, hcl⟩ := List.exists_mem_of_ne_nil clists hne
  cases r with
  | ok u => exact ended_error h i pid pool clists hi
  | error e =>
    have hheld : (s.wrappers i).Unreleased pid pool clists := hi ▸ .ended pid pool clists e
    obtain ⟨x, hx, hp, hc, ht⟩ := h.inv.listed hheld cl hcl
    exact hrel x hx hp (hc ▸ hcl) ht

end Runs

/-- The node after one wrapper was allocated a list and ended. -/
def leaked : Node Unit where
  config := buildConfigmap
    (isolateSection (τ := String) ⟨"exclusive", some "-1"⟩ ⟨none, 0, fun _ => .ok 7⟩
      ⟨twoLists.map buildPool name_buildPool⟩).2
  wrappers _ := .ended 7 "exclusive" ["1"] (.error .typeError)

theorem leaked_run : Node.Run (releaseConfig "cmk-config-node" "pod") twoLists leaked := by
  have h : Node.Run (releaseConfig "cmk-config-node" "pod") twoLists
    (Node.fresh twoLists : Node Unit) := .refl
  replace h := h.tail (.start () 7 rfl (by unfold Node.Live; decide))
  replace h := h.tail (.allocate () 7 ⟨"exclusive", some "-1"⟩ ⟨none, 0, fun _ => .ok 7⟩ _ _ _ rfl
    ⟨_, .refl _, rfl⟩ (by simp) rfl)
  replace h := h.tail (.finishError () 7 "exclusive" ["1"] (.ok 7) _ _ rfl ⟨_, .refl _, rfl⟩
    (by simp) rfl)
  exact h

theorem release_never_one : ¬ leaked.Released 7 "exclusive" ["1"] :=
  release_never _ _ _ _ leaked_run () 7 "exclusive" ["1"] _ rfl

/-- One wrapper, alone on the node, ends with its pid in the list it was allocated. -/
theorem release_on_exit_fails :
    ¬ ∀ s : Node Unit, Node.Run (releaseConfig "cmk-config-node" "pod") twoLists s →
      ∀ i pid pool clists r, s.wrappers i = .ended pid pool clists r →
        s.Released pid pool clists := by
  intro h
  exact absurd (h leaked leaked_run () 7 "exclusive" ["1"] _ rfl) (by decide)

end Cmk
