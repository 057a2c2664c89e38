import Cmk.Isolate
import Cmk.Reconfigure.Keeps

/-!
# Reconfigure/Release — a wrapper that ends after a reconfiguration

The last section of `isolate` removes the wrapper's pid from the lists it remembers.  A
reconfiguration in between has left the pid on those that still exist and moved it from the others,
to lists whose names the wrapper does not know.  So the section finds the pid everywhere exactly
when all of its lists are still there (`release_iff_lists_remain`).
-/

open Machinery

namespace Cmk

variable {τ : Type} [DecidableEq τ]

/-- The step from one configuration to the next takes a task off every list, and no other task. -/
def ReleasesOnly (t : τ) (c c' : Conf String τ) : Prop :=
  (∀ e ∈ c'.entries, t ∉ e.tasks) ∧
    List.Forall₂ (fun e e' => e'.loc = e.loc ∧
      e'.tasks.filter (· ≠ t) = e.tasks.filter (· ≠ t)) c.entries c'.entries

variable {old new new' c c' : Conf String τ} {procs' : Procs τ} {pool : String}
  {clists : List String} {t : τ}

/-- The pid is in the lists a wrapper remembers, and in no other. -/
structure Holds (c : Conf String τ) (pool : String) (clists : List String) (t : τ) : Prop where
  listed : ∀ cl ∈ clists, ∃ e ∈ c.entries, e.pool = pool ∧ e.coreId = cl ∧ t ∈ e.tasks
  only : ∀ e ∈ c.entries, t ∈ e.tasks → e.pool = pool ∧ e.coreId ∈ clists

/-- **A release takes the pid off the lists remembered**, whatever else is listed. -/
theorem releasesOnly_iff
    (hc' : c'.entries = c.entries.map (Entry.rewrite (dropAt pool clists t))) :
    ReleasesOnly t c c' ↔ ∀ e ∈ c.entries, t ∈ e.tasks → e.pool = pool ∧ e.coreId ∈ clists := by
  have hother : ∀ e : Entry String τ,
      (e.rewrite (dropAt pool clists t)).tasks.filter (· ≠ t) = e.tasks.filter (· ≠ t) := by
    intro e
    by_cases h : e.pool = pool ∧ e.coreId ∈ clists <;>
      simp [Entry.rewrite, dropAt, h, List.filter_filter]
  have hrest : List.Forall₂ (fun e e' => e'.loc = e.loc ∧
      e'.tasks.filter (· ≠ t) = e.tasks.filter (· ≠ t)) c.entries c'.entries := by
    rw [hc', List.forall₂_map_right_iff, List.forall₂_same]
    exact fun e _ => ⟨rfl, hother e⟩
  rw [ReleasesOnly, hc']
  constructor
  · rintro ⟨hnone, -⟩ e he ht
    by_contra hne
    refine hnone _ (List.mem_map_of_mem he) ?_
    rw [Entry.rewrite, dropAt, if_neg hne]
    exact ht
  · intro h
    refine ⟨fun e' he' => ?_, hc' ▸ hrest⟩
    obtain ⟨e, he, rfl⟩ := List.mem_map.mp he'
    by_cases ht : t ∈ e.tasks
    · simp [Entry.rewrite, dropAt, h e he ht]
    · unfold Entry.rewrite dropAt
      dsimp only
      split
      · exact fun hm => ht (List.mem_of_mem_filter hm)
      · exact ht

omit [DecidableEq τ] in
/-- **The pid stays on the lists remembered exactly when they are all still there.** -/
theorem only_iff_lists_remain (hk : Keeps old new new' procs') (hu : UniqueNames new.entries)
    (hholds : Holds old pool clists t) :
    (∀ y ∈ new'.entries, t ∈ y.tasks → y.pool = pool ∧ y.coreId ∈ clists) ↔
      ∀ cl ∈ clists, ∃ x ∈ new.entries, x.pool = pool ∧ x.coreId = cl := by
  obtain ⟨place, hplaced, hinj, hsurj, hkeep⟩ := hk.groups
  have hocc : ∀ {c : Conf String τ} {e}, e ∈ c.entries → t ∈ e.tasks → e ∈ c.occupied :=
    fun he ht => mem_occupied.mpr ⟨he, List.ne_nil_of_mem ht⟩
  have hu' : UniqueNames new'.entries := hu.of_locs (.of_eq hk.lists)
  constructor
  · intro h cl hcl
    obtain ⟨e, he, hpool, hname, ht⟩ := hholds.listed cl hcl
    obtain ⟨hy, hyp, hyt⟩ := hplaced e (hocc he ht)
    have hmem := (mem_occupied.mp hy).1
    obtain ⟨-, hin⟩ := h _ hmem (hyt ▸ ht)
    obtain ⟨x, hx, hxe⟩ := List.mem_map.mp (hk.lists ▸ List.mem_map_of_mem hmem)
    simp only [Entry.loc, Prod.mk.injEq] at hxe
    -- The list the group is on is remembered too, so it is kept by its own group.
    obtain ⟨e', he', hpool', hname', ht'⟩ := hholds.listed _ hin
    have hstay := hkeep e' (hocc he' ht') x hx (by rw [hxe.1, hyp, hpool, hpool'])
      (by rw [hxe.2.2, hname'])
    obtain ⟨hy', hyp', -⟩ := hplaced e' (hocc he' ht')
    have hsame : place e = place e' := UniqueNames.eq_of_name hu' hmem (mem_occupied.mp hy').1
      (by rw [hyp, hyp', hpool, hpool']) (by rw [hstay, hname'])
    have heq := hinj e (hocc he ht) e' (hocc he' ht') hsame
    exact ⟨x, hx, by rw [hxe.1, hyp, hpool], by rw [hxe.2.2, ← hname', ← heq, hname]⟩
  · intro h y hy ht
    obtain ⟨e, he, rfl⟩ := hsurj y (hocc hy ht)
    obtain ⟨-, hyp, hyt⟩ := hplaced e he
    obtain ⟨hpool, hname⟩ := hholds.only e (mem_occupied.mp he).1 (hyt ▸ ht)
    obtain ⟨x, hx, hxp, hxc⟩ := h _ hname
    exact ⟨hyp.trans hpool, (hkeep e he x hx (hxp.trans hpool.symm) hxc) ▸ hname⟩

/-- **A wrapper that ends after a reconfiguration** leaves its pid in no list exactly when every
list it remembers is still in its pool; it never takes off another pid. -/
theorem release_iff_lists_remain [Task τ] (old new : Conf String τ)
    (hempty : ∀ e ∈ new.entries, e.tasks = []) (hu : UniqueNames new.entries)
    (hplaces : SamePlaces old new) (infos : List (ProcessInfo τ))
    (hinfos : infos.Perm (procInfo old)) (new' : Conf String τ) (procs' : Procs τ)
    (hmatch : matching new infos (procsOf infos) = .ok (new', procs')) (pid : ℤ) (pool : String)
    (clists : List String) (hholds : Holds old pool clists (taskOf τ pid)) (c c' : Conf String τ)
    (hread : c.entries.Perm new'.entries) (hrel : releaseSection pool (.ok pid) clists c = .ok c') :
    ReleasesOnly (taskOf τ pid) c c' ↔
      ∀ cl ∈ clists, ∃ x ∈ new.entries, x.pool = pool ∧ x.coreId = cl := by
  obtain ⟨st, hst, rfl, rfl⟩ := seated_of_matching hempty hu hinfos hmatch
  have hk := hst.keeps hplaces
  have huc : UniqueNames c.entries := hu.of_locs ((hread.map Entry.loc).trans (.of_eq hk.lists))
  obtain ⟨q, hq, hent⟩ := releaseSection_spec huc hrel
  obtain rfl := Except.ok.inj hq
  rw [releasesOnly_iff hent, ← only_iff_lists_remain hk hu hholds]
  exact ⟨fun h y hy => h y (hread.mem_iff.mpr hy), fun h y hy => h y (hread.mem_iff.mp hy)⟩

/-- The pid of a wrapper whose list is still there is taken off it; one of which a list is gone is
left on another. -/
theorem release_iff_lists_remain_oldLists :
    ReleasesOnly "7" (exclusivePool [⟨"2", ["7"]⟩, ⟨"1", ["9"]⟩])
        (exclusivePool [⟨"2", []⟩, ⟨"1", ["9"]⟩]) ∧
      ¬ ReleasesOnly "7" (exclusivePool [⟨"2", ["7", "9"]⟩, ⟨"3", ["7"]⟩])
        (exclusivePool [⟨"2", ["9"]⟩, ⟨"3", ["7"]⟩]) := by
  refine ⟨(release_iff_lists_remain (exclusivePool [⟨"1", ["9"]⟩, ⟨"2", ["7"]⟩])
    (exclusivePool [⟨"2", []⟩, ⟨"1", []⟩]) (by decide) (by decide) (by unfold SamePlaces; decide)
    _ (.refl _) _ _ rfl 7 "exclusive" ["2"] ⟨by decide, by decide⟩ _ _ (.refl _) rfl).mpr
    (by decide), fun h => ?_⟩
  have hlists := (release_iff_lists_remain oldLists newLists (by decide) (by decide)
    (by unfold SamePlaces; decide) _ (.refl _) _ _ rfl 7 "exclusive" ["1,5", "2"]
    ⟨by decide, by decide⟩ _ _ (.refl _) rfl).mp h
  exact absurd hlists (by decide)

/-- With one list less, the pid of a wrapper on that list outlives the wrapper. -/
theorem release_misses_moved_pid : ∃ new' procs' c',
    matching (exclusivePool [⟨"1", []⟩]) (procInfo (exclusivePool [⟨"1", []⟩, ⟨"2", ["7"]⟩]))
        (procsOf (procInfo (exclusivePool [⟨"1", []⟩, ⟨"2", ["7"]⟩]))) = .ok (new', procs') ∧
      Holds (exclusivePool [⟨"1", []⟩, ⟨"2", ["7"]⟩]) "exclusive" ["2"] (taskOf String 7) ∧
      releaseSection "exclusive" (.ok 7) ["2"] new' = .ok c' ∧
      ¬ ReleasesOnly (taskOf String 7) new' c' := by
  refine ⟨_, _, _, rfl, ⟨by decide, by decide⟩, rfl, fun h => ?_⟩
  exact absurd h.1 (by decide)

end Cmk
