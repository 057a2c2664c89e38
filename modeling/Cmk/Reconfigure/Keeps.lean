import Cmk.Reconfigure.Seats

/-!
# Reconfigure/Keeps — what a reconfiguration does to the tasks

When the matching loops return, the new configuration holds the groups of the old one, each on a
list of its own in the same pool and on the list it had where that still exists
(`reconfigure_keeps`).
-/

open Machinery Machinery.Seating

namespace Cmk

variable {τ : Type}

/-- The CPU lists with a task. -/
def Conf.occupied (c : Conf String τ) : List (Entry String τ) :=
  c.entries.filter fun e => e.tasks ≠ []

/-- A name is filed under the same socket in both. -/
def SamePlaces (old new : Conf String τ) : Prop :=
  ∀ e ∈ old.entries, ∀ x ∈ new.entries, e.pool = x.pool → e.coreId = x.coreId → e.socket = x.socket

/-- What a reconfiguration keeps: the lists are the new ones; every group of pids of the old
configuration is at one of them, in the same pool, by itself, and at the list it had if there is one
of that name; and every pid has recorded the CPUs of the lists it is in. -/
structure Keeps (old new new' : Conf String τ) (procs' : Procs τ) : Prop where
  lists : new'.entries.map Entry.loc = new.entries.map Entry.loc
  groups : ∃ place : Entry String τ → Entry String τ,
    (∀ e ∈ old.occupied, place e ∈ new'.occupied ∧ (place e).pool = e.pool ∧
      (place e).tasks = e.tasks) ∧
    (∀ e ∈ old.occupied, ∀ e' ∈ old.occupied, place e = place e' → e = e') ∧
    (∀ x ∈ new'.occupied, ∃ e ∈ old.occupied, place e = x) ∧
    ∀ e ∈ old.occupied, ∀ x ∈ new.entries, x.pool = e.pool → x.coreId = e.coreId →
      (place e).coreId = e.coreId
  known : ∀ e ∈ old.entries, ∀ pid ∈ e.tasks, pid ∈ procs'.keys
  recorded : ∀ pid p, (pid, p) ∈ procs'.rows → ∀ z,
    z ∈ cpusOf p.newClist ↔ ∃ x ∈ new'.entries, pid ∈ x.tasks ∧ z ∈ cpusOf x.coreId

/-! ## Guests and seats -/

variable {old new : Conf String τ} {infos : List (ProcessInfo τ)}

theorem mem_occupied {c : Conf String τ} {e : Entry String τ} :
    e ∈ c.occupied ↔ e ∈ c.entries ∧ e.tasks ≠ [] := by
  simp [Conf.occupied]

/-- The guest an occupied list is. -/
def Entry.guest (e : Entry String τ) : ProcessInfo τ :=
  ⟨e.pool, e.socket, [true, true], e.coreId, e.tasks⟩

theorem procInfo_eq (c : Conf String τ) : procInfo c = c.occupied.map Entry.guest := rfl

theorem nodup_homes (h : infos.Perm (procInfo old)) : (infos.map ProcessInfo.home).Nodup := by
  refine (h.map ProcessInfo.home).nodup_iff.mpr ?_
  rw [procInfo_eq, List.map_map]
  exact old.nodup_loc.sublist (List.filter_sublist.map _)

theorem pid_ne_nil (h : infos.Perm (procInfo old)) : ∀ info ∈ infos, info.pid ≠ [] := by
  intro info hinfo
  obtain ⟨e, -, hne, rfl⟩ := mem_procInfo.mp (h.mem_iff.mp hinfo)
  exact hne

/-- The entry a guest and its seat make. -/
def seatEntry (x : ProcessInfo τ × Place) : Entry String τ := ⟨x.2.1, x.2.2.1, x.2.2.2, x.1.pid⟩

theorem find?_of_nodup {α β : Type} [DecidableEq β] {xs : List α} {f : α → β}
    (hnd : (xs.map f).Nodup) {x : α} (hx : x ∈ xs) : xs.find? (fun y => f y = f x) = some x :=
  Table.get?_key (t := ⟨xs, hnd⟩) hx

variable [DecidableEq τ] {plan : Plan (ProcessInfo τ) Place} {st : Matching τ}

/-- **The occupied lists are the seats taken.** -/
theorem Follows.mem_occupied (h : Follows new infos plan st)
    (hempty : ∀ e ∈ new.entries, e.tasks = []) (hpid : ∀ info ∈ infos, info.pid ≠ [])
    (hvalid : Valid ProcessInfo.wants Place.kind new.seats plan) {y : Entry String τ} :
    y ∈ st.conf.occupied ↔ ∃ x ∈ plan, y = seatEntry x := by
  have hfill : ∀ e ∈ new.entries, ∀ x ∈ plan, x.2 = e.loc → fill plan e = seatEntry x := by
    intro e _ x hx hloc
    rw [fill, ← hloc, find?_of_nodup hvalid.nodup hx, seatEntry, hloc]
  rw [Cmk.mem_occupied, h.entries]
  constructor
  · rintro ⟨hy, hne⟩
    obtain ⟨e, he, rfl⟩ := List.mem_map.mp hy
    by_contra hno
    refine hne ((tasks_fill_eq_nil (hempty e he) fun x hx => hpid _ (h.guests x hx)).mpr ?_)
    exact fun x hx hloc => hno ⟨x, hx, hfill e he x hx hloc⟩
  · rintro ⟨x, hx, rfl⟩
    obtain ⟨e, he, hloc⟩ := List.mem_map.mp (hvalid.seats x hx)
    refine ⟨List.mem_map.mpr ⟨e, he, hfill e he x hx hloc.symm⟩, hpid _ (h.guests x hx)⟩

/-! ## Every task is kept -/

/-- Where a plan puts the group of an old list. -/
def placeIn (plan : Plan (ProcessInfo τ) Place) (e : Entry String τ) : Entry String τ :=
  ((plan.find? fun x => x.1.home = e.loc).map seatEntry).getD e

/-- The loops have come to a plan for everybody in the old configuration. -/
structure Seated (old new : Conf String τ) (infos : List (ProcessInfo τ))
    (plan : Plan (ProcessInfo τ) Place) (st : Matching τ) : Prop where
  order : infos.Perm (procInfo old)
  follows : Follows new infos plan st
  valid : Valid ProcessInfo.wants Place.kind new.seats plan
  all : (plan.map Prod.fst).Perm infos
  empty : ∀ e ∈ new.entries, e.tasks = []

namespace Seated

variable {e e' y : Entry String τ}

theorem mem_occupied (h : Seated old new infos plan st) :
    y ∈ st.conf.occupied ↔ ∃ x ∈ plan, y = seatEntry x :=
  h.follows.mem_occupied h.empty (pid_ne_nil h.order) h.valid

omit [DecidableEq τ] in
theorem guest_mem (h : Seated old new infos plan st) (he : e ∈ old.occupied) : e.guest ∈ infos :=
  h.order.mem_iff.mpr (procInfo_eq old ▸ List.mem_map_of_mem he)

omit [DecidableEq τ] in
theorem nodup_guests (h : Seated old new infos plan st) : (plan.map fun x => x.1.home).Nodup := by
  have hhomes := (h.all.map ProcessInfo.home).nodup_iff.mpr (nodup_homes h.order)
  rwa [List.map_map] at hhomes

omit [DecidableEq τ] in
/-- A guest has one seat. -/
theorem eq_of_guest (h : Seated old new infos plan st) {x x' : ProcessInfo τ × Place}
    (hx : x ∈ plan)
    (hx' : x' ∈ plan) (heq : x.1 = x'.1) : x = x' :=
  List.inj_on_of_nodup_map h.nodup_guests hx hx' (by rw [heq])

omit [DecidableEq τ] in
theorem placeIn_eq (h : Seated old new infos plan st) (he : e ∈ old.occupied) :
    ∃ x ∈ plan, x.1 = e.guest ∧ placeIn plan e = seatEntry x := by
  obtain ⟨x, hx, heq⟩ := List.mem_map.mp (h.all.mem_iff.mpr (h.guest_mem he))
  have hhome : x.1.home = e.loc := by
    rw [heq]
    rfl
  refine ⟨x, hx, heq, ?_⟩
  rw [placeIn, ← hhome, find?_of_nodup h.nodup_guests hx]
  rfl

theorem placed (h : Seated old new infos plan st) (he : e ∈ old.occupied) :
    placeIn plan e ∈ st.conf.occupied ∧ (placeIn plan e).pool = e.pool ∧
      (placeIn plan e).tasks = e.tasks := by
  obtain ⟨x, hx, hguest, heq⟩ := h.placeIn_eq he
  have hkind : x.2.1 = x.1.pool := congrArg Prod.fst (h.valid.kinds x hx)
  rw [heq]
  exact ⟨h.mem_occupied.mpr ⟨x, hx, rfl⟩, hkind.trans (congrArg ProcessInfo.pool hguest),
    congrArg ProcessInfo.pid hguest⟩

omit [DecidableEq τ] in
theorem injective (h : Seated old new infos plan st) (he : e ∈ old.occupied)
    (he' : e' ∈ old.occupied)
    (heq : placeIn plan e = placeIn plan e') : e = e' := by
  obtain ⟨x, hx, hguest, hxe⟩ := h.placeIn_eq he
  obtain ⟨x', hx', hguest', hxe'⟩ := h.placeIn_eq he'
  have hseat : x.2 = x'.2 := congrArg Entry.loc (hxe.symm.trans (heq.trans hxe'))
  obtain rfl := List.inj_on_of_nodup_map h.valid.nodup hx hx' hseat
  have hhome : e.loc = e'.loc := congrArg ProcessInfo.home (hguest.symm.trans hguest')
  exact Conf.eq_of_loc_eq (Cmk.mem_occupied.mp he).1 (Cmk.mem_occupied.mp he').1 hhome

theorem surjective (h : Seated old new infos plan st) (hy : y ∈ st.conf.occupied) :
    ∃ e ∈ old.occupied, placeIn plan e = y := by
  obtain ⟨x, hx, rfl⟩ := h.mem_occupied.mp hy
  have hguest := h.order.mem_iff.mp (h.follows.guests x hx)
  rw [procInfo_eq] at hguest
  obtain ⟨e, he, heq⟩ := List.mem_map.mp hguest
  obtain ⟨x', hx', hguest', hplace⟩ := h.placeIn_eq he
  rw [h.eq_of_guest hx' hx (hguest'.trans heq)] at hplace
  exact ⟨e, he, hplace⟩

omit [DecidableEq τ] in
/-- A group stays on a list that is still there. -/
theorem stays (h : Seated old new infos (seatingOf new infos).1 st) (he : e ∈ old.occupied)
    (hhome : e.loc ∈ new.seats) : (placeIn (seatingOf new infos).1 e).loc = e.loc := by
  obtain ⟨x, hx, hguest, hxe⟩ := h.placeIn_eq he
  have hsits : (e.guest, e.guest.home) ∈ (seatingOf new infos).1 :=
    home_mem_seating (h.guest_mem he) hhome
  rw [h.eq_of_guest hx hsits hguest] at hxe
  rw [hxe]
  rfl

theorem recorded (h : Seated old new infos plan st) {pid : τ} {p : Pid}
    (hrow : (pid, p) ∈ st.procs.rows) (z : ℤ) : z ∈ cpusOf p.newClist ↔
      ∃ y ∈ st.conf.entries, pid ∈ y.tasks ∧ z ∈ cpusOf y.coreId := by
  rw [h.follows.recorded pid p hrow z]
  constructor
  · rintro ⟨x, hx, hpid, hz⟩
    exact ⟨_, (Cmk.mem_occupied.mp (h.mem_occupied.mpr ⟨x, hx, rfl⟩)).1, hpid, hz⟩
  · rintro ⟨y, hy, hpid, hz⟩
    obtain ⟨x, hx, rfl⟩ := h.mem_occupied.mp (Cmk.mem_occupied.mpr ⟨hy, List.ne_nil_of_mem hpid⟩)
    exact ⟨x, hx, hpid, hz⟩

/-- A seating of everybody keeps every task. -/
theorem keeps (h : Seated old new infos (seatingOf new infos).1 st) (hplaces : SamePlaces old new) :
    Keeps old new st.conf st.procs := by
  refine ⟨h.follows.seats, ⟨placeIn (seatingOf new infos).1, fun e he => h.placed he,
    fun e he e' he' => h.injective he he', fun y hy => h.surjective hy,
    fun e he y hy hpool hname => ?_⟩, fun e he pid hpid => ?_, fun pid p => h.recorded⟩
  · have hsocket := hplaces e (Cmk.mem_occupied.mp he).1 y hy hpool.symm hname.symm
    have hhome : e.loc ∈ new.seats :=
      List.mem_map.mpr ⟨y, hy, by rw [Entry.loc, Entry.loc, hpool, hname, hsocket]⟩
    exact (Prod.mk.inj (Prod.mk.inj (h.stays he hhome)).2).2
  · have hocc : e ∈ old.occupied := Cmk.mem_occupied.mpr ⟨he, List.ne_nil_of_mem hpid⟩
    exact h.follows.keys _ (h.guest_mem hocc) pid hpid

end Seated

/-- **When the loops return, everybody is seated.** -/
theorem seated_of_matching (hempty : ∀ e ∈ new.entries, e.tasks = [])
    (hu : UniqueNames new.entries) (hinfos : infos.Perm (procInfo old)) {new' : Conf String τ}
    {procs' : Procs τ} (h : matching new infos (procsOf infos) = .ok (new', procs')) :
    ∃ st, Seated old new infos (seatingOf new infos).1 st ∧ st.conf = new' ∧ st.procs = procs' := by
  obtain ⟨hnil, st, hst, hconf, hprocs⟩ := matching_ok hu hempty (pid_ne_nil hinfos) h
  have hall : ((seatingOf new infos).1.map Prod.fst ++ (seatingOf new infos).2).Perm infos :=
    perm_seating infos
  rw [hnil, List.append_nil] at hall
  exact ⟨st, ⟨hinfos, hst, valid_seating (nodup_homes hinfos) fun _ _ => rfl, hall, hempty⟩,
    hconf, hprocs⟩

/-- **Reconfiguring keeps every task.**  For any two configurations of one platform, and in whatever
order the occupied lists are enumerated: if the matching loops return, every group of pids is on one
list of its pool in the new configuration. -/
theorem reconfigure_keeps (old new : Conf String τ) (hempty : ∀ e ∈ new.entries, e.tasks = [])
    (hu : UniqueNames new.entries) (hplaces : SamePlaces old new) (infos : List (ProcessInfo τ))
    (hinfos : infos.Perm (procInfo old)) (new' : Conf String τ) (procs' : Procs τ)
    (h : matching new infos (procsOf infos) = .ok (new', procs')) : Keeps old new new' procs' := by
  obtain ⟨st, hst, rfl, rfl⟩ := seated_of_matching hempty hu hinfos h
  exact hst.keeps hplaces

/-- A configuration with one exclusive pool on socket 0. -/
def exclusivePool (clists : List (CoreList String String)) : Conf String String :=
  ⟨.ofList _ [⟨true, "exclusive", .ofList _ [⟨.int 0, .ofList _ clists⟩]⟩]⟩

/-- Three lists, the last two occupied, one pid in both. -/
def oldLists : Conf String String := exclusivePool [⟨"0", []⟩, ⟨"1,5", ["7"]⟩, ⟨"2", ["7", "9"]⟩]

def newLists : Conf String String := exclusivePool [⟨"2", []⟩, ⟨"3", []⟩]

theorem reconfigure_keeps_oldLists : ∃ new' procs', Keeps oldLists newLists new' procs' := by
  have hret : (matching newLists (procInfo oldLists)
    (procsOf (procInfo oldLists))).toOption.isSome := by decide
  cases h : matching newLists (procInfo oldLists) (procsOf (procInfo oldLists)) with
  | error err =>
    rw [h] at hret
    nomatch hret
  | ok result =>
    exact ⟨_, _, reconfigure_keeps oldLists newLists (by decide) (by decide)
      (by unfold SamePlaces; decide) _ (.refl _) _ _ h⟩

end Cmk
