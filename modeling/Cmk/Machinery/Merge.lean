import Cmk.Machinery.JsonText

/-!
# Machinery/Merge — merging JSON trees

What a merge of two trees does as far as its callers rely on it (`DataMerge`): objects merge member
by member, a list is extended by the other, a scalar is replaced.  So a member of the merged object
comes from the first, from the second, or from both merged (`member?_mergeMembers`).  To merge once
more changes nothing where there is no list to extend by (`merge_of_carries`), and extends every
list there is once more (`get?_merge_arr`).  `dataMerge` is such a merge.
-/

namespace Machinery

namespace JsonValue

variable {merge : JsonValue → JsonValue → Option JsonValue} {key : String}
  {a b c : List (String × JsonValue)}

/-- Merge a member into those of an object. -/
def mergeMember (merge : JsonValue → JsonValue → Option JsonValue)
    (a : List (String × JsonValue)) (m : String × JsonValue) : Option (List (String × JsonValue)) :=
  (((obj a).member? m.1).elim (some m.2) fun old => merge old m.2).map fun new =>
    setMember m.1 new a

/-- Merge the members one after the other. -/
def mergeMembers (merge : JsonValue → JsonValue → Option JsonValue)
    (a b : List (String × JsonValue)) : Option (List (String × JsonValue)) :=
  b.foldlM (mergeMember merge) a

def isScalar : JsonValue → Bool
  | arr _ => false
  | obj _ => false
  | _ => true

/-- **What is relied on of a merge.** -/
structure DataMerge (merge : JsonValue → JsonValue → Option JsonValue) : Prop where
  obj : ∀ a b, merge (.obj a) (.obj b) = (mergeMembers merge a b).map .obj
  arr : ∀ xs ys, merge (.arr xs) (.arr ys) = some (.arr (xs ++ ys))
  scalar : ∀ x y, x.isScalar = true → merge x y = some y

/-! ## Members -/

theorem mergeMember_some {m : String × JsonValue} (h : mergeMember merge a m = some c) :
    (obj c).member? m.1 = ((obj a).member? m.1).elim (some m.2) (fun old => merge old m.2) ∧
      ∀ key ≠ m.1, (obj c).member? key = (obj a).member? key := by
  obtain ⟨new, hnew, rfl⟩ := Option.map_eq_some_iff.mp h
  rw [hnew]
  exact ⟨member?_setMember_self _ _ _, fun key hne => member?_setMember_of_ne (Ne.symm hne)⟩

/-- A member that the second object does not have is that of the first. -/
theorem member?_mergeMembers_of_notMem (h : mergeMembers merge a b = some c)
    (hkey : key ∉ b.map Prod.fst) : (obj c).member? key = (obj a).member? key := by
  induction b generalizing a with
  | nil => rw [Option.some.inj h]
  | cons m b ih =>
    rw [List.map_cons, List.mem_cons, not_or] at hkey
    rw [mergeMembers, List.foldlM_cons] at h
    obtain ⟨a', hstep, hrest⟩ := Option.bind_eq_some_iff.mp h
    rw [ih hrest hkey.2, (mergeMember_some hstep).2 key hkey.1]

/-- **A member that the second object has** is merged into that of the first, if there is one. -/
theorem member?_mergeMembers (h : mergeMembers merge a b = some c) (hnodup : (b.map Prod.fst).Nodup)
    {v : JsonValue} (hv : (obj b).member? key = some v) :
    (obj c).member? key = ((obj a).member? key).elim (some v) fun old => merge old v := by
  induction b generalizing a with
  | nil => cases hv
  | cons m b ih =>
    rw [List.map_cons, List.nodup_cons] at hnodup
    rw [mergeMembers, List.foldlM_cons] at h
    obtain ⟨a', hstep, hrest⟩ := Option.bind_eq_some_iff.mp h
    obtain ⟨hself, hother⟩ := mergeMember_some hstep
    by_cases hkey : m.1 = key
    · subst hkey
      have hval : m.2 = v := by simpa [member?] using hv
      rw [member?_mergeMembers_of_notMem hrest hnodup.1, hself, hval]
    · rw [member?, List.find?_cons_of_neg (by simpa using hkey)] at hv
      rw [ih hrest hnodup.2 hv, hother key (Ne.symm hkey)]

/-- A member is not lost. -/
theorem isSome_mergeMembers (h : mergeMembers merge a b = some c)
    (hkey : ((obj a).member? key).isSome) : ((obj c).member? key).isSome := by
  induction b generalizing a with
  | nil => rwa [← Option.some.inj h]
  | cons m b ih =>
    rw [mergeMembers, List.foldlM_cons] at h
    obtain ⟨a', hstep, hrest⟩ := Option.bind_eq_some_iff.mp h
    obtain ⟨new, -, rfl⟩ := Option.map_eq_some_iff.mp hstep
    refine ih hrest ?_
    by_cases hm : m.1 = key
    · rw [hm, member?_setMember_self]
      rfl
    · rwa [member?_setMember_of_ne hm]

theorem notMem_of_member?_none (h : (obj b).member? key = none) : key ∉ b.map Prod.fst := by
  intro hmem
  have hsome := (isSome_member? key b).mpr hmem
  rw [h] at hsome
  cases hsome

/-! ## Merging once more -/

/-- No object has a key twice. -/
inductive Keyed : JsonValue → Prop
  | scalar {x : JsonValue} (hx : x.isScalar = true) : Keyed x
  | arr (xs : List JsonValue) : Keyed (.arr xs)
  | obj {b : List (String × JsonValue)} (hnodup : (b.map Prod.fst).Nodup)
      (hmembers : ∀ m ∈ b, Keyed m.2) : Keyed (.obj b)

/-- There is a list with items, at the end of a path of members. -/
inductive HasItems : JsonValue → Prop
  | arr {xs : List JsonValue} (hxs : xs ≠ []) : HasItems (.arr xs)
  | obj {b : List (String × JsonValue)} {m : String × JsonValue} (hm : m ∈ b)
      (h : HasItems m.2) : HasItems (.obj b)

/-- What is merged is of the kind of what is there. -/
inductive SameKind : JsonValue → JsonValue → Prop
  | scalar {x : JsonValue} (hx : x.isScalar = true) (y : JsonValue) : SameKind x y
  | arr (xs ys : List JsonValue) : SameKind (.arr xs) (.arr ys)
  | obj {a b : List (String × JsonValue)} (hmembers : ∀ m ∈ b, ∀ old,
      (JsonValue.obj a).member? m.1 = some old → SameKind old m.2) : SameKind (.obj a) (.obj b)

/-- What was merged is there, whatever the lists have. -/
inductive Carries : JsonValue → JsonValue → Prop
  | scalar {x : JsonValue} (hx : x.isScalar = true) : Carries x x
  | arr (xs ys : List JsonValue) : Carries (.arr xs) (.arr ys)
  | obj {a b : List (String × JsonValue)}
      (hthere : ∀ m ∈ b, ((JsonValue.obj a).member? m.1).isSome)
      (hmembers : ∀ m ∈ b, ∀ old, (JsonValue.obj a).member? m.1 = some old → Carries old m.2) :
      Carries (.obj a) (.obj b)

variable {v x y : JsonValue} {m : String × JsonValue}

theorem member?_of_mem (hnodup : (b.map Prod.fst).Nodup) (hm : m ∈ b) :
    (obj b).member? m.1 = some m.2 := by
  obtain ⟨v, hv⟩ := Option.isSome_iff_exists.mp
    ((isSome_member? m.1 b).mpr (List.mem_map_of_mem hm))
  obtain ⟨m', hfound, rfl⟩ := Option.map_eq_some_iff.mp hv
  have hkey : m'.1 = m.1 := by simpa using List.find?_some hfound
  rw [hv, List.inj_on_of_nodup_map hnodup (List.mem_of_find?_eq_some hfound) hm hkey]

theorem exists_of_member? (h : (obj b).member? key = some v) : ∃ m ∈ b, m.1 = key ∧ m.2 = v := by
  obtain ⟨m, hfound, rfl⟩ := Option.map_eq_some_iff.mp h
  exact ⟨m, List.mem_of_find?_eq_some hfound, by simpa using List.find?_some hfound, rfl⟩

theorem setMember_self (h : (obj a).member? key = some v) : setMember key v a = a := by
  induction a with
  | nil => cases h
  | cons m a ih =>
    rw [setMember]
    split_ifs with hkey
    · have hval : m.2 = v := by simpa [member?, hkey] using h
      rw [← hkey, ← hval]
    · rw [member?, List.find?_cons_of_neg (by simpa using hkey)] at h
      rw [ih h]

/-- Members merge where each does on its own. -/
theorem exists_mergeMembers (hnodup : (b.map Prod.fst).Nodup)
    (h : ∀ m ∈ b, ∀ old, (obj a).member? m.1 = some old → ∃ new, merge old m.2 = some new) :
    ∃ c, mergeMembers merge a b = some c := by
  induction b generalizing a with
  | nil => exact ⟨a, rfl⟩
  | cons m b ih =>
    obtain ⟨hm, hrest⟩ := List.forall_mem_cons.mp h
    rw [List.map_cons, List.nodup_cons] at hnodup
    have hstep : ∃ a', mergeMember merge a m = some a' := by
      rw [mergeMember]
      cases hold : (obj a).member? m.1 with
      | none => exact ⟨_, rfl⟩
      | some old =>
        obtain ⟨new, hnew⟩ := hm old hold
        exact ⟨setMember m.1 new a, by rw [Option.elim_some, hnew, Option.map_some]⟩
    obtain ⟨a', hstep⟩ := hstep
    have hnext : ∀ m' ∈ b, ∀ old, (obj a').member? m'.1 = some old →
        ∃ new, merge old m'.2 = some new := fun m' hm' old hold => by
      have hne : m'.1 ≠ m.1 := fun heq => hnodup.1 (heq ▸ List.mem_map_of_mem hm')
      exact hrest m' hm' old ((mergeMember_some hstep).2 _ hne ▸ hold)
    obtain ⟨c, hc⟩ := ih hnodup.2 hnext
    exact ⟨c, by rw [mergeMembers, List.foldlM_cons, hstep]; exact hc⟩

theorem Carries.sameKind (h : Carries y v) : SameKind y v := by
  induction h with
  | scalar hx => exact .scalar hx _
  | arr xs ys => exact .arr xs ys
  | obj _ _ ih => exact .obj ih

theorem carries_self (hv : Keyed v) : Carries v v := by
  induction hv with
  | scalar hx => exact .scalar hx
  | arr xs => exact .arr xs xs
  | obj hnodup _ ih =>
    refine .obj (fun m hm => ?_) fun m hm old hold => ?_
    · rw [member?_of_mem hnodup hm]
      rfl
    · rw [member?_of_mem hnodup hm] at hold
      exact Option.some.inj hold ▸ ih m hm

/-- What was merged stays there when a member is replaced by one that has its part. -/
theorem Carries.setMember {key : String} {value : JsonValue} (h : Carries (.obj a) (.obj b))
    (hvalue : ∀ m ∈ b, m.1 = key → Carries value m.2) :
    Carries (.obj (setMember key value a)) (.obj b) := by
  cases h with
  | scalar hx => cases hx
  | obj hthere hmembers =>
    refine .obj (fun m hm => ?_) fun m hm old hold => ?_
    · by_cases hkey : m.1 = key
      · rw [hkey, member?_setMember_self]
        rfl
      · rw [member?_setMember_of_ne (Ne.symm hkey)]
        exact hthere m hm
    · by_cases hkey : m.1 = key
      · rw [hkey, member?_setMember_self] at hold
        exact Option.some.inj hold ▸ hvalue m hm hkey
      · rw [member?_setMember_of_ne (Ne.symm hkey)] at hold
        exact hmembers m hm old hold

/-- **Where the kinds agree, a merge succeeds**, and what was merged is there. -/
theorem merge_of_sameKind (hmerge : DataMerge merge) (hv : Keyed v) (h : SameKind x v) :
    ∃ y, merge x v = some y ∧ Carries y v := by
  induction hv generalizing x with
  | scalar hx =>
    cases h with
    | scalar hscalar => exact ⟨_, hmerge.scalar _ _ hscalar, .scalar hx⟩
    | arr => cases hx
    | obj => cases hx
  | arr ys =>
    cases h with
    | scalar hscalar => exact ⟨_, hmerge.scalar _ _ hscalar, .arr ys ys⟩
    | arr xs => exact ⟨_, hmerge.arr xs ys, .arr _ ys⟩
  | @obj b hnodup hmembers ih =>
    cases h with
    | scalar hscalar => exact ⟨_, hmerge.scalar _ _ hscalar, carries_self (.obj hnodup hmembers)⟩
    | @obj a _ hkind =>
      have hmerges : ∀ m ∈ b, ∀ old, (JsonValue.obj a).member? m.1 = some old →
          ∃ new, merge old m.2 = some new ∧ Carries new m.2 :=
        fun m hm old hold => ih m hm (hkind m hm old hold)
      obtain ⟨c, hc⟩ := @exists_mergeMembers merge a b hnodup fun m hm old hold =>
        (hmerges m hm old hold).imp fun _ h => h.1
      refine ⟨.obj c, by rw [hmerge.obj, hc, Option.map_some], ?_⟩
      have hmember : ∀ m ∈ b, ∃ new, (JsonValue.obj c).member? m.1 = some new ∧
          Carries new m.2 := by
        intro m hm
        rw [member?_mergeMembers hc hnodup (member?_of_mem hnodup hm)]
        cases hold : (JsonValue.obj a).member? m.1 with
        | none => exact ⟨m.2, rfl, carries_self (hmembers m hm)⟩
        | some old => exact hmerges m hm old hold
      refine .obj (fun m hm => ?_) fun m hm new hnew => ?_
      · obtain ⟨new, hnew, -⟩ := hmember m hm
        rw [hnew]
        rfl
      · obtain ⟨new', hnew', hcarries⟩ := hmember m hm
        exact Option.some.inj (hnew'.symm.trans hnew) ▸ hcarries

/-- Members that stay as they are when merged leave the object as it is. -/
theorem mergeMembers_self (h : ∀ m ∈ b, ∃ old, (obj a).member? m.1 = some old ∧
    merge old m.2 = some old) : mergeMembers merge a b = some a := by
  induction b with
  | nil => rfl
  | cons m b ih =>
    obtain ⟨⟨old, hold, hm⟩, hrest⟩ := List.forall_mem_cons.mp h
    rw [mergeMembers, List.foldlM_cons, mergeMember, hold, Option.elim_some, hm,
      Option.map_some, setMember_self hold]
    exact ih hrest

/-- **To merge once more changes nothing** where there is no list to extend by. -/
theorem merge_of_carries (hmerge : DataMerge merge) (hv : Keyed v) (hy : Carries y v)
    (hno : ¬ HasItems v) : merge y v = some y := by
  induction hv generalizing y with
  | scalar hx =>
    cases hy with
    | scalar => exact hmerge.scalar _ _ hx
    | arr => cases hx
    | obj => cases hx
  | arr ys =>
    obtain rfl : ys = [] := by
      by_contra hne
      exact hno (.arr hne)
    cases hy with
    | scalar hx => cases hx
    | arr xs =>
      rw [hmerge.arr]
      simp
  | @obj b hnodup hmembers ih =>
    cases hy with
    | scalar hx => cases hx
    | @obj a _ hthere hcarries =>
      have hsame : ∀ m ∈ b, ∃ old, (JsonValue.obj a).member? m.1 = some old ∧
          merge old m.2 = some old := fun m hm => by
        obtain ⟨old, hold⟩ := Option.isSome_iff_exists.mp (hthere m hm)
        exact ⟨old, hold, ih m hm (hcarries m hm old hold) fun h => hno (.obj hm h)⟩
      rw [hmerge.obj, mergeMembers_self hsame, Option.map_some]

/-- The items of the list at a path, if there is one. -/
def listAt (path : List String) (x : JsonValue) : List JsonValue :=
  match x.get? path with
  | some (arr xs) => xs
  | _ => []

theorem get?_of_isScalar (hx : x.isScalar = true) (key : String) (path : List String) :
    x.get? (key :: path) = none := by
  cases x <;> first | rfl | cases hx

/-- A member of a merged object is the one that is merged in, or what the merge makes of the old. -/
theorem member?_merge (hmerge : DataMerge merge) {v : JsonValue}
    (h : merge (obj a) (obj b) = some y) (hnodup : (b.map Prod.fst).Nodup)
    (hv : (obj b).member? key = some v) : ∃ new, y.member? key = some new ∧
      ((obj a).member? key = none ∧ new = v ∨
        ∃ old, (obj a).member? key = some old ∧ merge old v = some new) := by
  rw [hmerge.obj] at h
  obtain ⟨c, hc, rfl⟩ := Option.map_eq_some_iff.mp h
  have hmember := member?_mergeMembers hc hnodup hv
  cases hold : (obj a).member? key with
  | none =>
    rw [hold, Option.elim_none] at hmember
    exact ⟨v, hmember, .inl ⟨rfl, rfl⟩⟩
  | some old =>
    obtain ⟨new, hnew⟩ := Option.isSome_iff_exists.mp
      (isSome_mergeMembers hc (by rw [hold]; rfl))
    rw [hold, Option.elim_some, hnew] at hmember
    exact ⟨new, hnew, .inr ⟨old, rfl, hmember.symm⟩⟩

/-- **A list is extended** by the one at its path. -/
theorem get?_merge_arr (hmerge : DataMerge merge) (hv : Keyed v) (hkind : SameKind x v)
    (h : merge x v = some y) {path : List String} {ys : List JsonValue}
    (hget : v.get? path = some (.arr ys)) :
    y.get? path = some (.arr (listAt path x ++ ys)) := by
  induction path generalizing x y v with
  | nil =>
    obtain rfl := Option.some.inj hget
    cases hkind with
    | scalar hx =>
      rw [hmerge.scalar _ _ hx] at h
      obtain rfl := Option.some.inj h
      cases x <;> first | rfl | cases hx
    | arr xs =>
      rw [hmerge.arr] at h
      obtain rfl := Option.some.inj h
      rfl
  | cons key path ih =>
    cases hkind with
    | scalar hx =>
      rw [hmerge.scalar _ _ hx] at h
      obtain rfl := Option.some.inj h
      rw [hget, listAt, get?_of_isScalar hx]
      rfl
    | arr => cases hget
    | @obj a b hmembers =>
      obtain ⟨w, hw, hget⟩ := Option.bind_eq_some_iff.mp hget
      obtain ⟨hnodup, hkeyed⟩ : (b.map Prod.fst).Nodup ∧ ∀ m ∈ b, Keyed m.2 := by
        cases hv with
        | scalar hx => cases hx
        | obj hnodup hkeyed => exact ⟨hnodup, hkeyed⟩
      obtain ⟨m, hm, rfl, rfl⟩ := exists_of_member? hw
      obtain ⟨new, hmember, ⟨hold, rfl⟩ | ⟨old, hold, hnew⟩⟩ := member?_merge hmerge h hnodup hw
      · rw [get?, hmember, listAt, get?, hold, Option.bind_some, hget, Option.bind_none]
        rfl
      · rw [get?, hmember, listAt, get?, hold, Option.bind_some, Option.bind_some]
        exact ih (hkeyed m hm) (hmembers m hm old hold) hnew hget

/-- **A scalar is replaced** by what is merged in at its path, if there is anything. -/
theorem get?_merge_scalar (hmerge : DataMerge merge) (hv : Keyed v) (hkind : SameKind x v)
    (h : merge x v = some y) {path : List String} {old : JsonValue} (hold : x.get? path = some old)
    (hscalar : old.isScalar = true) : y.get? path = some ((v.get? path).getD old) := by
  induction path generalizing x y v with
  | nil =>
    obtain rfl := Option.some.inj hold
    rw [hmerge.scalar _ _ hscalar] at h
    exact h.symm
  | cons key path ih =>
    obtain ⟨inner, hinner, hinnerOld⟩ := Option.bind_eq_some_iff.mp hold
    cases hkind with
    | scalar hx => cases x <;> first | cases hinner | cases hx
    | arr => cases hinner
    | @obj a b hmembers =>
      cases hw : (obj b).member? key with
      | none =>
        obtain ⟨c, hc, rfl⟩ := Option.map_eq_some_iff.mp ((hmerge.obj a b).symm.trans h)
        rw [get?, member?_mergeMembers_of_notMem hc (notMem_of_member?_none hw), hinner, get?, hw]
        exact hinnerOld
      | some w =>
        obtain ⟨hnodup, hkeyed⟩ : (b.map Prod.fst).Nodup ∧ ∀ m ∈ b, Keyed m.2 := by
          cases hv with
          | scalar hx => cases hx
          | obj hnodup hkeyed => exact ⟨hnodup, hkeyed⟩
        obtain ⟨m, hm, rfl, rfl⟩ := exists_of_member? hw
        obtain ⟨new, hmember, ⟨hnone, -⟩ | ⟨old', hold', hnew⟩⟩ :=
          member?_merge hmerge h hnodup hw
        · rw [hinner] at hnone
          cases hnone
        · obtain rfl := Option.some.inj (hinner.symm.trans hold')
          rw [get?, hmember, get?, hw]
          exact ih (hkeyed m hm) (hmembers m hm inner hinner) hnew hinnerOld

/-- A list with items is at some path. -/
theorem HasItems.exists_path (hv : Keyed v) (h : HasItems v) :
    ∃ path ys, v.get? path = some (.arr ys) ∧ ys ≠ [] := by
  induction h with
  | arr hxs => exact ⟨[], _, rfl, hxs⟩
  | @obj b m hm _ ih =>
    cases hv with
    | scalar hx => cases hx
    | obj hnodup hkeyed =>
      obtain ⟨path, ys, hget, hys⟩ := ih (hkeyed m hm)
      exact ⟨m.1 :: path, ys, by rw [get?, member?_of_mem hnodup hm]; exact hget, hys⟩

/-! ## Unique keys -/

theorem uniqueKeys_mergeMembers (ha : (obj a).UniqueKeys) (hnodup : (b.map Prod.fst).Nodup)
    (hnew : ∀ m ∈ b, ∀ new, ((obj a).member? m.1).elim (some m.2) (fun old => merge old m.2) =
      some new → new.UniqueKeys) (h : mergeMembers merge a b = some c) : (obj c).UniqueKeys := by
  induction b generalizing a with
  | nil => rwa [← Option.some.inj h]
  | cons m b ih =>
    obtain ⟨hm, hrest⟩ := List.forall_mem_cons.mp hnew
    rw [List.map_cons, List.nodup_cons] at hnodup
    rw [mergeMembers, List.foldlM_cons] at h
    obtain ⟨a', hstep, h⟩ := Option.bind_eq_some_iff.mp h
    have hother := (mergeMember_some hstep).2
    obtain ⟨new, hvalue, rfl⟩ := Option.map_eq_some_iff.mp hstep
    refine ih (ha.setMember (hm new hvalue)) hnodup.2 (fun m' hm' new' hnew' => ?_) h
    have hne : m'.1 ≠ m.1 := fun heq => hnodup.1 (heq ▸ List.mem_map_of_mem hm')
    exact hrest m' hm' new' (by rwa [hother m'.1 hne] at hnew')

/-- **A merge keeps keys unique.** -/
theorem uniqueKeys_merge (hmerge : DataMerge merge) (hv : Keyed v) (hkind : SameKind x v)
    (hx : x.UniqueKeys) (hunique : v.UniqueKeys) (h : merge x v = some y) : y.UniqueKeys := by
  induction hv generalizing x y with
  | scalar hscalar =>
    cases hkind with
    | scalar hx' =>
      rw [hmerge.scalar _ _ hx'] at h
      exact Option.some.inj h ▸ hunique
    | arr => cases hscalar
    | obj => cases hscalar
  | arr ys =>
    cases hkind with
    | scalar hx' =>
      rw [hmerge.scalar _ _ hx'] at h
      exact Option.some.inj h ▸ hunique
    | arr xs =>
      rw [hmerge.arr] at h
      refine Option.some.inj h ▸ uniqueKeys_arr.mpr (List.forall_mem_append.mpr ?_)
      exact ⟨uniqueKeys_arr.mp hx, uniqueKeys_arr.mp hunique⟩
  | @obj b hnodup hmembers ih =>
    cases hkind with
    | scalar hx' =>
      rw [hmerge.scalar _ _ hx'] at h
      exact Option.some.inj h ▸ hunique
    | @obj a _ hkinds =>
      rw [hmerge.obj] at h
      obtain ⟨c, hc, rfl⟩ := Option.map_eq_some_iff.mp h
      have hvalues := (uniqueKeys_obj.mp hunique).2
      refine uniqueKeys_mergeMembers hx hnodup (fun m hm new hnew => ?_) hc
      cases hold : (JsonValue.obj a).member? m.1 with
      | none =>
        rw [hold] at hnew
        exact Option.some.inj hnew ▸ hvalues m hm
      | some old =>
        rw [hold] at hnew
        exact ih m hm (hkinds m hm old hold) (hx.member? hold) (hvalues m hm) hnew

/-- A merge adds no key where there are all. -/
theorem map_fst_mergeMembers (h : mergeMembers merge a b = some c)
    (hthere : ∀ m ∈ b, m.1 ∈ a.map Prod.fst) : c.map Prod.fst = a.map Prod.fst := by
  induction b generalizing a with
  | nil => rw [Option.some.inj h]
  | cons m b ih =>
    obtain ⟨hm, hrest⟩ := List.forall_mem_cons.mp hthere
    rw [mergeMembers, List.foldlM_cons] at h
    obtain ⟨a', hstep, h⟩ := Option.bind_eq_some_iff.mp h
    obtain ⟨new, -, rfl⟩ := Option.map_eq_some_iff.mp hstep
    have hkeys : (setMember m.1 new a).map Prod.fst = a.map Prod.fst := by
      rw [map_fst_setMember, if_pos hm]
    rw [ih h (hkeys.symm ▸ hrest), hkeys]

/-! ## A merge -/

mutual

/-- Merge the second value into the first. -/
def dataMergeInto : JsonValue → JsonValue → Option JsonValue
  | obj b, x =>
    match x with
    | obj a => (dataMergeMembers b a).map obj
    | arr xs => some (arr (xs ++ [obj b]))
    | _ => some (obj b)
  | arr ys, x =>
    match x with
    | obj _ => none
    | arr xs => some (arr (xs ++ ys))
    | _ => some (arr ys)
  | y, x =>
    match x with
    | obj _ => none
    | arr xs => some (arr (xs ++ [y]))
    | _ => some y

def dataMergeMembers : List (String × JsonValue) → List (String × JsonValue) →
    Option (List (String × JsonValue))
  | [], a => some a
  | (key, v) :: b, a =>
    (((obj a).member? key).elim (some v) fun old => dataMergeInto v old).bind fun new =>
      dataMergeMembers b (setMember key new a)

end

def dataMerge (x y : JsonValue) : Option JsonValue := dataMergeInto y x

theorem dataMergeMembers_eq (b a : List (String × JsonValue)) :
    dataMergeMembers b a = mergeMembers dataMerge a b := by
  induction b generalizing a with
  | nil =>
    rw [dataMergeMembers]
    rfl
  | cons m b ih =>
    rw [dataMergeMembers, mergeMembers, List.foldlM_cons, mergeMember]
    simp only [Option.bind_eq_bind, Option.bind_map, Function.comp_def, ih]
    rfl

/-- **`dataMerge` is such a merge.** -/
theorem dataMerge_spec : DataMerge dataMerge := by
  refine ⟨fun a b => ?_, fun xs ys => ?_, fun x y hx => ?_⟩
  · rw [dataMerge, dataMergeInto, dataMergeMembers_eq]
  · rw [dataMerge, dataMergeInto]
  · rw [dataMerge]
    cases x with
    | arr xs => cases hx
    | obj a => cases hx
    | _ => cases y <;> rw [dataMergeInto] <;> intro _ heq <;> cases heq

end JsonValue

end Machinery
