import Mathlib.Data.List.Nodup
import Mathlib.Data.List.Perm.Basic
import Mathlib.Tactic

/-!
# Machinery/Table — insertion-ordered dictionaries

A dictionary whose iteration order is the order its keys were first written, as a list of records
each of which carries its own key.  The `nodup` field is the only invariant a dictionary has, so a
`Table` cannot hold two records under one key.  `Dict` is the case where record and key are a pair.
-/

namespace Machinery

/-- An insertion-ordered dictionary of the records `ν`, filed under `key`. -/
@[ext]
structure Table {κ ν : Type} (key : ν → κ) where
  rows : List ν
  nodup : (rows.map key).Nodup

/-- A dictionary of plain key/value pairs. -/
abbrev Dict (κ ν : Type) := Table (Prod.fst : κ × ν → κ)

namespace Table

variable {κ ν : Type} {key : ν → κ}

instance [DecidableEq ν] : DecidableEq (Table key) := fun a b =>
  decidable_of_iff (a.rows = b.rows) Table.ext_iff.symm

/-- The empty dictionary. -/
def empty : Table key := ⟨[], List.nodup_nil⟩

instance : Inhabited (Table key) := ⟨empty⟩

/-- The keys, in insertion order. -/
def keys (t : Table key) : List κ := t.rows.map key

@[simp] theorem rows_empty : (empty : Table key).rows = [] := rfl

@[simp] theorem keys_empty : (empty : Table key).keys = [] := rfl

theorem nodup_rows (t : Table key) : t.rows.Nodup := t.nodup.of_map

theorem mem_keys {t : Table key} {k : κ} : k ∈ t.keys ↔ ∃ v ∈ t.rows, key v = k := List.mem_map

theorem key_mem_keys {t : Table key} {v : ν} (h : v ∈ t.rows) : key v ∈ t.keys :=
  List.mem_map_of_mem h

/-- **One record per key.** -/
theorem eq_of_key_eq {t : Table key} {v w : ν} (hv : v ∈ t.rows) (hw : w ∈ t.rows)
    (h : key v = key w) : v = w :=
  List.inj_on_of_nodup_map t.nodup hv hw h

/-- Over a list without repetition, an element alone in having a result gives it all. -/
theorem flatMap_of_nodup {α β : Type} {xs : List α} (hxs : xs.Nodup) {x : α} (hx : x ∈ xs)
    {f : α → List β} (hf : ∀ y ∈ xs, y ≠ x → f y = []) : xs.flatMap f = f x := by
  obtain ⟨before, after, rfl⟩ := List.append_of_mem hx
  rw [List.nodup_append, List.nodup_cons] at hxs
  have hbefore : before.flatMap f = [] := List.flatMap_eq_nil_iff.mpr fun y hy =>
    hf y (List.mem_append_left _ hy) (hxs.2.2 y hy x List.mem_cons_self)
  have hafter : after.flatMap f = [] := List.flatMap_eq_nil_iff.mpr fun y hy =>
    hf y (List.mem_append_right _ (List.mem_cons_of_mem _ hy)) fun h => hxs.2.1.1 (h ▸ hy)
  rw [List.flatMap_append, List.flatMap_cons, hbefore, hafter, List.nil_append, List.append_nil]

/-- **A loop over the records that skips all keys but one** is the round for that key. -/
theorem flatMap_of_key {β : Type} {t : Table key} {v : ν} (hv : v ∈ t.rows) {f : ν → List β}
    (hf : ∀ w ∈ t.rows, key w ≠ key v → f w = []) : t.rows.flatMap f = f v :=
  flatMap_of_nodup t.nodup_rows hv fun w hw hne => hf w hw fun h => hne (eq_of_key_eq hw hv h)

/-- The records rewritten one by one under the keys they have. -/
def map {μ : Type} {key' : μ → κ} (t : Table key) (g : ν → μ) (hg : ∀ v, key' (g v) = key v) :
    Table key' where
  rows := t.rows.map g
  nodup := by
    rw [List.map_map, show key' ∘ g = key from funext hg]
    exact t.nodup

@[simp] theorem rows_map {μ : Type} {key' : μ → κ} (t : Table key) (g : ν → μ)
    (hg : ∀ v, key' (g v) = key v) : (t.map g hg).rows = t.rows.map g := rfl

@[simp] theorem keys_map {μ : Type} {key' : μ → κ} (t : Table key) (g : ν → μ)
    (hg : ∀ v, key' (g v) = key v) : (t.map g hg).keys = t.keys := by
  rw [keys, rows_map, List.map_map, show key' ∘ g = key from funext hg, keys]

/-- Rewriting every record there and back changes nothing. -/
theorem map_map_cancel {μ : Type} {key' : μ → κ} (t : Table key) {g : ν → μ} {g' : μ → ν}
    (hg : ∀ v, key' (g v) = key v) (hg' : ∀ w, key (g' w) = key' w)
    (h : ∀ v ∈ t.rows, g' (g v) = v) : (t.map g hg).map g' hg' = t := by
  refine Table.ext ?_
  rw [rows_map, rows_map, List.map_map]
  exact (List.map_congr_left h).trans (List.map_id _)

variable [DecidableEq κ]

/-- The record filed under a key. -/
def get? (t : Table key) (k : κ) : Option ν := t.rows.find? fun v => key v = k

theorem get?_eq_some {t : Table key} {k : κ} {v : ν} :
    t.get? k = some v ↔ v ∈ t.rows ∧ key v = k := by
  constructor
  · intro h
    exact ⟨List.mem_of_find?_eq_some h, by simpa using List.find?_some h⟩
  · rintro ⟨hv, rfl⟩
    cases hf : t.get? (key v) with
    | none =>
      have := List.find?_eq_none.mp hf v hv
      simp at this
    | some w =>
      have hw : key w = key v := by simpa using List.find?_some hf
      rw [t.eq_of_key_eq (List.mem_of_find?_eq_some hf) hv hw]

theorem get?_eq_none {t : Table key} {k : κ} : t.get? k = none ↔ k ∉ t.keys := by
  simp [get?, keys, List.find?_eq_none]

theorem get?_key {t : Table key} {v : ν} (h : v ∈ t.rows) : t.get? (key v) = some v :=
  get?_eq_some.mpr ⟨h, rfl⟩

theorem isSome_get? {t : Table key} {k : κ} : (t.get? k).isSome ↔ k ∈ t.keys := by
  rw [Option.isSome_iff_ne_none, ne_eq, get?_eq_none, not_not]

/-! ## Writing to an existing record -/

/-- Rewrite the record under a key in place; the key itself may not change. -/
def modify (t : Table key) (k : κ) (f : ν → ν) (hf : ∀ v, key (f v) = key v) : Table key where
  rows := t.rows.map fun v => if key v = k then f v else v
  nodup := by
    have h : (key ∘ fun v => if key v = k then f v else v) = key := by
      funext v
      by_cases hv : key v = k <;> simp [hv, hf]
    rw [List.map_map, h]
    exact t.nodup

variable {t : Table key} {k : κ} {f : ν → ν} {hf : ∀ v, key (f v) = key v}

theorem rows_modify :
    (t.modify k f hf).rows = t.rows.map fun v => if key v = k then f v else v := rfl

@[simp] theorem keys_modify : (t.modify k f hf).keys = t.keys := by
  simp only [keys, modify, List.map_map]
  refine List.map_congr_left fun v _ => ?_
  by_cases hv : key v = k <;> simp [hv, hf]

theorem mem_rows_modify {v : ν} :
    v ∈ (t.modify k f hf).rows ↔
      (v ∈ t.rows ∧ key v ≠ k) ∨ ∃ w ∈ t.rows, key w = k ∧ v = f w := by
  rw [rows_modify, List.mem_map]
  constructor
  · rintro ⟨w, hw, rfl⟩
    by_cases hk : key w = k
    · exact Or.inr ⟨w, hw, hk, by simp [hk]⟩
    · exact Or.inl ⟨by simpa [hk] using hw, by simp [hk]⟩
  · rintro (⟨hv, hk⟩ | ⟨w, hw, hk, rfl⟩)
    · exact ⟨v, hv, by simp [hk]⟩
    · exact ⟨w, hw, by simp [hk]⟩

/-! ## Filing a record -/

/-- File a record under its key: in place when the key is there, at the end otherwise. -/
def insert (t : Table key) (v : ν) : Table key :=
  if h : key v ∈ t.keys then
    { rows := t.rows.map fun w => if key w = key v then v else w
      nodup := by
        have h : (key ∘ fun w => if key w = key v then v else w) = key := by
          funext w
          by_cases hw : key w = key v <;> simp [hw]
        rw [List.map_map, h]
        exact t.nodup }
  else
    { rows := t.rows ++ [v]
      nodup := by
        rw [List.map_append, List.nodup_append]
        refine ⟨t.nodup, by simp, fun a ha b hb => ?_⟩
        obtain rfl : b = key v := by simpa using hb
        exact fun hab => h (hab ▸ ha) }

theorem rows_insert_of_notMem {v : ν} (h : key v ∉ t.keys) :
    (t.insert v).rows = t.rows ++ [v] := by rw [insert, dif_neg h]

theorem rows_insert_of_mem {v : ν} (h : key v ∈ t.keys) :
    (t.insert v).rows = t.rows.map fun w => if key w = key v then v else w := by
  rw [insert, dif_pos h]

theorem mem_rows_insert {v w : ν} :
    w ∈ (t.insert v).rows ↔ (w ∈ t.rows ∧ key w ≠ key v) ∨ w = v := by
  by_cases h : key v ∈ t.keys
  · rw [rows_insert_of_mem h, List.mem_map]
    constructor
    · rintro ⟨u, hu, rfl⟩
      by_cases hk : key u = key v
      · simp [hk]
      · exact Or.inl ⟨by simpa [hk] using hu, by simp [hk]⟩
    · rintro (⟨hw, hk⟩ | rfl)
      · exact ⟨w, hw, by simp [hk]⟩
      · obtain ⟨u, hu, hk⟩ := mem_keys.mp h
        exact ⟨u, hu, by simp [hk]⟩
  · rw [rows_insert_of_notMem h, List.mem_append, List.mem_singleton]
    refine or_congr_left ⟨fun hw => ⟨hw, fun hk => h (hk ▸ key_mem_keys hw)⟩, And.left⟩

theorem get?_insert {v : ν} (k : κ) :
    (t.insert v).get? k = if k = key v then some v else t.get? k := by
  by_cases hk : k = key v
  · rw [if_pos hk, get?_eq_some]
    exact ⟨mem_rows_insert.mpr (Or.inr rfl), hk.symm⟩
  · rw [if_neg hk]
    refine Option.ext fun w => ?_
    rw [get?_eq_some, get?_eq_some, mem_rows_insert]
    constructor
    · rintro ⟨⟨hw, -⟩ | rfl, rfl⟩
      · exact ⟨hw, rfl⟩
      · exact absurd rfl hk
    · rintro ⟨hw, rfl⟩
      exact ⟨Or.inl ⟨hw, hk⟩, rfl⟩

theorem mem_keys_insert {v : ν} : k ∈ (t.insert v).keys ↔ k ∈ t.keys ∨ k = key v := by
  rw [← isSome_get?, ← isSome_get?, get?_insert]
  by_cases h : k = key v <;> simp [h]

/-- **Rewriting the record just filed** is filing the rewritten record. -/
theorem modify_insert {v : ν} (hk : key v = k) :
    (t.insert v).modify k f hf = t.insert (f v) := by
  refine Table.ext ?_
  rw [rows_modify]
  by_cases h : key v ∈ t.keys
  · have hfv : key (f v) ∈ t.keys := by rwa [hf]
    rw [rows_insert_of_mem h, rows_insert_of_mem hfv, List.map_map]
    refine List.map_congr_left fun w _ => ?_
    by_cases hw : key w = key v
    · simp [hw, hk, hf]
    · simp [hw, hf, ← hk]
  · have hfv : key (f v) ∉ t.keys := by rwa [hf]
    rw [rows_insert_of_notMem h, rows_insert_of_notMem hfv, List.map_append, List.map_singleton,
      if_pos hk]
    refine congrArg (· ++ [f v]) ((List.map_congr_left fun w hw => ?_).trans (List.map_id _))
    have hne : key w ≠ k := fun hwk => h (by
      rw [hk, ← hwk]
      exact key_mem_keys hw)
    exact if_neg hne

/-! ## A dictionary from its records -/

/-- The records filed one after another. -/
def ofList (key : ν → κ) (vs : List ν) : Table key := vs.foldl insert empty

theorem rows_foldl_insert (vs : List ν) (t : Table key) (h : (t.rows ++ vs).map key |>.Nodup) :
    (vs.foldl insert t).rows = t.rows ++ vs := by
  induction vs generalizing t with
  | nil => simp
  | cons v vs ih =>
    have hv : key v ∉ t.keys := by
      rw [List.map_append, List.nodup_append] at h
      exact fun hm => h.2.2 _ hm _ (by simp) rfl
    have hrows := rows_insert_of_notMem hv
    rw [List.foldl_cons, ih (t.insert v) (by simpa [hrows] using h), hrows, List.append_assoc,
      List.singleton_append]

/-- **Records with different keys are all kept, in order.** -/
theorem rows_ofList {vs : List ν} (h : (vs.map key).Nodup) : (ofList key vs).rows = vs := by
  rw [ofList, rows_foldl_insert vs empty (by simpa using h), rows_empty, List.nil_append]

/-- Filing rewritten records one after another rewrites the dictionary. -/
theorem ofList_map {μ : Type} {key' : μ → κ} (t : Table key) (g : ν → μ)
    (hg : ∀ v, key' (g v) = key v) : ofList key' (t.rows.map g) = t.map g hg := by
  refine Table.ext (rows_ofList ?_)
  rw [List.map_map, show key' ∘ g = key from funext hg]
  exact t.nodup

theorem mem_keys_ofList {vs : List ν} : k ∈ (ofList key vs).keys ↔ k ∈ vs.map key := by
  have hstep : ∀ t : Table key, k ∈ (vs.foldl insert t).keys ↔ k ∈ t.keys ∨ k ∈ vs.map key := by
    induction vs with
    | nil => simp
    | cons v vs ih =>
      intro t
      rw [List.foldl_cons, ih, mem_keys_insert, List.map_cons, List.mem_cons, or_assoc]
  rw [ofList, hstep, keys_empty]
  simp only [List.not_mem_nil, false_or]

/-! ## Dropping a record -/

/-- Drop the record under a key. -/
def erase (t : Table key) (k : κ) : Table key where
  rows := t.rows.filter fun v => key v ≠ k
  nodup := t.nodup.sublist (List.filter_sublist.map key)

/-- Only the record of the key goes. -/
theorem rows_erase {before after : List ν} {v : ν} (h : t.rows = before ++ v :: after) :
    (t.erase (key v)).rows = before ++ after := by
  have hnd := t.nodup
  rw [h, List.map_append, List.map_cons, List.nodup_append, List.nodup_cons] at hnd
  obtain ⟨-, ⟨hafter, -⟩, hbefore⟩ := hnd
  have hkeep : ∀ xs : List ν, key v ∉ xs.map key → xs.filter (fun w => key w ≠ key v) = xs :=
    fun xs hxs => List.filter_eq_self.mpr fun w hw => decide_eq_true fun hk =>
      hxs (hk ▸ List.mem_map_of_mem hw)
  have hrows : (t.erase (key v)).rows = t.rows.filter fun w => key w ≠ key v := rfl
  rw [hrows, h, List.filter_append, List.filter_cons_of_neg (by simp), hkeep after hafter,
    hkeep before fun hv => hbefore _ hv _ (.head _) rfl]

end Table

end Machinery
