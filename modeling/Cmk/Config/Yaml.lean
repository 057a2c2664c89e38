import Cmk.Config.Entries

/-!
# Config/Yaml — `build_config` on any document

`Yaml` is what `safe_load` can return, so a configmap edited by hand is in its domain.
`Conf.ofYaml` is `build_config` with the exceptions it ends in on a document of another shape;
`Yaml.Buildable` says for which documents it returns (`isOk_ofYaml`).
-/

open Machinery

namespace Cmk

inductive Yaml
  | scalar (s : Scalar)
  | seq (xs : List Yaml)
  | map (rows : List (Scalar × Yaml))
  | set (xs : List Scalar)

namespace Yaml

mutual

def decEq : (a b : Yaml) → Decidable (a = b)
  | .scalar s, .scalar t => decidable_of_iff (s = t) (by simp)
  | .seq xs, .seq ys => @decidable_of_iff _ (xs = ys) (by simp) (decEqList xs ys)
  | .map xs, .map ys => @decidable_of_iff _ (xs = ys) (by simp) (decEqRows xs ys)
  | .set xs, .set ys => decidable_of_iff (xs = ys) (by simp)
  | .scalar _, .seq _ | .scalar _, .map _ | .scalar _, .set _ | .seq _, .scalar _
  | .seq _, .map _ | .seq _, .set _ | .map _, .scalar _ | .map _, .seq _ | .map _, .set _
  | .set _, .scalar _ | .set _, .seq _ | .set _, .map _ => .isFalse nofun

def decEqList : (xs ys : List Yaml) → Decidable (xs = ys)
  | [], [] => .isTrue rfl
  | [], _ :: _ => .isFalse nofun
  | _ :: _, [] => .isFalse nofun
  | x :: xs, y :: ys =>
    @decidable_of_iff _ (x = y ∧ xs = ys) (by simp) (@instDecidableAnd _ _ (decEq x y)
      (decEqList xs ys))

def decEqRows : (xs ys : List (Scalar × Yaml)) → Decidable (xs = ys)
  | [], [] => .isTrue rfl
  | [], _ :: _ => .isFalse nofun
  | _ :: _, [] => .isFalse nofun
  | (k, x) :: xs, (l, y) :: ys =>
    @decidable_of_iff _ (k = l ∧ x = y ∧ xs = ys) (by simp [and_assoc])
      (@instDecidableAnd _ _ _ (@instDecidableAnd _ _ (decEq x y) (decEqRows xs ys)))

end

instance : DecidableEq Yaml := decEq

/-- `x.keys()` with the values under them: only a mapping has the method. -/
def keyRows : Yaml → Except PyErr (List (Scalar × Yaml))
  | .map rows => .ok rows
  | _ => .error .attributeError

/-- `for item in x`. -/
def items : Yaml → Except PyErr (List Yaml)
  | .seq xs => .ok xs
  | .map rows => .ok (rows.map fun r => .scalar r.1)
  | .set xs => .ok (xs.map .scalar)
  | .scalar (.str s) => .ok (s.toList.map fun c => .scalar (.str (String.singleton c)))
  | .scalar (.binary bytes) => .ok (bytes.map fun b => .scalar (.int b.toNat))
  | .scalar _ => .error .typeError

end Yaml

/-- `int(task)` of an item, and the item `str(pid)`. -/
instance : Task Yaml where
  toInt
    | .scalar s => s.toInt
    | _ => .error .typeError
  ofText s := .scalar (.str s)

/-! ## Building -/

/-- `exclusivity[pool]`. -/
def exclusivityOf : Scalar → Except PyErr (String × Bool)
  | .str pool =>
    match exclusivity pool with
    | some b => .ok (pool, b)
    | none => .error (.keyError none)
  | _ => .error (.keyError none)

def CoreList.ofYaml (r : Scalar × Yaml) : Except PyErr (CoreList Scalar Yaml) := do
  let tasks ← r.2.items
  return ⟨r.1, tasks⟩

def Socket.ofYaml (r : Scalar × Yaml) : Except PyErr (Socket Scalar Yaml) := do
  let rows ← r.2.keyRows
  let coreLists ← rows.mapM CoreList.ofYaml
  return ⟨r.1, Table.ofList _ coreLists⟩

def Pool.ofYaml (r : Scalar × Yaml) : Except PyErr (Pool Scalar Yaml) := do
  let (name, exclusive) ← exclusivityOf r.1
  let rows ← r.2.keyRows
  let sockets ← rows.mapM Socket.ofYaml
  return ⟨exclusive, name, Table.ofList _ sockets⟩

/-- `build_config`. -/
def Conf.ofYaml (doc : Yaml) : Except PyErr (Conf Scalar Yaml) := do
  let rows ← doc.keyRows
  let pools ← rows.mapM Pool.ofYaml
  return ⟨Table.ofList _ pools⟩

/-! ## Which documents build -/

namespace Yaml

/-- A mapping whose keys and values satisfy a condition. -/
def IsMapOf (p : Scalar → Yaml → Prop) : Yaml → Prop
  | .map rows => ∀ r ∈ rows, p r.1 r.2
  | _ => False

/-- What a `for` loop runs over. -/
def Iterable : Yaml → Prop
  | .seq _ | .map _ | .set _ | .scalar (.str _) | .scalar (.binary _) => True
  | .scalar _ => False

/-- The key is the name of a pool. -/
def PoolName (key : Scalar) : Prop := ∃ name, key = .str name ∧ (exclusivity name).isSome

/-- Pool names over mappings over mappings over what a loop runs over. -/
def Buildable : Yaml → Prop :=
  IsMapOf fun pool sockets => PoolName pool ∧
    sockets.IsMapOf fun _ coreLists => coreLists.IsMapOf fun _ tasks => tasks.Iterable

end Yaml

theorem isOk_keyRows {doc : Yaml} {p : Scalar → Yaml → Prop} :
    (∃ rows, doc.keyRows = .ok rows ∧ ∀ r ∈ rows, p r.1 r.2) ↔ doc.IsMapOf p := by
  cases doc <;> simp [Yaml.keyRows, Yaml.IsMapOf]

theorem isOk_items {y : Yaml} : IsOk y.items ↔ y.Iterable := by
  cases y with
  | scalar s => cases s <;> simp [Yaml.items, Yaml.Iterable, IsOk]
  | _ => simp [Yaml.items, Yaml.Iterable, IsOk]

theorem isOk_coreList {r : Scalar × Yaml} : IsOk (CoreList.ofYaml r) ↔ r.2.Iterable := by
  rw [CoreList.ofYaml, isOk_bind, ← isOk_items]
  exact exists_congr fun tasks => and_iff_left (isOk_pure _)

theorem isOk_socket {r : Scalar × Yaml} :
    IsOk (Socket.ofYaml r) ↔ r.2.IsMapOf fun _ tasks => tasks.Iterable := by
  rw [Socket.ofYaml, isOk_bind, ← isOk_keyRows]
  refine exists_congr fun rows => and_congr_right fun _ => ?_
  rw [isOk_bind, ← forall₂_congr fun r _ => isOk_coreList, ← isOk_mapM]
  exact exists_congr fun cls => and_iff_left (isOk_pure _)

theorem isOk_exclusivityOf {key : Scalar} : IsOk (exclusivityOf key) ↔ Yaml.PoolName key := by
  cases key with
  | str name =>
    cases h : exclusivity name <;> simp [exclusivityOf, IsOk, Yaml.PoolName, h]
  | _ => simp [exclusivityOf, IsOk, Yaml.PoolName]

theorem isOk_pool {r : Scalar × Yaml} :
    IsOk (Pool.ofYaml r) ↔ Yaml.PoolName r.1 ∧
      r.2.IsMapOf fun _ coreLists => coreLists.IsMapOf fun _ tasks => tasks.Iterable := by
  rw [← isOk_exclusivityOf, ← isOk_keyRows, Pool.ofYaml, isOk_bind]
  constructor
  · rintro ⟨⟨name, exclusive⟩, hx, h⟩
    obtain ⟨rows, hr, h⟩ := isOk_bind.mp h
    obtain ⟨sockets, hs, -⟩ := isOk_bind.mp h
    exact ⟨⟨_, hx⟩, rows, hr, fun r hr => isOk_socket.mp (isOk_mapM.mp ⟨sockets, hs⟩ r hr)⟩
  · rintro ⟨⟨⟨name, exclusive⟩, hx⟩, rows, hr, h⟩
    obtain ⟨sockets, hs⟩ := isOk_mapM.mpr fun r hr => isOk_socket.mpr (h r hr)
    exact ⟨_, hx, isOk_bind.mpr ⟨rows, hr, isOk_bind.mpr ⟨sockets, hs, isOk_pure _⟩⟩⟩

/-- **`build_config` returns exactly on the buildable documents.** -/
theorem isOk_ofYaml {doc : Yaml} : IsOk (Conf.ofYaml doc) ↔ doc.Buildable := by
  rw [Conf.ofYaml, isOk_bind, Yaml.Buildable, ← isOk_keyRows]
  refine exists_congr fun rows => and_congr_right fun _ => ?_
  rw [isOk_bind, ← forall₂_congr fun r _ => isOk_pool, ← isOk_mapM]
  exact exists_congr fun pools => and_iff_left (isOk_pure _)

/-! ## What is built -/

namespace Yaml

/-- The rows of a mapping. -/
def rows : Yaml → List (Scalar × Yaml)
  | .map rows => rows
  | _ => []

/-- Mappings have every key once, down to a depth. -/
def UniqueKeys : ℕ → Yaml → Prop
  | 0, _ => True
  | n + 1, y => (y.rows.map Prod.fst).Nodup ∧ ∀ r ∈ y.rows, UniqueKeys n r.2

/-- The names of CPU lists with their tasks one by one, in document order. -/
def visited (doc : Yaml) : List (Scalar × Yaml) :=
  doc.rows.flatMap fun pool => pool.2.rows.flatMap fun socket => socket.2.rows.flatMap fun cl =>
    (cl.2.items.toOption.getD []).map fun task => (cl.1, task)

def decUniqueKeys : (n : ℕ) → (y : Yaml) → Decidable (y.UniqueKeys n)
  | 0, _ => .isTrue trivial
  | n + 1, y =>
    have : ∀ r : Scalar × Yaml, Decidable (r.2.UniqueKeys n) := fun r => decUniqueKeys n r.2
    inferInstanceAs (Decidable ((y.rows.map Prod.fst).Nodup ∧ ∀ r ∈ y.rows, r.2.UniqueKeys n))

instance (n : ℕ) (y : Yaml) : Decidable (y.UniqueKeys n) := decUniqueKeys n y

theorem rows_of_keyRows {y : Yaml} {rows : List (Scalar × Yaml)} (h : y.keyRows = .ok rows) :
    y.rows = rows := by
  cases y with
  | map rows' => exact Except.ok.inj h
  | _ => simp [keyRows] at h

end Yaml

/-- A document as `safe_load` returns it: pools, sockets and CPU lists are there once. -/
structure Document where
  root : Yaml
  unique : root.UniqueKeys 3

theorem forall₂_flatMap {α β γ : Type} {R : α → β → Prop} {xs : List α} {ys : List β}
    (h : List.Forall₂ R xs ys) {f : α → List γ} {g : β → List γ}
    (hfg : ∀ x ∈ xs, ∀ y, R x y → f x = g y) : xs.flatMap f = ys.flatMap g := by
  induction h with
  | nil => rfl
  | cons hr _ ih =>
    rw [List.flatMap_cons, List.flatMap_cons, hfg _ (by simp) _ hr,
      ih fun x hx => hfg x (by simp [hx])]

theorem forall₂_map_key {α β κ : Type} {R : α → β → Prop} {xs : List α} {ys : List β}
    (h : List.Forall₂ R xs ys) {f : α → κ} {g : β → κ} (hfg : ∀ x y, R x y → g y = f x) :
    ys.map g = xs.map f := by
  induction h with
  | nil => rfl
  | cons hr _ ih => rw [List.map_cons, List.map_cons, hfg _ _ hr, ih]

theorem ofYaml_coreList {r : Scalar × Yaml} {cl : CoreList Scalar Yaml}
    (h : CoreList.ofYaml r = .ok cl) : cl.coreId = r.1 ∧ r.2.items = .ok cl.tasks := by
  obtain ⟨tasks, ht, h⟩ := bind_eq_ok.mp h
  obtain rfl := pure_eq_ok.mp h
  exact ⟨rfl, ht⟩

theorem ofYaml_socket {r : Scalar × Yaml} {s : Socket Scalar Yaml} (h : Socket.ofYaml r = .ok s) :
    s.socketId = r.1 ∧ ((r.2.rows.map Prod.fst).Nodup →
      List.Forall₂ (fun r cl => CoreList.ofYaml r = .ok cl) r.2.rows s.coreLists.rows) := by
  obtain ⟨rows, hrows, h⟩ := bind_eq_ok.mp h
  obtain ⟨cls, hcls, h⟩ := bind_eq_ok.mp h
  obtain rfl := pure_eq_ok.mp h
  obtain rfl := Yaml.rows_of_keyRows hrows
  have hall := mapM_eq_ok.mp hcls
  have hkeys := forall₂_map_key hall fun x y hxy => (ofYaml_coreList hxy).1
  exact ⟨rfl, fun hu => by rwa [Table.rows_ofList (hkeys ▸ hu)]⟩

theorem exclusivityOf_ok {key : Scalar} {name : String} {exclusive : Bool}
    (h : exclusivityOf key = .ok (name, exclusive)) : key = .str name := by
  cases key with
  | str pool =>
    cases hp : exclusivity pool with
    | none => simp [exclusivityOf, hp] at h
    | some b =>
      simp only [exclusivityOf, hp, Except.ok.injEq, Prod.mk.injEq] at h
      rw [h.1]
  | _ => simp [exclusivityOf] at h

theorem ofYaml_pool {r : Scalar × Yaml} {p : Pool Scalar Yaml} (h : Pool.ofYaml r = .ok p) :
    r.1 = .str p.name ∧ ((r.2.rows.map Prod.fst).Nodup →
      List.Forall₂ (fun r s => Socket.ofYaml r = .ok s) r.2.rows p.sockets.rows) := by
  obtain ⟨⟨name, exclusive⟩, hx, h⟩ := bind_eq_ok.mp h
  obtain ⟨rows, hrows, h⟩ := bind_eq_ok.mp h
  obtain ⟨sockets, hs, h⟩ := bind_eq_ok.mp h
  obtain rfl := pure_eq_ok.mp h
  obtain rfl := Yaml.rows_of_keyRows hrows
  have hall := mapM_eq_ok.mp hs
  have hkeys := forall₂_map_key hall fun x y hxy => (ofYaml_socket hxy).1
  exact ⟨exclusivityOf_ok hx, fun hu => by rwa [Table.rows_ofList (hkeys ▸ hu)]⟩

theorem ofYaml_conf {doc : Yaml} {c : Conf Scalar Yaml} (h : Conf.ofYaml doc = .ok c)
    (hu : (doc.rows.map Prod.fst).Nodup) :
    List.Forall₂ (fun r p => Pool.ofYaml r = .ok p) doc.rows c.pools.rows := by
  obtain ⟨rows, hrows, h⟩ := bind_eq_ok.mp h
  obtain ⟨pools, hp, h⟩ := bind_eq_ok.mp h
  obtain rfl := pure_eq_ok.mp h
  obtain rfl := Yaml.rows_of_keyRows hrows
  have hall := mapM_eq_ok.mp hp
  have hkeys : (pools.map Pool.name).map Scalar.str = doc.rows.map Prod.fst := by
    rw [List.map_map]
    exact forall₂_map_key hall fun x y hxy => (ofYaml_pool hxy).1.symm
  have hnd : (pools.map Pool.name).Nodup := .of_map Scalar.str (hkeys ▸ hu)
  rwa [Table.rows_ofList hnd]

/-- **The tasks a report visits are those of the document.** -/
theorem visited_ofYaml {doc : Yaml} {c : Conf Scalar Yaml} (h : Conf.ofYaml doc = .ok c)
    (hu : doc.UniqueKeys 3) : c.visited.map Prod.snd = doc.visited := by
  rw [Conf.visited, Conf.entries, List.map_flatMap, List.flatMap_assoc, Yaml.visited]
  have hconf := ofYaml_conf h hu.1
  refine (forall₂_flatMap hconf fun r hr p hp => ?_).symm
  have hpool := (ofYaml_pool hp).2 (hu.2 r hr).1
  rw [Pool.entries, List.flatMap_assoc]
  refine forall₂_flatMap hpool fun q hq s hs => ?_
  have hsock := (ofYaml_socket hs).2 ((hu.2 r hr).2 q hq).1
  rw [List.flatMap_map]
  refine forall₂_flatMap hsock fun x _ cl hcl => ?_
  obtain ⟨hid, hitems⟩ := ofYaml_coreList hcl
  simp [hitems, hid, Except.toOption]

/-- The pools of the document. -/
theorem mem_keys_ofYaml {doc : Yaml} {c : Conf Scalar Yaml} (h : Conf.ofYaml doc = .ok c)
    (hu : (doc.rows.map Prod.fst).Nodup) (pool : String) :
    pool ∈ c.pools.keys ↔ Scalar.str pool ∈ doc.rows.map Prod.fst := by
  have hkeys : c.pools.keys.map Scalar.str = doc.rows.map Prod.fst := by
    rw [Table.keys, List.map_map]
    exact forall₂_map_key (ofYaml_conf h hu) fun x y hxy => (ofYaml_pool hxy).1.symm
  rw [← hkeys, List.mem_map]
  simp

end Cmk
