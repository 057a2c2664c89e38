import Cmk.Machinery.Text

/-!
# Machinery/Json — JSON values and their patches

`JsonValue.add`, `replace` and `remove` are operations of a JSON patch along the members of objects:
to add, the parent has to be there, and a member that is there already is replaced; the other two
need the member itself.  What is added is found at its path (`get?_add`), what is removed is not
(`get?_remove`), and nothing changes off it (`get?_add_of_apart`, `get?_remove_of_apart`).
-/

namespace Machinery

inductive JsonValue
  | null
  | bool (b : Bool)
  | num (n : ℤ)
  | str (s : String)
  | arr (items : List JsonValue)
  | obj (members : List (String × JsonValue))
deriving Inhabited

namespace JsonValue

def member? (key : String) : JsonValue → Option JsonValue
  | obj members => (members.find? fun m => m.1 = key).map Prod.snd
  | _ => none

/-- The value at a path of member names. -/
def get? : List String → JsonValue → Option JsonValue
  | [], j => some j
  | key :: path, j => (j.member? key).bind (get? path)

/-- Replace a member, or add it behind the others. -/
def setMember (key : String) (value : JsonValue) :
    List (String × JsonValue) → List (String × JsonValue)
  | [] => [(key, value)]
  | m :: members => if m.1 = key then (key, value) :: members else m :: setMember key value members

/-- Add a value at a path of member names; `none` if there is nothing to add it to. -/
def add : List String → JsonValue → JsonValue → Option JsonValue
  | [], value, _ => some value
  | [key], value, obj members => some (obj (setMember key value members))
  | key :: next :: path, value, obj members =>
    ((obj members).member? key).bind fun child =>
      (add (next :: path) value child).map fun child => obj (setMember key child members)
  | _, _, _ => none

/-- Replace the value at a path, where there is one. -/
def replace (path : List String) (value j : JsonValue) : Option JsonValue :=
  (get? path j).bind fun _ => add path value j

/-- Remove the member at a path; `none` if it is not there. -/
def remove : List String → JsonValue → Option JsonValue
  | [key], obj members =>
    if key ∈ members.map Prod.fst then some (obj (members.filter fun m => m.1 ≠ key)) else none
  | key :: next :: path, obj members =>
    ((obj members).member? key).bind fun child =>
      (remove (next :: path) child).map fun child => obj (setMember key child members)
  | _, _ => none

/-- The paths part at some name. -/
def Apart : List String → List String → Prop
  | key :: path, key' :: path' => key ≠ key' ∨ Apart path path'
  | _, _ => False

instance decidableApart : (path path' : List String) → Decidable (Apart path path')
  | key :: path, key' :: path' =>
    have := decidableApart path path'
    inferInstanceAs (Decidable (key ≠ key' ∨ Apart path path'))
  | [], _ => isFalse id
  | _ :: _, [] => isFalse id

theorem apart_of_ne {key key' : String} (h : key ≠ key') (path path' : List String) :
    Apart (key :: path) (key' :: path') := Or.inl h

theorem Apart.cons {path path' : List String} (h : Apart path path') (key : String) :
    Apart (key :: path) (key :: path') := Or.inr h

/-! ## Pointers -/

/-- `~1` stands for a slash and `~0` for a tilde. -/
def unescape : List Char → List Char
  | '~' :: '1' :: cs => '/' :: unescape cs
  | '~' :: '0' :: cs => '~' :: unescape cs
  | c :: cs => c :: unescape cs
  | [] => []

/-- The path a JSON pointer stands for. -/
def pointer (text : String) : Option (List String) :=
  match splitText '/' text with
  | "" :: tokens => some (tokens.map fun token => String.ofList (unescape token.toList))
  | _ => none

/-! ## What an addition changes -/

variable {key key' : String} {value : JsonValue} {members : List (String × JsonValue)}

theorem member?_setMember_self (key : String) (value : JsonValue)
    (members : List (String × JsonValue)) :
    (obj (setMember key value members)).member? key = some value := by
  induction members with
  | nil => simp [setMember, member?]
  | cons m members ih =>
    rw [setMember]
    split
    · simp [member?]
    · rename_i hne
      rwa [member?, List.find?_cons_of_neg (by simpa using hne)]

theorem member?_setMember_of_ne (h : key ≠ key') :
    (obj (setMember key value members)).member? key' = (obj members).member? key' := by
  induction members with
  | nil => simp [setMember, member?, h]
  | cons m members ih =>
    rw [setMember]
    split
    · rename_i heq
      simp [member?, heq, h]
    · by_cases hm : m.1 = key'
      · simp [member?, hm]
      · rw [member?, member?, List.find?_cons_of_neg (by simpa using hm),
          List.find?_cons_of_neg (by simpa using hm)]
        exact ih

theorem setMember_of_notMem (value : JsonValue) (h : key ∉ members.map Prod.fst) :
    setMember key value members = members ++ [(key, value)] := by
  induction members with
  | nil => rfl
  | cons m members ih =>
    rw [List.map_cons, List.mem_cons, not_or] at h
    rw [setMember, if_neg (Ne.symm h.1), ih h.2, List.cons_append]

/-- A member is changed along a path that goes through it. -/
theorem add_cons {path : List String} {j j' : JsonValue} (h : add (key :: path) value j = some j') :
    ∃ members child, j = obj members ∧ j' = obj (setMember key child members) ∧
      (path = [] ∧ child = value ∨
        ∃ old, j.member? key = some old ∧ add path value old = some child) := by
  cases j with
  | obj members =>
    cases path with
    | nil =>
      obtain rfl := Option.some.inj h
      exact ⟨members, value, rfl, rfl, .inl ⟨rfl, rfl⟩⟩
    | cons next path =>
      obtain ⟨old, hold, h⟩ := Option.bind_eq_some_iff.mp h
      obtain ⟨child, hchild, rfl⟩ := Option.map_eq_some_iff.mp h
      exact ⟨members, child, rfl, rfl, .inr ⟨old, hold, hchild⟩⟩
  | _ => cases path <;> nomatch h

/-- **What is added is there.** -/
theorem get?_add {path : List String} {j j' : JsonValue} (h : add path value j = some j') :
    get? path j' = some value := by
  induction path generalizing j j' with
  | nil =>
    rw [add] at h
    rw [get?, h]
  | cons key path ih =>
    obtain ⟨members, child, rfl, rfl, hchild⟩ := add_cons h
    rw [get?, member?_setMember_self, Option.bind_some]
    rcases hchild with ⟨rfl, rfl⟩ | ⟨old, -, hadd⟩
    · rfl
    · exact ih hadd

/-- **Nothing changes off the path.** -/
theorem get?_add_of_apart {path path' : List String} {j j' : JsonValue}
    (h : add path value j = some j') (hapart : Apart path path') :
    get? path' j' = get? path' j := by
  induction path generalizing path' j j' with
  | nil => nomatch hapart
  | cons key path ih =>
    cases path' with
    | nil => nomatch hapart
    | cons key' path' =>
      obtain ⟨members, child, rfl, rfl, hchild⟩ := add_cons h
      rw [get?, get?]
      by_cases hkey : key = key'
      · subst hkey
        have hrest : Apart path path' := hapart.resolve_left fun hne => hne rfl
        rcases hchild with ⟨rfl, -⟩ | ⟨old, hold, hadd⟩
        · nomatch hrest
        · rw [member?_setMember_self, hold, Option.bind_some, Option.bind_some]
          exact ih hadd hrest
      · rw [member?_setMember_of_ne hkey]

theorem get?_append (path path' : List String) (j : JsonValue) :
    get? (path ++ path') j = (get? path j).bind (get? path') := by
  induction path generalizing j with
  | nil => rfl
  | cons key path ih =>
    rw [List.cons_append, get?, get?, Option.bind_assoc]
    exact congrArg _ (funext ih)

theorem get?_concat (path : List String) (key : String) (j : JsonValue) :
    get? (path ++ [key]) j = (get? path j).bind (member? key) := by
  rw [get?_append]
  refine congrArg _ (funext fun child => ?_)
  rw [get?]
  cases child.member? key <;> rfl

theorem get?_singleton (key : String) (j : JsonValue) : get? [key] j = j.member? key :=
  get?_concat [] key j

/-- **A member can be added** to the object at the path, and only to one. -/
theorem add_concat {path : List String} {j : JsonValue} (h : get? path j = some (obj members)) :
    ∃ j', add (path ++ [key]) value j = some j' ∧
      get? path j' = some (obj (setMember key value members)) := by
  induction path generalizing j with
  | nil =>
    obtain rfl := Option.some.inj h
    exact ⟨_, rfl, rfl⟩
  | cons name path ih =>
    obtain ⟨child, hchild, h⟩ := Option.bind_eq_some_iff.mp h
    obtain ⟨child', hadd, hget⟩ := ih h
    cases j with
    | obj outer =>
      refine ⟨obj (setMember name child' outer), ?_, ?_⟩
      · obtain ⟨next, rest, hpath⟩ := List.exists_cons_of_ne_nil
          (List.append_ne_nil_of_right_ne_nil path (List.cons_ne_nil key []))
        rw [List.cons_append, hpath, add, hchild, Option.bind_some, ← hpath, hadd, Option.map_some]
      · rw [get?, member?_setMember_self, Option.bind_some, hget]
    | _ => cases hchild

theorem parent_of_add {path : List String} {j j' : JsonValue}
    (h : add (path ++ [key]) value j = some j') : ∃ members, get? path j = some (obj members) := by
  induction path generalizing j j' with
  | nil =>
    obtain ⟨members, -, rfl, -⟩ := add_cons h
    exact ⟨members, rfl⟩
  | cons name path ih =>
    rw [List.cons_append] at h
    obtain ⟨members, child, rfl, -, hrest⟩ := add_cons h
    rcases hrest with ⟨hnil, -⟩ | ⟨old, hold, hadd⟩
    · exact absurd hnil (List.append_ne_nil_of_right_ne_nil path (List.cons_ne_nil key []))
    · obtain ⟨parent, hparent⟩ := ih hadd
      exact ⟨parent, by rw [get?, hold, Option.bind_some, hparent]⟩

/-- **A value can be replaced** exactly where there is one. -/
theorem isSome_replace_concat {path : List String} {key : String} {value j : JsonValue} :
    (replace (path ++ [key]) value j).isSome ↔ (get? (path ++ [key]) j).isSome := by
  rw [replace, get?_concat]
  cases hparent : get? path j with
  | none => simp
  | some parent =>
    rw [Option.bind_some]
    cases parent with
    | obj members =>
      obtain ⟨j', hadd, -⟩ := @add_concat key value members path j hparent
      rw [hadd]
      cases (obj members).member? key <;> simp
    | _ => simp [member?]

theorem get?_replace {path : List String} {j j' : JsonValue}
    (h : replace path value j = some j') : get? path j' = some value := by
  obtain ⟨old, -, hadd⟩ := Option.bind_eq_some_iff.mp h
  exact get?_add hadd

theorem setMember_setMember (key : String) (value value' : JsonValue)
    (members : List (String × JsonValue)) :
    setMember key value (setMember key value' members) = setMember key value members := by
  induction members with
  | nil => simp [setMember]
  | cons m members ih =>
    rw [setMember]
    split_ifs with hm
    · rw [setMember, if_pos rfl, setMember, if_pos hm]
    · rw [setMember, if_neg hm, setMember, if_neg hm, ih]

/-- **To add once more changes nothing.** -/
theorem add_add {path : List String} {j j' : JsonValue} (h : add path value j = some j') :
    add path value j' = some j' := by
  induction path generalizing j j' with
  | nil =>
    rw [add] at h ⊢
    exact h
  | cons name path ih =>
    obtain ⟨members, child, rfl, rfl, hchild⟩ := add_cons h
    rcases hchild with ⟨rfl, rfl⟩ | ⟨old, -, hadd⟩
    · rw [add, setMember_setMember]
    · cases path with
      | nil =>
        obtain rfl := Option.some.inj hadd
        rw [add, setMember_setMember]
      | cons next path =>
        rw [add, member?_setMember_self, Option.bind_some, ih hadd, Option.map_some,
          setMember_setMember]

/-! ## What a removal changes -/

/-- A removal changes members along a path that is there. -/
theorem remove_cons {path : List String} {j j' : JsonValue}
    (h : remove (key :: path) j = some j') :
    ∃ members, j = obj members ∧
      (path = [] ∧ key ∈ members.map Prod.fst ∧ j' = obj (members.filter fun m => m.1 ≠ key) ∨
        ∃ old child, j.member? key = some old ∧ remove path old = some child ∧
          j' = obj (setMember key child members)) := by
  cases j with
  | obj members =>
    cases path with
    | nil =>
      rw [remove] at h
      split_ifs at h with hmem
      exact ⟨members, rfl, .inl ⟨rfl, hmem, (Option.some.inj h).symm⟩⟩
    | cons next path =>
      obtain ⟨old, hold, h⟩ := Option.bind_eq_some_iff.mp h
      obtain ⟨child, hchild, rfl⟩ := Option.map_eq_some_iff.mp h
      exact ⟨members, rfl, .inr ⟨old, child, hold, hchild, rfl⟩⟩
  | _ => cases path <;> nomatch h

theorem member?_filter_ne (key' : String) :
    (obj (members.filter fun m => m.1 ≠ key)).member? key' =
      if key' = key then none else (obj members).member? key' := by
  rw [member?, member?, List.find?_filter]
  split_ifs with heq
  · subst heq
    rw [List.find?_eq_none.mpr (by simp), Option.map_none]
  · refine congrArg _ (List.find?_congr fun m _ => ?_)
    by_cases hm : m.1 = key'
    · simp [hm, heq]
    · simp [hm]

/-- **What is removed is gone.** -/
theorem get?_remove {path : List String} {j j' : JsonValue} (h : remove path j = some j') :
    get? path j' = none := by
  induction path generalizing j j' with
  | nil => cases j <;> cases h
  | cons key path ih =>
    obtain ⟨members, rfl, ⟨rfl, -, rfl⟩ | ⟨old, child, -, hchild, rfl⟩⟩ := remove_cons h
    · rw [get?, member?_filter_ne, if_pos rfl, Option.bind_none]
    · rw [get?, member?_setMember_self, Option.bind_some, ih hchild]

/-- **Nothing else changes.** -/
theorem get?_remove_of_apart {path path' : List String} {j j' : JsonValue}
    (h : remove path j = some j') (hapart : Apart path path') : get? path' j' = get? path' j := by
  induction path generalizing path' j j' with
  | nil => nomatch hapart
  | cons key path ih =>
    cases path' with
    | nil => nomatch hapart
    | cons key' path' =>
      rw [get?, get?]
      obtain ⟨members, rfl, ⟨rfl, -, rfl⟩ | ⟨old, child, hold, hchild, rfl⟩⟩ := remove_cons h
      · have hne : key' ≠ key := fun heq => hapart.elim (· heq.symm) fun hrest => by cases hrest
        rw [member?_filter_ne, if_neg hne]
      · by_cases hkey : key = key'
        · subst hkey
          have hrest : Apart path path' := hapart.resolve_left fun hne => hne rfl
          rw [member?_setMember_self, hold, Option.bind_some, Option.bind_some]
          exact ih hchild hrest
        · rw [member?_setMember_of_ne hkey]

theorem isSome_member? (key : String) (members : List (String × JsonValue)) :
    ((obj members).member? key).isSome ↔ key ∈ members.map Prod.fst := by
  rw [member?, Option.isSome_map, List.find?_isSome]
  simp

/-- **A removal succeeds** exactly where there is a value. -/
theorem isSome_remove (key : String) (path : List String) (j : JsonValue) :
    (remove (key :: path) j).isSome ↔ (get? (key :: path) j).isSome := by
  induction path generalizing key j with
  | nil =>
    cases j with
    | obj members =>
      rw [get?_singleton, isSome_member?, remove]
      split_ifs with hmem <;> simp [hmem]
    | _ => simp [remove, get?, member?]
  | cons next path ih =>
    cases j with
    | obj members =>
      rw [remove, get?]
      cases (obj members).member? key with
      | none => simp
      | some child => simpa using ih next child
    | _ => simp [remove, get?, member?]

end JsonValue

end Machinery
