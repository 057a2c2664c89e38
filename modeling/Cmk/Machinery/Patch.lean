import Cmk.Machinery.Merge

/-!
# Machinery/Patch — patch documents

A patch document is a list of operations, each with a name, a pointer and, but for a removal, a
value.  They are applied one after another, and the first that fails fails them all
(`applyPatch`).

Objects with the same keys in the same order differ in a member or not at all (`ext_members`).
-/

namespace Machinery

namespace JsonValue

/-- An operation of a patch. -/
inductive PatchOp
  | add (path : List String) (value : JsonValue)
  | replace (path : List String) (value : JsonValue)
  | remove (path : List String)

def PatchOp.apply (j : JsonValue) : PatchOp → Option JsonValue
  | add path value => JsonValue.add path value j
  | replace path value => JsonValue.replace path value j
  | remove path => JsonValue.remove path j

/-- The operation that a member of a patch document stands for. -/
def patchOp? (op : JsonValue) : Option PatchOp :=
  match op.member? "op", op.member? "path", op.member? "value" with
  | some (str name), some (str text), value =>
    (pointer text).bind fun path =>
      if name = "remove" then some (.remove path)
      else if name = "add" then value.map (.add path)
      else if name = "replace" then value.map (.replace path)
      else none
  | _, _, _ => none

/-- A value with a patch document applied to it. -/
def applyPatch (patch j : JsonValue) : Option JsonValue :=
  match patch with
  | arr ops => (ops.mapM patchOp?).bind fun ops => ops.foldlM PatchOp.apply j
  | _ => none

/-- A member that is there is replaced in its place. -/
theorem replace_singleton {key : String} {a : List (String × JsonValue)} (value : JsonValue)
    (h : ((obj a).member? key).isSome) :
    replace [key] value (obj a) = some (obj (setMember key value a)) := by
  obtain ⟨old, hold⟩ := Option.isSome_iff_exists.mp h
  rw [replace, get?_singleton, hold, Option.bind_some, add]

/-- **Objects with the same keys** are equal if their members are. -/
theorem ext_members {a b : List (String × JsonValue)} (hkeys : a.map Prod.fst = b.map Prod.fst)
    (hnodup : (a.map Prod.fst).Nodup) (h : ∀ key, (obj a).member? key = (obj b).member? key) :
    a = b := by
  have hread : ∀ c : List (String × JsonValue), (c.map Prod.fst).Nodup →
      (c.map Prod.fst).map (fun key => (key, ((obj c).member? key).getD null)) = c := by
    intro c hc
    rw [List.map_map]
    refine (List.map_congr_left fun m hm => ?_).trans (List.map_id c)
    rw [Function.comp_apply, member?_of_mem hc hm, Option.getD_some, id_eq]
  calc a = (a.map Prod.fst).map fun key => (key, ((obj a).member? key).getD null) :=
        (hread a hnodup).symm
    _ = (b.map Prod.fst).map fun key => (key, ((obj b).member? key).getD null) := by
        simp only [hkeys, h]
    _ = b := hread b (hkeys ▸ hnodup)

end JsonValue

end Machinery
