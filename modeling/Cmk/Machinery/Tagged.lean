import Mathlib.Data.List.Basic

/-!
# Machinery/Tagged — documents with a tag on every node

A loader that constructs values for some tags only takes a document exactly when all its tags are
among them (`isSome_construct`); one foreign tag anywhere and the whole of it is refused.
-/

namespace Machinery

inductive TagTree
  | scalar (tag text : String)
  | seq (tag : String) (items : List TagTree)
  | map (tag : String) (rows : List (TagTree × TagTree))

/-- What is constructed from the nodes whose tags are known. -/
inductive Plain
  | scalar (tag text : String)
  | seq (items : List Plain)
  | map (rows : List (Plain × Plain))

namespace TagTree

mutual

def tags : TagTree → List String
  | scalar tag _ => [tag]
  | seq tag items => tag :: itemTags items
  | map tag rows => tag :: rowTags rows

def itemTags : List TagTree → List String
  | [] => []
  | t :: items => tags t ++ itemTags items

def rowTags : List (TagTree × TagTree) → List String
  | [] => []
  | (key, value) :: rows => tags key ++ (tags value ++ rowTags rows)

end

variable (known : String → Bool)

mutual

/-- Construct a document, if all its tags are known. -/
def construct : TagTree → Option Plain
  | scalar tag text => if known tag then some (.scalar tag text) else none
  | seq tag items => if known tag then (constructItems items).map .seq else none
  | map tag rows => if known tag then (constructRows rows).map .map else none

def constructItems : List TagTree → Option (List Plain)
  | [] => some []
  | t :: items => do
    let x ← construct t
    let xs ← constructItems items
    return x :: xs

def constructRows : List (TagTree × TagTree) → Option (List (Plain × Plain))
  | [] => some []
  | (key, value) :: rows => do
    let k ← construct key
    let v ← construct value
    let rest ← constructRows rows
    return (k, v) :: rest

end

mutual

/-- **A document is constructed exactly when all its tags are known.** -/
theorem isSome_construct : ∀ t : TagTree, (t.construct known).isSome ↔ ∀ tag ∈ t.tags, known tag
  | scalar tag text => by simp [construct, tags]
  | seq tag items => by
    rw [construct, tags, List.forall_mem_cons, ← isSome_constructItems items]
    by_cases h : known tag <;> simp [h]
  | map tag rows => by
    rw [construct, tags, List.forall_mem_cons, ← isSome_constructRows rows]
    by_cases h : known tag <;> simp [h]

theorem isSome_constructItems : ∀ items : List TagTree,
    (constructItems known items).isSome ↔ ∀ tag ∈ itemTags items, known tag
  | [] => by simp [constructItems, itemTags]
  | t :: items => by
    rw [constructItems, itemTags, List.forall_mem_append, ← isSome_construct t,
      ← isSome_constructItems items]
    cases construct known t <;> cases constructItems known items <;> simp

theorem isSome_constructRows : ∀ rows : List (TagTree × TagTree),
    (constructRows known rows).isSome ↔ ∀ tag ∈ rowTags rows, known tag
  | [] => by simp [constructRows, rowTags]
  | (key, value) :: rows => by
    rw [constructRows, rowTags, List.forall_mem_append, List.forall_mem_append,
      ← isSome_construct key, ← isSome_construct value, ← isSome_constructRows rows]
    cases construct known key <;> cases construct known value <;>
      cases constructRows known rows <;> simp

end

end TagTree

end Machinery
