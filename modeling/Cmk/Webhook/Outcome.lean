import Cmk.Webhook.Required
import Cmk.Webhook.Server

/-!
# Webhook/Outcome — what becomes of a review

Which reviews `mutate` answers, which it refuses and which it stumbles over, told from the review
and the mutations alone.  A loop over the containers ends at the first that stops it, so what comes
behind that does not matter (`UpTo`).
-/

open Machinery Machinery.JsonValue

namespace Cmk

/-! ## Loops that end early -/

/-- All that come up to the first at which the loop stops are good, that one included. -/
def UpTo {α : Type} (stops good : α → Prop) : List α → Prop
  | [] => True
  | x :: xs => good x ∧ (¬ stops x → UpTo stops good xs)

section UpTo

variable {α : Type} {stops stops' good good' : α → Prop} {xs : List α}

theorem upTo_of_forall (h : ∀ x ∈ xs, good x) : UpTo stops good xs := by
  induction xs with
  | nil => trivial
  | cons x xs ih =>
    obtain ⟨hx, hrest⟩ := List.forall_mem_cons.mp h
    exact ⟨hx, fun _ => ih hrest⟩

/-- A loop that does not stop where it is good goes over all. -/
theorem forall_of_upTo (h : UpTo stops good xs) (hstops : ∀ x, good x → ¬ stops x) :
    ∀ x ∈ xs, good x := by
  induction xs with
  | nil => simp
  | cons x xs ih => exact List.forall_mem_cons.mpr ⟨h.1, ih (h.2 (hstops x h.1))⟩

/-- Where it stops only matters if it is good there. -/
theorem upTo_congr (hgood : ∀ x ∈ xs, (good x ↔ good' x))
    (hstops : ∀ x ∈ xs, good x → (stops x ↔ stops' x)) :
    UpTo stops good xs ↔ UpTo stops' good' xs := by
  induction xs with
  | nil => rfl
  | cons x xs ih =>
    obtain ⟨hx, hrest⟩ := List.forall_mem_cons.mp hgood
    obtain ⟨hsx, hsrest⟩ := List.forall_mem_cons.mp hstops
    rw [UpTo, UpTo, ih hrest hsrest]
    constructor
    · exact fun ⟨hg, h⟩ => ⟨hx.mp hg, fun hno => h fun hs => hno ((hsx hg).mp hs)⟩
    · exact fun ⟨hg, h⟩ => ⟨hx.mpr hg, fun hno => h fun hs => hno ((hsx (hx.mpr hg)).mpr hs)⟩

end UpTo

/-! ## How a computation ends -/

section Ends

variable {α β : Type} {x : Except PyErr α} {f : α → Except PyErr β} {a : α} {e : PyErr}

/-- It raises what `do_POST` does not catch. -/
def Uncaught (x : Except PyErr α) : Prop := ∃ e, x = .error e ∧ isCaught e = false

/-- It raises what `do_POST` catches. -/
def Caught (x : Except PyErr α) : Prop := ∃ e, x = .error e ∧ isCaught e = true

@[simp] theorem uncaught_ok : ¬ Uncaught (.ok a : Except PyErr α) := by
  rintro ⟨e, ⟨⟩, -⟩

@[simp] theorem caught_ok : ¬ Caught (.ok a : Except PyErr α) := by
  rintro ⟨e, ⟨⟩, -⟩

@[simp] theorem uncaught_error : Uncaught (.error e : Except PyErr α) ↔ isCaught e = false := by
  simp [Uncaught]

@[simp] theorem caught_error : Caught (.error e : Except PyErr α) ↔ isCaught e = true := by
  simp [Caught]

theorem uncaught_bind : Uncaught (x >>= f) ↔ Uncaught x ∨ ∃ a, x = .ok a ∧ Uncaught (f a) := by
  cases x <;> simp [bind, Except.bind]

theorem caught_bind : Caught (x >>= f) ↔ Caught x ∨ ∃ a, x = .ok a ∧ Caught (f a) := by
  cases x <;> simp [bind, Except.bind]

/-- What raises nothing that is caught returns, or raises what is not. -/
theorem uncaught_iff_not_isOk (h : ¬ Caught x) : Uncaught x ↔ ¬ IsOk x := by
  cases x with
  | ok a => simp [IsOk]
  | error e =>
    rw [caught_error, Bool.not_eq_true] at h
    simp [IsOk, h]

theorem isOk_iff : IsOk x ↔ ¬ Uncaught x ∧ ¬ Caught x := by
  cases x with
  | ok a => simp [IsOk]
  | error e => cases h : isCaught e <;> simp [IsOk, h]

theorem not_isOk_error : ¬ IsOk (.error e : Except PyErr α) := by
  rintro ⟨a, ⟨⟩⟩

/-- It raises a `KeyError`. -/
def MissesKey (x : Except PyErr α) : Prop := ∃ text, x = .error (.keyError text)

@[simp] theorem missesKey_ok : ¬ MissesKey (.ok a : Except PyErr α) := by
  rintro ⟨text, ⟨⟩⟩

@[simp] theorem missesKey_error :
    MissesKey (.error e : Except PyErr α) ↔ ∃ text, e = .keyError text := by
  simp [MissesKey]

theorem not_caught_bind (hx : ¬ Caught x) (hf : ∀ a, x = .ok a → ¬ Caught (f a)) :
    ¬ Caught (x >>= f) := by
  rw [caught_bind]
  rintro (h | ⟨a, ha, h⟩)
  · exact hx h
  · exact hf a ha h

end Ends

variable {container pod review item : JsonValue} {key part er : String} {items : List JsonValue}

theorem itemAt_eq_ok {x v : JsonValue} : itemAt x key = .ok v ↔ x.member? key = some v := by
  refine ⟨fun h => ?_, itemAt_of_member?⟩
  by_cases hdict : IsDict x
  · rw [itemAt_eq hdict] at h
    cases hv : x.member? key with
    | none => rw [hv] at h; cases h
    | some v' => rw [hv] at h; exact congrArg some (Except.ok.inj h)
  · rw [itemAt_of_not_isDict hdict] at h
    cases h

theorem not_caught_itemAt (x : JsonValue) (key : String) : ¬ Caught (itemAt x key) := by
  cases x with
  | obj members =>
    rw [itemAt]
    cases (JsonValue.obj members).member? key <;> simp [isCaught]
  | _ => simp [itemAt, isCaught]

theorem not_caught_exceptKeyError {α : Type} {x y : Except PyErr α} (hx : ¬ Caught x)
    (hy : ¬ Caught y) : ¬ Caught (exceptKeyError x y) := by
  cases x with
  | ok a => exact hx
  | error e => cases e <;> assumption

/-! ## The decision -/

/-- An amount that is not null. -/
def AsksAt (container : JsonValue) (place : String × String) : Prop :=
  ∃ amount, container.get? ["resources", place.1, place.2] = some amount ∧ isNone amount = false

/-- The parts for the one name, then for the other. -/
def askedPlaces : List (String × String) :=
  cmkErName.flatMap fun er => [("requests", er), ("limits", er)]

/-- A container that has an amount of one of the resources. -/
def HasAmount (container : JsonValue) : Prop := ∃ place ∈ askedPlaces, AsksAt container place

/-- The parts can be looked into up to the first amount. -/
def CanDecide (container : JsonValue) : Prop :=
  UpTo (AsksAt container) (fun place => Lookable container "resources" place.1) askedPlaces

theorem not_caught_resourceAt (container : JsonValue) (part er : String) :
    ¬ Caught (resourceAt container part er) :=
  not_caught_bind (not_caught_itemAt _ _) fun _ _ =>
    not_caught_bind (not_caught_itemAt _ _) fun _ _ => not_caught_itemAt _ _

theorem not_caught_asksFor (container : JsonValue) (places : List (String × String)) :
    ¬ Caught (asksFor container places) := by
  induction places with
  | nil => exact caught_ok
  | cons place places ih =>
    refine not_caught_bind (not_caught_exceptKeyError (not_caught_resourceAt _ _ _) caught_ok)
      fun amount _ => ?_
    split_ifs
    · exact ih
    · exact caught_ok

theorem resourceAt_of_lookable (h : Lookable container "resources" part) (er : String) :
    resourceAt container part er =
      (container.get? ["resources", part, er]).elim (.error (.keyError none)) .ok :=
  itemAt_of_lookable h er

theorem resourceAt_of_not_lookable (h : ¬ Lookable container "resources" part) (er : String) :
    resourceAt container part er = .error .typeError := itemAt_of_not_lookable h er

/-- **A container is asked** as far as its parts can be looked into. -/
theorem asksFor_cases (container : JsonValue) (places : List (String × String)) :
    (IsOk (asksFor container places) ↔
      UpTo (AsksAt container) (fun place => Lookable container "resources" place.1) places) ∧
    ∀ b, asksFor container places = .ok b →
      (b = true ↔ ∃ place ∈ places, AsksAt container place) := by
  induction places with
  | nil => exact ⟨iff_of_true ⟨_, rfl⟩ trivial, fun b hb => by cases hb; simp⟩
  | cons place places ih =>
    rw [asksFor, UpTo, List.exists_mem_cons_iff]
    by_cases hlook : Lookable container "resources" place.1
    · rw [resourceAt_of_lookable hlook, and_iff_right hlook, AsksAt]
      cases hget : container.get? ["resources", place.1, place.2] with
      | none => simpa [exceptKeyError, isNone, bind, Except.bind] using ih
      | some amount =>
        cases hnull : isNone amount with
        | true => simpa [exceptKeyError, hnull, bind, Except.bind] using ih
        | false => simp [exceptKeyError, hnull, bind, Except.bind, IsOk]
    · rw [resourceAt_of_not_lookable hlook]
      refine ⟨iff_of_false ?_ fun h => hlook h.1, fun b hb => by cases hb⟩
      rintro ⟨b, ⟨⟩⟩

theorem not_caught_isContainerMutationRequired (container : JsonValue) :
    ¬ Caught (isContainerMutationRequired container) := not_caught_asksFor container _

theorem not_caught_anyRequired (items : List JsonValue) : ¬ Caught (anyRequired items) := by
  induction items with
  | nil => exact caught_ok
  | cons item items ih =>
    refine not_caught_bind (not_caught_isContainerMutationRequired item) fun asked _ => ?_
    split_ifs
    · exact caught_ok
    · exact ih

/-- **The containers are asked** up to the first that asks for some. -/
theorem anyRequired_cases (items : List JsonValue) :
    (IsOk (anyRequired items) ↔ UpTo HasAmount CanDecide items) ∧
    ∀ b, anyRequired items = .ok b → (b = true ↔ ∃ item ∈ items, HasAmount item) := by
  induction items with
  | nil => exact ⟨iff_of_true ⟨_, rfl⟩ trivial, fun b hb => by cases hb; simp⟩
  | cons item items ih =>
    obtain ⟨hok, hasks⟩ := asksFor_cases item askedPlaces
    rw [anyRequired, UpTo, List.exists_mem_cons_iff, CanDecide, ← hok,
      show asksFor item askedPlaces = isContainerMutationRequired item from rfl]
    cases hrun : isContainerMutationRequired item with
    | error e =>
      refine ⟨iff_of_false ?_ fun h => ?_, fun b hb => by cases hb⟩
      · rintro ⟨b, ⟨⟩⟩
      · obtain ⟨b, ⟨⟩⟩ := h.1
    | ok asked =>
      have hamount : asked = true ↔ HasAmount item := hasks asked hrun
      have hreturns : IsOk (Except.ok asked : Except PyErr Bool) := ⟨asked, rfl⟩
      rw [← hamount, and_iff_right hreturns]
      cases asked with
      | true => exact ⟨iff_of_true ⟨true, rfl⟩ fun h => absurd rfl h, fun b hb => by cases hb; simp⟩
      | false => simpa [bind, Except.bind] using ih

/-- The annotation can be looked for. -/
def CanAnnotate (pod : JsonValue) : Prop := Lookable pod "metadata" "annotations"

theorem isAnnotated_cases (pod : JsonValue) : ¬ Caught (isAnnotated pod) ∧
    (IsOk (isAnnotated pod) ↔ CanAnnotate pod) ∧
    ∀ b, isAnnotated pod = .ok b → (b = true ↔ Annotated pod) := by
  have hrun : isAnnotated pod = exceptKeyError ((do
      let metadata ← itemAt pod "metadata"
      let annotations ← itemAt metadata "annotations"
      itemAt annotations cmkMutateAnnotation) >>= fun value =>
        .ok (["true", "True", "1"].any fun text => isText text value)) (.ok false) := by
    simp only [isAnnotated, bind_assoc]
    rfl
  rw [hrun]
  by_cases hlook : Lookable pod "metadata" "annotations"
  · rw [itemAt_of_lookable hlook, Annotated]
    cases pod.get? ["metadata", "annotations", cmkMutateAnnotation] with
    | none => simp [exceptKeyError, bind, Except.bind, IsOk, CanAnnotate, hlook]
    | some value => simp [exceptKeyError, bind, Except.bind, IsOk, CanAnnotate, hlook, isText_iff]
  · rw [itemAt_of_not_lookable hlook]
    simp [exceptKeyError, bind, Except.bind, IsOk, CanAnnotate, hlook, isCaught]

/-- **The decision comes to an end**: there is something to go over, and what it looks at on the
way are dictionaries. -/
structure IsDecided (pod : JsonValue) (items : List JsonValue) : Prop where
  listed : ∃ listed, pod.get? ["spec", "containers"] = some listed ∧ itemsOf listed = .ok items
  upTo : UpTo HasAmount CanDecide items
  annotation : (∀ item ∈ items, ¬ HasAmount item) → CanAnnotate pod

theorem IsDecided.unique {items' : List JsonValue} (h : IsDecided pod items)
    (h' : IsDecided pod items') : items = items' := by
  obtain ⟨listed, hlisted, hitems⟩ := h.listed
  obtain ⟨listed', hlisted', hitems'⟩ := h'.listed
  obtain rfl := Option.some.inj (hlisted.symm.trans hlisted')
  exact Except.ok.inj (hitems.symm.trans hitems')

/-- A container asks, or the annotation is there. -/
def Required (pod : JsonValue) (items : List JsonValue) : Prop :=
  (∃ item ∈ items, HasAmount item) ∨ Annotated pod

theorem not_caught_itemsOf (x : JsonValue) : ¬ Caught (itemsOf x) := by
  cases x <;> simp [itemsOf, isCaught]

theorem not_caught_isMutationRequired (pod : JsonValue) : ¬ Caught (isMutationRequired pod) := by
  refine not_caught_bind (not_caught_itemAt _ _) fun spec _ => not_caught_bind
    (not_caught_bind (not_caught_itemAt _ _) fun listed _ => not_caught_itemsOf listed)
    fun items _ => not_caught_bind (not_caught_anyRequired items) fun asked _ => ?_
  split_ifs
  · exact caught_ok
  · exact (isAnnotated_cases pod).1

theorem IsDecided.run (h : IsDecided pod items) :
    ∃ b, isMutationRequired pod = .ok b ∧ (b = true ↔ Required pod items) := by
  obtain ⟨listed, hlisted, hitems⟩ := h.listed
  obtain ⟨hok, hasks⟩ := anyRequired_cases items
  obtain ⟨asked, hasked⟩ := hok.mpr h.upTo
  rw [isMutationRequired_of_items hlisted hitems, hasked, Required, ← hasks asked hasked]
  cases asked with
  | true => exact ⟨true, rfl, iff_of_true rfl (.inl rfl)⟩
  | false =>
    obtain ⟨-, hannotated, hiff⟩ := isAnnotated_cases pod
    have hno : ∀ item ∈ items, ¬ HasAmount item := fun item hmem hamount => by
      cases (hasks false hasked).mpr ⟨item, hmem, hamount⟩
    obtain ⟨b, hb⟩ := hannotated.mpr (h.annotation hno)
    exact ⟨b, hb, (hiff b hb).trans (by simp)⟩

/-- **The decision returns** exactly when it comes to an end. -/
theorem isOk_isMutationRequired :
    IsOk (isMutationRequired pod) ↔ ∃ items, IsDecided pod items := by
  refine ⟨fun h => ?_, fun ⟨items, h⟩ => h.run.imp fun b hb => hb.1⟩
  obtain ⟨spec, hspec, h⟩ := isOk_bind.mp h
  obtain ⟨items, hitems, h⟩ := isOk_bind.mp h
  obtain ⟨listed, hlisted, hitems⟩ := bind_eq_ok.mp hitems
  obtain ⟨asked, hasked, h⟩ := isOk_bind.mp h
  obtain ⟨hok, hasks⟩ := anyRequired_cases items
  refine ⟨items, ⟨listed, ?_, hitems⟩, hok.mp ⟨asked, hasked⟩, fun hno => ?_⟩
  · rw [get?, itemAt_eq_ok.mp hspec, Option.bind_some, get?_singleton, itemAt_eq_ok.mp hlisted]
  · have hfalse : asked ≠ true := fun htrue => by
      obtain ⟨item, hmem, hamount⟩ := (hasks asked hasked).mp htrue
      exact hno item hmem hamount
    rw [if_neg hfalse] at h
    exact (isAnnotated_cases pod).2.1.mp h

/-! ## A container -/

/-- The quantity of a resource can be read: what it does not request is logged with its name. -/
def CanCount (container : JsonValue) (er : String) : Prop :=
  Lookable container "resources" "requests" ∧
    (container.get? ["resources", "requests", er] = none →
      (container.member? "name").isSome ∧ Lookable container "resources" "limits")

/-- There is a quantity of the resource. -/
def Counts (container : JsonValue) (er : String) : Prop :=
  ∃ amount, amountOf container er = some amount ∧ isNone amount = false

/-- What is read of one resource. -/
theorem amount_cases (container : JsonValue) (er : String) :
    CanCount container er ∧ exceptKeyError (resourceAt container "requests" er) (do
        let _ ← itemAt container "name"
        exceptKeyError (resourceAt container "limits" er) (do
          let _ ← itemAt container "name"
          return .null)) = .ok ((amountOf container er).getD .null) ∨
      ¬ CanCount container er ∧ ∃ e, isCaught e = false ∧
        ((∃ text, e = .keyError text) ↔
          Lookable container "resources" "requests" ∧ container.member? "name" = none) ∧
        exceptKeyError (resourceAt container "requests" er) (do
          let _ ← itemAt container "name"
          exceptKeyError (resourceAt container "limits" er) (do
            let _ ← itemAt container "name"
            return .null)) = .error e := by
  by_cases hrequests : Lookable container "resources" "requests"
  · rw [resourceAt_of_lookable hrequests, amountOf, CanCount]
    cases hreq : container.get? ["resources", "requests", er] with
    | some v => exact .inl ⟨⟨hrequests, fun h => by cases h⟩, rfl⟩
    | none =>
      rw [itemAt_eq hrequests.1]
      cases hname : container.member? "name" with
      | none =>
        refine .inr ⟨fun h => ?_, .keyError none, rfl, ?_, rfl⟩
        · cases (h.2 rfl).1
        · exact iff_of_true ⟨none, rfl⟩ ⟨hrequests, rfl⟩
      | some name =>
        by_cases hlimits : Lookable container "resources" "limits"
        · rw [resourceAt_of_lookable hlimits]
          refine .inl ⟨⟨hrequests, fun _ => ⟨rfl, hlimits⟩⟩, ?_⟩
          cases container.get? ["resources", "limits", er] <;> rfl
        · rw [resourceAt_of_not_lookable hlimits]
          refine .inr ⟨fun h => hlimits (h.2 rfl).2, .typeError, rfl, ?_, rfl⟩
          exact iff_of_false (by rintro ⟨text, ⟨⟩⟩) (by rintro ⟨-, ⟨⟩⟩)
  · rw [resourceAt_of_not_lookable hrequests]
    refine .inr ⟨fun h => hrequests h.1, .typeError, rfl, ?_, rfl⟩
    exact iff_of_false (by rintro ⟨text, ⟨⟩⟩) fun h => hrequests h.1

/-- **The number of cores is read** up to the first resource with a quantity. -/
theorem numCores_cases (container : JsonValue) (ers : List String) :
    ¬ Caught (numCores container ers) ∧
    (IsOk (numCores container ers) ↔ UpTo (Counts container) (CanCount container) ers) ∧
    (∀ amount, numCores container ers = .ok amount →
      (isNone amount = false ↔ ∃ er ∈ ers, Counts container er)) ∧
    (MissesKey (numCores container ers) ↔ ¬ UpTo (Counts container) (CanCount container) ers ∧
      Lookable container "resources" "requests" ∧ container.member? "name" = none) := by
  induction ers with
  | nil =>
    refine ⟨caught_ok, iff_of_true ⟨_, rfl⟩ trivial, fun amount h => ?_, ?_⟩
    · cases h
      simp [isNone]
    · exact iff_of_false missesKey_ok fun h => h.1 trivial
  | cons er ers ih =>
    rw [UpTo, List.exists_mem_cons_iff]
    rcases amount_cases container er with ⟨hcan, hstep⟩ | ⟨hcannot, e, hcaught, hkey, hstep⟩
    · rw [and_iff_right hcan]
      cases hnull : isNone ((amountOf container er).getD .null) with
      | true =>
        have hrun : numCores container (er :: ers) = numCores container ers := by
          rw [numCores, hstep]
          simp [bind, Except.bind, hnull]
        have hno : ¬ Counts container er := by
          rintro ⟨amount, hamount, hnot⟩
          rw [hamount, Option.getD_some, hnot] at hnull
          cases hnull
        simpa [hrun, hno] using ih
      | false =>
        have hrun : numCores container (er :: ers) = .ok ((amountOf container er).getD .null) := by
          rw [numCores, hstep]
          simp [bind, Except.bind, hnull]
        have hcounts : Counts container er := by
          cases hamount : amountOf container er with
          | none => rw [hamount] at hnull; cases hnull
          | some amount => exact ⟨amount, hamount, by rwa [hamount] at hnull⟩
        rw [hrun]
        refine ⟨caught_ok, iff_of_true ⟨_, rfl⟩ fun h => absurd hcounts h, fun amount h => ?_,
          iff_of_false missesKey_ok fun h => h.1 fun h => absurd hcounts h⟩
        obtain rfl := Except.ok.inj h
        exact iff_of_true hnull (.inl hcounts)
    · have hrun : numCores container (er :: ers) = .error e := by
        rw [numCores, hstep]
        rfl
      have hfails : ¬ (CanCount container er ∧ (¬ Counts container er →
          UpTo (Counts container) (CanCount container) ers)) := fun h => hcannot h.1
      rw [hrun, and_iff_right hfails, ← hkey]
      refine ⟨by simp [hcaught], iff_of_false not_isOk_error hfails, ?_, missesKey_error⟩
      rintro amount ⟨⟩

/-- Up to the first entry that is not named, no dictionary lacks a name. -/
def NameUpTo (entries : List JsonValue) : Prop :=
  UpTo (fun entry => ¬ IsNamed entry) (fun entry => IsDict entry → (entry.member? "name").isSome)
    entries

/-- **The names are read** up to the first entry that has none. -/
theorem envNames_cases (entries : List JsonValue) : ¬ Caught (envNames entries) ∧
    (IsOk (envNames entries) ↔ ∀ entry ∈ entries, IsNamed entry) ∧
    (MissesKey (envNames entries) ↔ ¬ NameUpTo entries) := by
  induction entries with
  | nil =>
    exact ⟨caught_ok, iff_of_true ⟨[], rfl⟩ (by simp), iff_of_false missesKey_ok fun h => h trivial⟩
  | cons entry entries ih =>
    rw [NameUpTo, UpTo, List.forall_mem_cons, ← NameUpTo]
    by_cases hdict : IsDict entry
    · cases hname : entry.member? "name" with
      | none =>
        have hrun : envNames (entry :: entries) = .error (.keyError none) := by
          rw [envNames, itemAt_eq hdict, hname]
          rfl
        have hno : ¬ IsNamed entry := fun h => by
          have hsome := h.name
          rw [hname] at hsome
          cases hsome
        rw [hrun]
        refine ⟨by simp [isCaught], iff_of_false ?_ fun h => hno h.1,
          iff_of_true ⟨none, rfl⟩ fun h => by cases h.1 hdict⟩
        rintro ⟨names, ⟨⟩⟩
      | some name =>
        have hrun : envNames (entry :: entries) = (envNames entries).map (name :: ·) := by
          rw [envNames, itemAt_of_member? hname]
          cases hrest : envNames entries <;> rfl
        have hnamed : IsNamed entry := ⟨hdict, by rw [hname]; rfl⟩
        rw [hrun]
        cases hrest : envNames entries with
        | ok names =>
          rw [hrest] at ih
          simpa [Except.map, hnamed, IsOk] using ih
        | error e =>
          rw [hrest] at ih
          simpa [Except.map, hnamed, IsOk] using ih
    · have hrun : envNames (entry :: entries) = .error .typeError := by
        rw [envNames, itemAt_of_not_isDict hdict]
        rfl
      have hno : ¬ IsNamed entry := fun h => hdict h.dict
      rw [hrun]
      refine ⟨by simp [isCaught], iff_of_false ?_ fun h => hno h.1, ?_⟩
      · rintro ⟨names, ⟨⟩⟩
      · simp [hdict, hno]

/-- Text and dictionaries are gone over too, but nothing can be appended to them. -/
theorem injectEnv_of_not_arr {env : JsonValue} (henv : container.member? "env" = some env)
    (harr : ∀ entries, env ≠ .arr entries) (name : String) (value : JsonValue) :
    ∃ e, (injectEnv container name value).1 = .error e ∧ isCaught e = false ∧
      ∀ text, e ≠ .keyError text := by
  have hread : exceptKeyError ((itemAt container "env").map some) (.ok none) = .ok (some env) := by
    rw [itemAt_of_member? henv]
    rfl
  rw [injectEnv, hread]
  cases env with
  | arr entries => exact absurd rfl (harr entries)
  | obj members =>
    cases members with
    | nil => exact ⟨.attributeError, rfl, rfl, fun text h => by cases h⟩
    | cons m members => exact ⟨.typeError, rfl, rfl, fun text h => by cases h⟩
  | str text =>
    cases htext : text.toList with
    | nil =>
      refine ⟨.attributeError, ?_, rfl, fun text h => by cases h⟩
      simp [itemsOf, htext, bind, Except.bind, envNames, appendEnv]
    | cons c cs =>
      refine ⟨.typeError, ?_, rfl, fun text h => by cases h⟩
      simp [itemsOf, htext, bind, Except.bind, envNames, itemAt]
  | _ => exact ⟨.typeError, rfl, rfl, fun text h => by cases h⟩

/-- **A variable is added** where the environment is one, if there is one. -/
theorem injectEnv_cases (hc : IsDict container) (name : String) (value : JsonValue) :
    ¬ Caught (injectEnv container name value).1 ∧
    (IsOk (injectEnv container name value).1 ↔ IfThere container "env" IsEnv) ∧
    (MissesKey (injectEnv container name value).1 ↔
      ∃ entries, container.member? "env" = some (.arr entries) ∧ ¬ NameUpTo entries) := by
  obtain ⟨members, rfl⟩ := hc
  cases henv : (JsonValue.obj members).member? "env" with
  | none =>
    have hrun : (injectEnv (.obj members) name value).1 = .ok () := by
      rw [injectEnv, itemAt_eq ⟨members, rfl⟩, henv]
      rfl
    rw [hrun]
    refine ⟨caught_ok, iff_of_true ⟨(), rfl⟩ fun env h => ?_, iff_of_false missesKey_ok ?_⟩
    · rw [henv] at h
      cases h
    · rintro ⟨entries, ⟨⟩, -⟩
  | some env =>
    by_cases harr : ∃ entries, env = .arr entries
    · obtain ⟨entries, rfl⟩ := harr
      have hread : itemsOf (.arr entries) >>= envNames = envNames entries := rfl
      have hthere : IfThere (.obj members) "env" IsEnv ↔ ∀ entry ∈ entries, IsNamed entry := by
        constructor
        · intro h
          obtain ⟨entries', heq, hnamed⟩ := h _ henv
          exact JsonValue.arr.inj heq ▸ hnamed
        · intro h env' henv'
          obtain rfl := Option.some.inj (henv.symm.trans henv')
          exact ⟨entries, rfl, h⟩
      have hmisses : (∃ entries', some (JsonValue.arr entries) = some (.arr entries') ∧
          ¬ NameUpTo entries') ↔ ¬ NameUpTo entries := by simp
      obtain ⟨hcaught, hok, hkey⟩ := envNames_cases entries
      rw [injectEnv, itemAt_of_member? henv, hthere, ← hok, hmisses, ← hkey]
      simp only [Except.map, exceptKeyError, hread]
      cases hnames : envNames entries with
      | error e =>
        rw [hnames, caught_error] at hcaught
        exact ⟨by simp [hcaught], by simp [IsOk], by simp⟩
      | ok names =>
        have hdone : (if names.any (isText name) then (.ok (), .obj members)
            else appendEnv (.obj members) (.arr entries) (envEntry name value) :
              ContainerStep).1 = .ok () := by
          split_ifs <;> rfl
        rw [hdone]
        exact ⟨caught_ok, by simp [IsOk], by simp⟩
    · have hno : ∀ entries, env ≠ .arr entries := fun entries h => harr ⟨entries, h⟩
      obtain ⟨e, hrun, hcaught, hkey⟩ := injectEnv_of_not_arr henv hno name value
      rw [hrun]
      refine ⟨by simp [hcaught], iff_of_false not_isOk_error fun h => ?_, iff_of_false ?_ ?_⟩
      · obtain ⟨entries, heq, -⟩ := h env henv
        exact hno entries heq
      · rw [missesKey_error]
        rintro ⟨text, h⟩
        exact hkey text h
      · rintro ⟨entries, heq, -⟩
        exact hno entries (Option.some.inj heq)

/-- A merged container can be told its number of cores. -/
structure CanTell (container : JsonValue) : Prop where
  counts : UpTo (Counts container) (CanCount container) cmkErName
  env : (∃ er ∈ cmkErName, Counts container er) → IfThere container "env" IsEnv

/-- What a merged container lacks is a key: its name, or that of an entry of its environment. -/
def LacksKey (container : JsonValue) : Prop :=
  (¬ UpTo (Counts container) (CanCount container) cmkErName ∧
    Lookable container "resources" "requests" ∧ container.member? "name" = none) ∨
  UpTo (Counts container) (CanCount container) cmkErName ∧
    (∃ er ∈ cmkErName, Counts container er) ∧
      ∃ entries, container.member? "env" = some (.arr entries) ∧ ¬ NameUpTo entries

variable {merge : Merge} {file : Option JsonValue} {mutations : List (String × JsonValue)}
  {containers : List JsonValue}

/-- What the mutations have for containers. -/
def perContainerOf (mutations : List (String × JsonValue)) : JsonValue :=
  ((JsonValue.obj mutations).member? "perContainer").getD (.obj [])

/-- **A container is mutated** if the mutations merge into it and it can be told then. -/
theorem mutateContainer_cases (hfile : loadMutations file = .ok (.obj mutations))
    (container : JsonValue) :
    mergeInPlace merge container (perContainerOf mutations) = none ∧
        (mutateContainer merge file container).1 = .error .mutationError ∨
      ∃ merged, mergeInPlace merge container (perContainerOf mutations) = some merged ∧
        ¬ Caught (mutateContainer merge file container).1 ∧
        (IsOk (mutateContainer merge file container).1 ↔ CanTell merged) ∧
        (MissesKey (mutateContainer merge file container).1 ↔ LacksKey merged) := by
  have hread : getOr (.obj mutations) "perContainer" (.obj []) = .ok (perContainerOf mutations) :=
    rfl
  rw [mutateContainer, hfile]
  dsimp only
  rw [applyMutation, hread]
  dsimp only
  cases hmerged : mergeInPlace merge container (perContainerOf mutations) with
  | none => exact .inl ⟨rfl, rfl⟩
  | some merged =>
    obtain ⟨hcaught, hok, hcounts, hkey⟩ := numCores_cases merged cmkErName
    refine .inr ⟨merged, rfl, ?_⟩
    dsimp only
    cases hamount : numCores merged cmkErName with
    | error e =>
      rw [hamount, caught_error] at hcaught
      rw [hamount] at hok
      rw [hamount, missesKey_error] at hkey
      have hno : ¬ UpTo (Counts merged) (CanCount merged) cmkErName := fun h =>
        not_isOk_error (hok.mpr h)
      dsimp only
      refine ⟨by simp [hcaught], iff_of_false not_isOk_error fun h => hno h.counts,
        missesKey_error.trans (hkey.trans ?_)⟩
      exact (or_iff_left fun h => hno h.1).symm
    | ok amount =>
      rw [hamount] at hok
      have hupTo := hok.mp ⟨amount, rfl⟩
      have hcounts := hcounts amount hamount
      dsimp only
      cases hnull : isNone amount with
      | true =>
        have hno : ¬ ∃ er ∈ cmkErName, Counts merged er := fun h => by
          rw [hcounts.mpr h] at hnull
          cases hnull
        exact ⟨caught_ok, iff_of_true ⟨(), rfl⟩ ⟨hupTo, fun h => absurd h hno⟩,
          iff_of_false missesKey_ok fun h => h.elim (fun h => h.1 hupTo) fun h => hno h.2.1⟩
      | false =>
        have hthere := hcounts.mp hnull
        have hdict : IsDict merged := by
          obtain ⟨er, -, count, hcount, -⟩ := hthere
          rcases Option.or_eq_some_iff.mp hcount with h | ⟨-, h⟩
          · exact isDict_of_get? h
          · exact isDict_of_get? h
        obtain ⟨hcaught, hok, hkey⟩ := injectEnv_cases hdict envNumCores amount
        refine ⟨hcaught, hok.trans ⟨fun h => ⟨hupTo, fun _ => h⟩, fun h => h.env hthere⟩,
          hkey.trans ⟨fun h => .inr ⟨hupTo, hthere, h⟩, fun h => ?_⟩⟩
        exact h.elim (fun h => absurd hupTo h.1) fun h => h.2.2

/-! ## The loops over the containers -/

/-- The mutations merge into a container. -/
def Merges (merge : Merge) (mutations : List (String × JsonValue)) (container : JsonValue) : Prop :=
  mergeInPlace merge container (perContainerOf mutations) ≠ none

/-- They do, and the container can be told then. -/
def IsTold (merge : Merge) (mutations : List (String × JsonValue)) (container : JsonValue) : Prop :=
  ∃ merged, mergeInPlace merge container (perContainerOf mutations) = some merged ∧ CanTell merged

/-- **The rounds of a loop**, which ends with the first container that is not told. -/
def Rounds (merge : Merge) (mutations : List (String × JsonValue)) (good : JsonValue → Prop)
    (containers : List JsonValue) : Prop :=
  UpTo (fun container => ¬ IsTold merge mutations container)
    (fun container => ∀ merged,
      mergeInPlace merge container (perContainerOf mutations) = some merged → good merged)
    containers

/-- The mutations merge into the containers of the rounds. -/
def RoundsMerge (merge : Merge) (mutations : List (String × JsonValue))
    (containers : List JsonValue) : Prop :=
  UpTo (fun container => ¬ IsTold merge mutations container) (Merges merge mutations) containers

theorem mutateAll_error_iff (P : PyErr → Prop) (containers : List JsonValue) :
    (∃ e, (mutateAll merge file containers).1 = .error e ∧ P e) ↔
      ¬ UpTo (fun container => ¬ IsOk (mutateContainer merge file container).1)
        (fun container => ∀ e, (mutateContainer merge file container).1 = .error e → ¬ P e)
        containers := by
  induction containers with
  | nil => exact iff_of_false (by rintro ⟨e, ⟨⟩, -⟩) fun h => h trivial
  | cons container containers ih =>
    rw [UpTo, mutateAll]
    obtain ⟨outcome, after⟩ := mutateContainer merge file container
    cases outcome with
    | error e =>
      simp only [Except.error.injEq, exists_eq_left', forall_eq']
      constructor
      · exact fun hP h => h.1 hP
      · intro h
        by_contra hP
        exact h ⟨hP, fun hok => absurd not_isOk_error hok⟩
    | ok u =>
      have hreturns : IsOk (Except.ok u : Except PyErr Unit) := ⟨u, rfl⟩
      rw [ih]
      simp [hreturns]

theorem isOk_iff_isTold (hfile : loadMutations file = .ok (.obj mutations))
    (container : JsonValue) : IsOk (mutateContainer merge file container).1 ↔
      IsTold merge mutations container := by
  rcases mutateContainer_cases hfile container with ⟨hnone, hrun⟩ | ⟨merged, hmerged, -, hok, -⟩
  · rw [hrun]
    refine iff_of_false not_isOk_error ?_
    rintro ⟨merged, hmerged, -⟩
    rw [hnone] at hmerged
    cases hmerged
  · rw [hok]
    refine ⟨fun h => ⟨merged, hmerged, h⟩, ?_⟩
    rintro ⟨merged', hmerged', h⟩
    exact Option.some.inj (hmerged.symm.trans hmerged') ▸ h

theorem caught_iff_not_merges (hfile : loadMutations file = .ok (.obj mutations))
    (container : JsonValue) : (∀ e, (mutateContainer merge file container).1 = .error e →
      ¬ isCaught e = true) ↔ Merges merge mutations container := by
  rcases mutateContainer_cases hfile container with ⟨hnone, hrun⟩ | ⟨merged, hmerged, hno, -⟩
  · rw [hrun]
    exact iff_of_false (fun h => h _ rfl rfl) fun h => h hnone
  · refine iff_of_true (fun e he hcaught => hno ⟨e, he, hcaught⟩) ?_
    rw [Merges, hmerged]
    exact Option.some_ne_none merged

/-- What is not caught of a round, but for a `KeyError` where that ends the loop. -/
theorem uncaught_iff_not_good (hfile : loadMutations file = .ok (.obj mutations))
    (container : JsonValue) (ends : Prop) :
    (∀ e, (mutateContainer merge file container).1 = .error e →
        ¬ (isCaught e = false ∧ ¬ (ends ∧ ∃ text, e = .keyError text))) ↔
      ∀ merged, mergeInPlace merge container (perContainerOf mutations) = some merged →
        CanTell merged ∨ ends ∧ LacksKey merged := by
  rcases mutateContainer_cases hfile container with ⟨hnone, hrun⟩ |
    ⟨merged, hmerged, hno, hok, hkey⟩
  · rw [hrun, hnone]
    refine iff_of_true (fun e he h => ?_) fun merged h => by cases h
    cases he
    cases h.1
  · rw [hmerged]
    simp only [Option.some.injEq, forall_eq']
    rw [← hok, ← hkey]
    cases hrun : (mutateContainer merge file container).1 with
    | ok u => exact iff_of_true (fun e he => by cases he) (.inl ⟨u, rfl⟩)
    | error e =>
      rw [hrun, caught_error, Bool.not_eq_true] at hno
      rw [or_iff_right not_isOk_error, missesKey_error]
      simp [hno]

/-- **How a loop over containers ends.** -/
theorem mutateAll_cases (hfile : loadMutations file = .ok (.obj mutations))
    (containers : List JsonValue) :
    (IsOk (mutateAll merge file containers).1 ↔
      ∀ container ∈ containers, IsTold merge mutations container) ∧
    (Caught (mutateAll merge file containers).1 ↔ ¬ RoundsMerge merge mutations containers) ∧
    ∀ ends : Prop, (∃ e, (mutateAll merge file containers).1 = .error e ∧
        (isCaught e = false ∧ ¬ (ends ∧ ∃ text, e = .keyError text))) ↔
      ¬ Rounds merge mutations (fun merged => CanTell merged ∨ ends ∧ LacksKey merged)
        containers := by
  refine ⟨?_, ?_, fun ends => ?_⟩
  · have hfails := @mutateAll_error_iff merge file (fun _ => True) containers
    have hok : IsOk (mutateAll merge file containers).1 ↔
        ¬ ∃ e, (mutateAll merge file containers).1 = .error e ∧ True := by
      cases (mutateAll merge file containers).1 <;> simp [IsOk]
    rw [hok, hfails, not_not]
    constructor
    · intro h container hmem
      refine (isOk_iff_isTold hfile container).mp ?_
      have hreturns : ∀ container,
          (∀ e, (mutateContainer merge file container).1 = .error e → ¬ True) →
            IsOk (mutateContainer merge file container).1 := fun container hno => by
        cases hrun : (mutateContainer merge file container).1 with
        | ok u => exact ⟨u, rfl⟩
        | error e => exact absurd trivial (hno e hrun)
      exact hreturns container
        (forall_of_upTo h (fun x hx => not_not_intro (hreturns x hx)) container hmem)
    · refine fun h => upTo_of_forall fun container hmem e he _ => ?_
      obtain ⟨u, hu⟩ := (isOk_iff_isTold hfile container).mpr (h container hmem)
      rw [hu] at he
      cases he
  · refine (mutateAll_error_iff (isCaught · = true) containers).trans (not_congr ?_)
    exact upTo_congr (fun container _ => caught_iff_not_merges hfile container)
      fun container _ _ => not_congr (isOk_iff_isTold hfile container)
  · refine (mutateAll_error_iff _ containers).trans (not_congr ?_)
    exact upTo_congr (fun container _ => uncaught_iff_not_good hfile container ends)
      fun container _ _ => not_congr (isOk_iff_isTold hfile container)

/-! ## A pod -/

/-- The init containers of a pod; there are none where a key is missing. -/
def InitsOf (merged : JsonValue) (inits : List JsonValue) : Prop :=
  containersAt merged "initContainers" = .ok inits ∨
    MissesKey (containersAt merged "initContainers") ∧ inits = []

/-- **A merged pod is refused** for the first container that the mutations do not merge into, if
each before it is told. -/
def IsRefused (merge : Merge) (mutations : List (String × JsonValue)) (merged : JsonValue) : Prop :=
  ∃ containers, containersAt merged "containers" = .ok containers ∧
    (¬ RoundsMerge merge mutations containers ∨
      (∀ container ∈ containers, IsTold merge mutations container) ∧
        ∃ inits, InitsOf merged inits ∧ ¬ RoundsMerge merge mutations inits)

/-- **The mutation stumbles over a merged pod**: it has no list of containers, or one comes that
cannot be told; an init container that lacks a key ends the loop instead. -/
def Stumbles (merge : Merge) (mutations : List (String × JsonValue)) (merged : JsonValue) : Prop :=
  ∀ containers, containersAt merged "containers" = .ok containers →
    ¬ Rounds merge mutations CanTell containers ∨
      (∀ container ∈ containers, IsTold merge mutations container) ∧
        ∀ inits, InitsOf merged inits →
          ¬ Rounds merge mutations (fun merged => CanTell merged ∨ LacksKey merged) inits

variable {merged pod' : JsonValue}

theorem not_caught_containersAt (pod : JsonValue) (key : String) :
    ¬ Caught (containersAt pod key) := by
  refine not_caught_bind (not_caught_itemAt _ _) fun spec _ =>
    not_caught_bind (not_caught_itemAt _ _) fun listed _ => ?_
  split <;> simp [isCaught]

theorem isDict_of_containersAt (h : containersAt pod key = .ok containers) :
    ∃ spec, pod.member? "spec" = some (.obj spec) := by
  obtain ⟨spec, hspec, h⟩ := bind_eq_ok.mp h
  obtain ⟨listed, hlisted, -⟩ := bind_eq_ok.mp h
  rw [itemAt_eq_ok, ← get?_singleton] at hlisted
  obtain ⟨members, rfl⟩ := isDict_of_get? hlisted
  exact ⟨members, itemAt_eq_ok.mp hspec⟩

/-- The lists of containers are told from what the spec has for them. -/
theorem containersAt_congr {spec spec' : List (String × JsonValue)}
    (hspec : pod.member? "spec" = some (.obj spec))
    (hspec' : pod'.member? "spec" = some (.obj spec'))
    (h : pod'.get? ["spec", key] = pod.get? ["spec", key]) :
    containersAt pod' key = containersAt pod key := by
  rw [get?, get?, hspec, hspec', Option.bind_some, Option.bind_some, get?_singleton,
    get?_singleton] at h
  rw [containersAt, containersAt, itemAt_of_member? hspec, itemAt_of_member? hspec']
  simp only [bind, Except.bind]
  rw [itemAt_eq ⟨spec, rfl⟩, itemAt_eq ⟨spec', rfl⟩, h]

/-- Other containers leave the other members of a pod. -/
theorem member?_withContainers {spec : List (String × JsonValue)} {name : String}
    (hspec : pod.member? "spec" = some (.obj spec)) (hne : name ≠ "spec") :
    (withContainers pod key containers).member? name = pod.member? name := by
  have happart : Apart ["spec", key] [name] := .inl hne.symm
  obtain ⟨-, -, hoff⟩ := withContainers_spec hspec key containers
  have hget := hoff [name] happart
  rwa [get?_singleton, get?_singleton] at hget

/-- **How the loop over the containers of a pod ends.** -/
theorem mutateContainers_cases (hfile : loadMutations file = .ok (.obj mutations))
    (h : containersAt merged "containers" = .ok containers) :
    (Caught (mutateContainers merge file merged) ↔ ¬ RoundsMerge merge mutations containers) ∧
    (Uncaught (mutateContainers merge file merged) ↔
      ¬ Rounds merge mutations CanTell containers) ∧
    (IsOk (mutateContainers merge file merged) ↔
      ∀ container ∈ containers, IsTold merge mutations container) ∧
    ∀ pod', mutateContainers merge file merged = .ok pod' →
      (∃ spec, pod'.member? "spec" = some (.obj spec)) ∧
        pod'.member? "metadata" = merged.member? "metadata" ∧
        containersAt pod' "initContainers" = containersAt merged "initContainers" := by
  obtain ⟨spec, hspec⟩ := isDict_of_containersAt h
  obtain ⟨hok, hcaught, huncaught⟩ := mutateAll_cases hfile containers
  have huncaught := huncaught False
  simp only [false_and, or_false, not_false_eq_true, and_true] at huncaught
  rw [← hok, ← hcaught, ← huncaught, mutateContainers, h]
  simp only [bind, Except.bind]
  obtain ⟨outcome, after⟩ := mutateAll merge file containers
  cases outcome with
  | error e => exact ⟨by simp, by simp, by simp [IsOk], fun pod' h => by cases h⟩
  | ok u =>
    refine ⟨by simp, by simp, by simp [IsOk], fun pod' h => ?_⟩
    obtain rfl := Except.ok.inj h
    obtain ⟨-, ⟨spec', hspec'⟩, hoff⟩ := withContainers_spec hspec "containers" after
    exact ⟨⟨spec', hspec'⟩, member?_withContainers hspec (by decide),
      containersAt_congr hspec hspec' (hoff _ (by decide))⟩

/-- An error that is no `KeyError` is not kept back. -/
theorem mutateInitContainers_of_error {e : PyErr}
    (h : containersAt pod "initContainers" = .error e) (hkey : ∀ text, e ≠ .keyError text) :
    mutateInitContainers merge file pod = .error e := by
  rw [mutateInitContainers, h]
  cases e <;> first | rfl | exact absurd rfl (hkey _)

/-- The loop over the init containers returns, or raises what is no `KeyError`. -/
theorem mutateInitContainers_of_ok {inits : List JsonValue}
    (h : containersAt pod "initContainers" = .ok inits) :
    ((∃ after, mutateInitContainers merge file pod =
          .ok (withContainers pod "initContainers" after)) ∧
        ∀ e, (mutateAll merge file inits).1 = .error e → ∃ text, e = .keyError text) ∨
      ∃ e, mutateInitContainers merge file pod = .error e ∧
        (mutateAll merge file inits).1 = .error e ∧ ∀ text, e ≠ .keyError text := by
  rw [mutateInitContainers, h]
  dsimp only
  obtain ⟨outcome, after⟩ := mutateAll merge file inits
  cases outcome with
  | ok u => exact .inl ⟨⟨after, rfl⟩, fun e he => by cases he⟩
  | error e =>
    by_cases hkey : ∃ text, e = .keyError text
    · obtain ⟨text, rfl⟩ := hkey
      exact .inl ⟨⟨after, rfl⟩, fun e he => ⟨text, (Except.error.inj he).symm⟩⟩
    · have hno : ∀ text, e ≠ .keyError text := fun text heq => hkey ⟨text, heq⟩
      refine .inr ⟨e, ?_, rfl, hno⟩
      cases e <;> first | rfl | exact absurd rfl (hno _)

/-- **How the loop over its init containers ends.** -/
theorem mutateInitContainers_cases (hfile : loadMutations file = .ok (.obj mutations))
    {spec : List (String × JsonValue)} (hspec : pod.member? "spec" = some (.obj spec)) :
    (Caught (mutateInitContainers merge file pod) ↔
      ∃ inits, InitsOf pod inits ∧ ¬ RoundsMerge merge mutations inits) ∧
    (Uncaught (mutateInitContainers merge file pod) ↔ ∀ inits, InitsOf pod inits →
      ¬ Rounds merge mutations (fun merged => CanTell merged ∨ LacksKey merged) inits) ∧
    ∀ pod', mutateInitContainers merge file pod = .ok pod' →
      (pod'.member? "spec").isSome ∧ pod'.member? "metadata" = pod.member? "metadata" := by
  cases hinits : containersAt pod "initContainers" with
  | error e =>
    have hno := not_caught_containersAt pod "initContainers"
    rw [hinits, caught_error, Bool.not_eq_true] at hno
    by_cases hkey : ∃ text, e = .keyError text
    · obtain ⟨text, rfl⟩ := hkey
      have hnone : ∀ inits, InitsOf pod inits ↔ inits = [] := fun inits => by
        simp [InitsOf, hinits]
      have hrun : mutateInitContainers merge file pod = .ok pod := by
        rw [mutateInitContainers, hinits]
      simp only [hnone, hrun, exists_eq_left, forall_eq]
      refine ⟨iff_of_false caught_ok fun h => h trivial,
        iff_of_false uncaught_ok fun h => h trivial, fun pod' h => ?_⟩
      obtain rfl := Except.ok.inj h
      exact ⟨by rw [hspec]; rfl, rfl⟩
    · have hnone : ∀ inits, ¬ InitsOf pod inits := fun inits => by
        simpa [InitsOf, hinits] using fun text heq => absurd ⟨text, heq⟩ hkey
      rw [mutateInitContainers_of_error hinits fun text heq => hkey ⟨text, heq⟩]
      simp [hnone, hno]
  | ok inits =>
    have honly : ∀ inits', InitsOf pod inits' ↔ inits' = inits := fun inits' => by
      simp [InitsOf, hinits, eq_comm]
    obtain ⟨-, hcaught, huncaught⟩ := mutateAll_cases hfile inits
    have huncaught := huncaught True
    simp only [true_and] at huncaught
    simp only [honly, exists_eq_left, forall_eq]
    rw [← hcaught, ← huncaught]
    rcases mutateInitContainers_of_ok hinits with ⟨⟨after, hrun⟩, hkeys⟩ | ⟨e, hrun, hall, hkey⟩
    · rw [hrun]
      refine ⟨iff_of_false caught_ok ?_, iff_of_false uncaught_ok ?_, fun pod' h => ?_⟩
      · rintro ⟨e, he, hc⟩
        obtain ⟨text, rfl⟩ := hkeys e he
        cases hc
      · rintro ⟨e, he, -, hc⟩
        exact hc (hkeys e he)
      · obtain rfl := Except.ok.inj h
        obtain ⟨-, ⟨spec', hspec'⟩, -⟩ := withContainers_spec hspec "initContainers" after
        exact ⟨by rw [hspec']; rfl, member?_withContainers hspec (by decide)⟩
    · rw [hrun, hall]
      exact ⟨by simp, by simp [hkey], fun pod' h => by cases h⟩

/-- What the mutations have for pods. -/
def perPodOf (mutations : List (String × JsonValue)) : JsonValue :=
  ((JsonValue.obj mutations).member? "perPod").getD (.obj [])

/-- **The mutation of a pod is refused** if the mutations do not merge into it, or the merged pod
is. -/
def MutationRefused (merge : Merge) (file : Option JsonValue) (pod : JsonValue) : Prop :=
  ∃ mutations, loadMutations file = .ok (.obj mutations) ∧
    ∀ merged, mergeInPlace merge pod (perPodOf mutations) = some merged →
      IsRefused merge mutations merged

/-- **It stumbles** if the file cannot be read, or over the merged pod, or that has no metadata. -/
def MutationStumbles (merge : Merge) (file : Option JsonValue) (pod : JsonValue) : Prop :=
  (∀ mutations, loadMutations file ≠ .ok (.obj mutations)) ∨
    ∃ mutations merged, loadMutations file = .ok (.obj mutations) ∧
      mergeInPlace merge pod (perPodOf mutations) = some merged ∧
      (Stumbles merge mutations merged ∨
        ¬ IsRefused merge mutations merged ∧ merged.member? "metadata" = none)

theorem not_caught_loadMutations (file : Option JsonValue) : ¬ Caught (loadMutations file) := by
  cases file with
  | none => simp [loadMutations, isCaught]
  | some config => cases config <;> simp [loadMutations, getOr, isCaught]

/-- **How the loops over a merged pod end.** -/
theorem mutateLoops_cases (hfile : loadMutations file = .ok (.obj mutations)) (merged : JsonValue) :
    (Caught (mutateContainers merge file merged >>= mutateInitContainers merge file) ↔
      IsRefused merge mutations merged) ∧
    (Uncaught (mutateContainers merge file merged >>= mutateInitContainers merge file) ↔
      Stumbles merge mutations merged) ∧
    ∀ pod', mutateContainers merge file merged >>= mutateInitContainers merge file = .ok pod' →
      (pod'.member? "spec").isSome ∧ pod'.member? "metadata" = merged.member? "metadata" := by
  cases hlisted : containersAt merged "containers" with
  | error e =>
    have hno := not_caught_containersAt merged "containers"
    rw [hlisted, caught_error, Bool.not_eq_true] at hno
    have hrun : mutateContainers merge file merged = .error e := by
      rw [mutateContainers, hlisted]
      rfl
    rw [hrun]
    refine ⟨?_, ?_, fun pod' h => by cases h⟩
    · simp [bind, Except.bind, hno, IsRefused, hlisted]
    · simp [bind, Except.bind, hno, Stumbles, hlisted]
  | ok containers =>
    obtain ⟨hcaught, huncaught, hok, hafter⟩ :=
      @mutateContainers_cases merge file mutations containers merged hfile hlisted
    have hrefused : IsRefused merge mutations merged ↔ ¬ RoundsMerge merge mutations containers ∨
        (∀ container ∈ containers, IsTold merge mutations container) ∧
          ∃ inits, InitsOf merged inits ∧ ¬ RoundsMerge merge mutations inits := by
      simp [IsRefused, hlisted]
    have hstumbles : Stumbles merge mutations merged ↔
        ¬ Rounds merge mutations CanTell containers ∨
          (∀ container ∈ containers, IsTold merge mutations container) ∧
            ∀ inits, InitsOf merged inits → ¬ Rounds merge mutations
              (fun merged => CanTell merged ∨ LacksKey merged) inits := by
      simp [Stumbles, hlisted]
    rw [hrefused, hstumbles, caught_bind, uncaught_bind, hcaught, huncaught, ← hok]
    cases hrun : mutateContainers merge file merged with
    | error e => exact ⟨by simp [IsOk], by simp [IsOk], fun pod' h => by cases h⟩
    | ok pod₁ =>
      obtain ⟨⟨spec, hspec⟩, hmetadata, hsame⟩ := hafter pod₁ hrun
      obtain ⟨hcaught', huncaught', hafter'⟩ :=
        @mutateInitContainers_cases pod₁ merge file mutations hfile spec hspec
      have hinits : ∀ inits, InitsOf pod₁ inits ↔ InitsOf merged inits := fun inits => by
        rw [InitsOf, hsame, InitsOf]
      simp only [hinits] at hcaught' huncaught'
      rw [← hcaught', ← huncaught']
      refine ⟨by simp [IsOk], by simp [IsOk], fun pod' h => ?_⟩
      obtain ⟨hspec', hmetadata'⟩ := hafter' pod' h
      exact ⟨hspec', hmetadata'.trans hmetadata⟩

/-- With the mutations read, the pod is merged and its containers are mutated. -/
theorem mutatePod_of_loaded (hfile : loadMutations file = .ok (.obj mutations)) (pod : JsonValue) :
    mutatePod merge file pod =
      (mergeInPlace merge pod (perPodOf mutations)).elim (.error .mutationError) fun merged =>
        mutateContainers merge file merged >>= mutateInitContainers merge file := by
  have hread : getOr (.obj mutations) "perPod" (.obj []) = .ok (perPodOf mutations) := rfl
  simp only [mutatePod, hfile, bind, Except.bind, hread]
  cases mergeInPlace merge pod (perPodOf mutations) <;> rfl

/-- Without them, the exception of the reading escapes. -/
theorem mutatePod_of_not_loaded (hno : ∀ mutations, loadMutations file ≠ .ok (.obj mutations))
    (pod : JsonValue) : ∃ e, mutatePod merge file pod = .error e ∧ isCaught e = false := by
  rw [mutatePod]
  cases hload : loadMutations file with
  | error e =>
    have hcaught := not_caught_loadMutations file
    rw [hload, caught_error, Bool.not_eq_true] at hcaught
    exact ⟨e, rfl, hcaught⟩
  | ok mutations =>
    cases mutations with
    | obj members => exact absurd hload (hno members)
    | _ => exact ⟨.attributeError, rfl, rfl⟩

/-- A pod with a spec has a patch, or lacks its metadata. -/
theorem generatePatch_cases {spec : JsonValue} (hspec : pod.member? "spec" = some spec) :
    (pod.member? "metadata").isSome ∧ IsOk (generatePatch pod) ∨
      pod.member? "metadata" = none ∧ generatePatch pod = .error (.keyError none) := by
  have hdict : IsDict pod := isDict_of_get? ((get?_singleton "spec" pod).trans hspec)
  cases hvalue : pod.member? "metadata" with
  | none =>
    refine .inr ⟨rfl, ?_⟩
    rw [generatePatch, itemAt_eq hdict, hvalue]
    rfl
  | some metadata =>
    refine .inl ⟨rfl, ?_⟩
    rw [generatePatch, itemAt_of_member? hvalue, itemAt_of_member? hspec]
    exact ⟨_, rfl⟩

/-- **How the mutation of a pod ends**, with the patch that is made of it. -/
theorem mutatePod_cases (merge : Merge) (file : Option JsonValue) (pod : JsonValue) :
    (Caught (mutatePod merge file pod >>= generatePatch) ↔ MutationRefused merge file pod) ∧
    (Uncaught (mutatePod merge file pod >>= generatePatch) ↔ MutationStumbles merge file pod) := by
  by_cases hfile : ∃ mutations, loadMutations file = .ok (.obj mutations)
  · obtain ⟨mutations, hfile⟩ := hfile
    have hrefused : MutationRefused merge file pod ↔
        ∀ merged, mergeInPlace merge pod (perPodOf mutations) = some merged →
          IsRefused merge mutations merged := by
      simp [MutationRefused, hfile]
    have hstumbles : MutationStumbles merge file pod ↔
        ∃ merged, mergeInPlace merge pod (perPodOf mutations) = some merged ∧
          (Stumbles merge mutations merged ∨
            ¬ IsRefused merge mutations merged ∧ merged.member? "metadata" = none) := by
      simp [MutationStumbles, hfile]
    rw [hrefused, hstumbles, mutatePod_of_loaded hfile pod]
    cases hmerged : mergeInPlace merge pod (perPodOf mutations) with
    | none => simp [bind, Except.bind, isCaught]
    | some merged =>
      obtain ⟨hcaught, huncaught, hafter⟩ := mutateLoops_cases hfile merged
      simp only [Option.elim_some, Option.some.injEq, forall_eq', exists_eq_left']
      rw [caught_bind, uncaught_bind, ← hcaught, ← huncaught]
      cases hloops : mutateContainers merge file merged >>= mutateInitContainers merge file with
      | error e => cases hcase : isCaught e <;> simp [hcase]
      | ok pod' =>
        obtain ⟨hspec, hmetadata⟩ := hafter pod' hloops
        obtain ⟨spec, hspec⟩ := Option.isSome_iff_exists.mp hspec
        rw [← hmetadata]
        rcases generatePatch_cases hspec with ⟨hthere, patch, hpatch⟩ | ⟨hnone, hpatch⟩
        · obtain ⟨metadata, hvalue⟩ := Option.isSome_iff_exists.mp hthere
          simp [hpatch, hvalue]
        · simp [hpatch, hnone, isCaught]
  · have hno : ∀ mutations, loadMutations file ≠ .ok (.obj mutations) :=
      fun mutations h => hfile ⟨mutations, h⟩
    obtain ⟨e, hrun, hcaught⟩ := @mutatePod_of_not_loaded merge file hno pod
    rw [hrun]
    refine ⟨iff_of_false ?_ ?_, iff_of_true ?_ (.inl hno)⟩
    · simp [bind, Except.bind, hcaught]
    · rintro ⟨mutations, h, -⟩
      exact hno mutations h
    · simp [bind, Except.bind, hcaught]

/-! ## A review -/

/-- The pod that a review is for. -/
def IsPodOf (review pod : JsonValue) : Prop :=
  review.get? ["request", "kind", "kind"] = some (.str "Pod") ∧
    review.get? ["request", "object"] = some pod

/-- **The mutation of the pod of a review is refused.** -/
def PodRefused (merge : Merge) (file : Option JsonValue) (pod : JsonValue) : Prop :=
  ∃ items, IsDecided pod items ∧ Required pod items ∧ MutationRefused merge file pod

/-- **The webhook stumbles over the pod of a review**: over its decision, over the mutation, or as
the request of the review has no `uid`. -/
def PodStumbles (merge : Merge) (file : Option JsonValue) (review pod : JsonValue) : Prop :=
  (∀ items, ¬ IsDecided pod items) ∨
    (∃ items, IsDecided pod items ∧ Required pod items ∧ MutationStumbles merge file pod) ∨
    ¬ PodRefused merge file pod ∧ review.get? ["request", "uid"] = none

/-- The kind comes before the object. -/
theorem podOf_eq (review : JsonValue) : podOf review = (do
    let request ← itemAt review "request"
    let kind ← itemAt request "kind"
    itemAt kind "kind") >>= fun kind => if isText "Pod" kind then
      (do let request ← itemAt review "request"; itemAt request "object")
      else .error (.keyError none) := by
  rw [podOf]
  cases itemAt review "request" with
  | error e => rfl
  | ok request =>
    simp only [bind, Except.bind]
    cases itemAt request "kind" <;> rfl

/-- **The pod of a review is found**, or there is none, where there are dictionaries. -/
theorem podOf_cases (review : JsonValue) :
    ¬ Lookable review "request" "kind" ∧ podOf review = .error .typeError ∨
      Lookable review "request" "kind" ∧
        ((∃ pod, IsPodOf review pod ∧ podOf review = .ok pod) ∨
          (∀ pod, ¬ IsPodOf review pod) ∧ podOf review = .error (.keyError none)) := by
  by_cases hlook : Lookable review "request" "kind"
  · refine .inr ⟨hlook, ?_⟩
    rw [podOf_eq, itemAt_of_lookable hlook]
    cases hkind : review.get? ["request", "kind", "kind"] with
    | none => exact .inr ⟨fun pod h => (by rw [IsPodOf, hkind] at h; cases h.1), rfl⟩
    | some kind =>
      by_cases htext : kind = .str "Pod"
      · subst htext
        obtain ⟨request, hrequest, hrest⟩ := Option.bind_eq_some_iff.mp hkind
        have hobject : review.get? ["request", "object"] = request.member? "object" := by
          rw [get?, hrequest, Option.bind_some, get?_singleton]
        have hgo : (do let request ← itemAt review "request"; itemAt request "object") =
            (request.member? "object").elim (.error (.keyError none)) .ok := by
          rw [itemAt_of_member? hrequest, ← itemAt_eq (isDict_of_get? hrest)]
          rfl
        have hpod : (Except.ok (.str "Pod") >>= fun kind => if isText "Pod" kind then
            (do let request ← itemAt review "request"; itemAt request "object")
            else .error (.keyError none)) =
              (request.member? "object").elim (.error (.keyError none)) .ok := hgo
        rw [Option.elim_some, hpod]
        cases hvalue : request.member? "object" with
        | none =>
          exact .inr ⟨fun pod h => (by rw [IsPodOf, hobject, hvalue] at h; cases h.2), rfl⟩
        | some pod => exact .inl ⟨pod, ⟨hkind, hobject.trans hvalue⟩, rfl⟩
      · have hfalse : isText "Pod" kind = false := by
          rw [← Bool.not_eq_true, isText_iff]
          exact htext
        refine .inr ⟨fun pod h => ?_, ?_⟩
        · rw [IsPodOf, hkind] at h
          exact htext (Option.some.inj h.1)
        · simp [bind, Except.bind, hfalse]
  · refine .inl ⟨hlook, ?_⟩
    rw [podOf_eq, itemAt_of_not_lookable hlook]
    rfl

theorem uidOf_eq {request : JsonValue} (hrequest : review.member? "request" = some request)
    (hdict : IsDict request) : uidOf review =
      (review.get? ["request", "uid"]).elim (.error (.keyError none)) .ok := by
  rw [uidOf, itemAt_of_member? hrequest, get?, hrequest, Option.bind_some, get?_singleton]
  exact itemAt_eq hdict "uid"

/-- The response comes to its end where the review has a `uid`. -/
theorem answer_cases (h : IsPodOf review pod) (resp : JsonValue → List (String × JsonValue)) :
    (review.get? ["request", "uid"] = none ∧
        (uidOf review >>= fun uid => answer review (resp uid)) = .error (.keyError none)) ∨
      review.get? ["request", "uid"] ≠ none ∧
        IsOk (uidOf review >>= fun uid => answer review (resp uid)) := by
  obtain ⟨request, hrequest, hrest⟩ := Option.bind_eq_some_iff.mp h.1
  rw [uidOf_eq hrequest (isDict_of_get? hrest)]
  cases review.get? ["request", "uid"] with
  | none => exact .inl ⟨rfl, rfl⟩
  | some uid =>
    obtain ⟨members, rfl⟩ := isDict_of_get? h.1
    exact .inr ⟨Option.some_ne_none uid, _, rfl⟩

/-- **How the mutation of a review ends.** -/
theorem mutate_cases (merge : Merge) (file : Option JsonValue) (h : IsPodOf review pod)
    (hpod : podOf review = .ok pod) :
    (Caught (mutate merge file review) ↔ PodRefused merge file pod) ∧
    (Uncaught (mutate merge file review) ↔ PodStumbles merge file review pod) := by
  have hread : exceptKeyError (podOf review) (.error .mutationError) = .ok pod := by
    rw [hpod]
    rfl
  have hrun : mutate merge file review = isMutationRequired pod >>= fun required =>
      if required then
        (mutatePod merge file pod >>= generatePatch) >>= fun patch =>
          uidOf review >>= fun uid => answer review
            [("allowed", .bool true), ("uid", uid), ("patch", .str (encodePatch patch))]
      else uidOf review >>= fun uid => answer review [("allowed", .bool true), ("uid", uid)] := by
    rw [mutate, hread]
    simp only [bind_assoc]
    rfl
  rw [hrun, caught_bind, uncaught_bind]
  by_cases hdecided : ∃ items, IsDecided pod items
  · obtain ⟨items, hitems⟩ := hdecided
    obtain ⟨b, hb, hrequired⟩ := hitems.run
    have honly : ∀ P : List JsonValue → Prop, (∃ items', IsDecided pod items' ∧ P items') ↔
        P items := by
      refine fun P => ⟨?_, fun hP => ⟨items, hitems, hP⟩⟩
      rintro ⟨items', h, hP⟩
      exact hitems.unique h ▸ hP
    have hsome : ¬ ∀ items, ¬ IsDecided pod items := fun h => h items hitems
    rw [PodStumbles, PodRefused, honly, honly, or_iff_right hsome, ← hrequired, hb]
    simp only [uncaught_ok, caught_ok, false_or, Except.ok.injEq, exists_eq_left']
    cases b with
    | false =>
      simp only [Bool.false_eq_true, if_false, false_and, false_or, not_false_eq_true, true_and]
      rcases answer_cases h (fun uid => [("allowed", .bool true), ("uid", uid)]) with
        ⟨hnone, hfails⟩ | ⟨hthere, review', hanswer⟩
      · rw [hfails]
        simp [hnone, isCaught]
      · rw [hanswer]
        simp [hthere]
    | true =>
      simp only [if_true, true_and]
      obtain ⟨hcaught, huncaught⟩ := mutatePod_cases merge file pod
      rw [← hcaught, ← huncaught, caught_bind, uncaught_bind]
      cases hpatch : mutatePod merge file pod >>= generatePatch with
      | error e => cases hcase : isCaught e <;> simp [hcase]
      | ok patch =>
        rcases answer_cases h (fun uid =>
          [("allowed", .bool true), ("uid", uid), ("patch", .str (encodePatch patch))]) with
          ⟨hnone, hfails⟩ | ⟨hthere, review', hanswer⟩
        · simp [hfails, hnone, isCaught]
        · simp [hanswer, hthere]
  · have hno : ∀ items, ¬ IsDecided pod items := fun items h => hdecided ⟨items, h⟩
    have hnotOk := (not_congr isOk_isMutationRequired).mpr hdecided
    have hnotCaught := not_caught_isMutationRequired pod
    refine ⟨iff_of_false ?_ ?_, iff_of_true (.inl ?_) (.inl hno)⟩
    · rintro (h | ⟨b, hb, -⟩)
      · exact hnotCaught h
      · exact hnotOk ⟨b, hb⟩
    · rintro ⟨items, h, -⟩
      exact hno items h
    · exact (uncaught_iff_not_isOk hnotCaught).mpr hnotOk

end Cmk
