import Cmk.Machinery.Text

/-!
# Python — the exceptions and the scalar values the program handles

`PyErr` is what a run can end with.  An exception the program raises itself keeps its text; one the
interpreter or the standard library raises is told apart by its class only.  `Scalar` is what a
YAML document can hold as a mapping key, hence every socket key of a configuration; `Task` collects
what the program asks of an entry of a `tasks` list.
-/

open Machinery

namespace Cmk

/-- An exception; `none` is the interpreter's own message. -/
inductive PyErr
  | keyError (text : Option String)
  | valueError (text : Option String)
  | indexError
  | typeError
  | overflowError
  | attributeError
  | unboundLocalError
  | runtimeError (text : String)
  | systemError (text : String)
  | systemExit (code : ℕ)
  | apiException
  | osError
  | yamlError
  | syntaxError
  | mutationError
deriving DecidableEq, Repr

/-- A sequence of two steps returns what the second returns on the result of the first. -/
theorem bind_eq_ok {α β : Type} {x : Except PyErr α} {f : α → Except PyErr β} {b : β} :
    (x >>= f) = .ok b ↔ ∃ a, x = .ok a ∧ f a = .ok b := by
  cases x <;> simp [bind, Except.bind]

theorem pure_eq_ok {α : Type} {a b : α} : (pure a : Except PyErr α) = .ok b ↔ a = b := by
  simp [pure, Except.pure]

theorem eq_ok_get {α : Type} {x : Except PyErr α} (h : x.toOption.isSome) :
    x = .ok (x.toOption.get h) := by
  cases x with
  | ok a => rfl
  | error e => nomatch h

/-- The computation returns. -/
def IsOk {α : Type} (x : Except PyErr α) : Prop := ∃ a, x = .ok a

theorem isOk_bind {α β : Type} {x : Except PyErr α} {f : α → Except PyErr β} :
    IsOk (x >>= f) ↔ ∃ a, x = .ok a ∧ IsOk (f a) := by
  cases x <;> simp [IsOk, bind, Except.bind]

instance {α : Type} (x : Except PyErr α) : Decidable (IsOk x) :=
  decidable_of_iff (x.toOption.isSome = true) <| by cases x <;> simp [IsOk, Except.toOption]

theorem isOk_pure {α : Type} (a : α) : IsOk (pure a : Except PyErr α) := ⟨a, rfl⟩

/-- `except K8sApiException: sys.exit(1)`. -/
def exitOnApiException (x : Except PyErr Unit) : Except PyErr Unit :=
  match x with
  | .error .apiException => .error (.systemExit 1)
  | _ => x

/-- A loop over a list returns what each round returns. -/
theorem mapM_eq_ok {α β : Type} {f : α → Except PyErr β} {xs : List α} {ys : List β} :
    xs.mapM f = .ok ys ↔ List.Forall₂ (fun x y => f x = .ok y) xs ys := by
  induction xs generalizing ys with
  | nil => rw [List.mapM_nil, pure_eq_ok, List.forall₂_nil_left_iff, eq_comm]
  | cons x xs ih =>
    rw [List.mapM_cons, bind_eq_ok]
    constructor
    · rintro ⟨y, hy, h⟩
      obtain ⟨ys', hys, h⟩ := bind_eq_ok.mp h
      obtain rfl := pure_eq_ok.mp h
      exact .cons hy (ih.mp hys)
    · rintro (_ | ⟨hy, hys⟩)
      exact ⟨_, hy, bind_eq_ok.mpr ⟨_, ih.mpr hys, rfl⟩⟩

/-- What a loop over a list returns is what some round returns. -/
theorem mem_of_mapM_eq_ok {α β : Type} {f : α → Except PyErr β} {xs : List α} {ys : List β}
    (h : xs.mapM f = .ok ys) {y : β} : y ∈ ys ↔ ∃ x ∈ xs, f x = .ok y := by
  induction mapM_eq_ok.mp h with
  | nil => simp
  | cons hx hxs ih =>
    rw [List.mem_cons, ih (mapM_eq_ok.mpr hxs), List.exists_mem_cons_iff, hx, Except.ok.injEq,
      eq_comm]

theorem isOk_mapM {α β : Type} {f : α → Except PyErr β} {xs : List α} :
    IsOk (xs.mapM f) ↔ ∀ x ∈ xs, IsOk (f x) := by
  induction xs with
  | nil => simp [isOk_pure]
  | cons x xs ih =>
    rw [List.mapM_cons, isOk_bind, List.forall_mem_cons, ← ih]
    constructor
    · rintro ⟨b, hb, h⟩
      obtain ⟨bs, hbs, -⟩ := isOk_bind.mp h
      exact ⟨⟨b, hb⟩, bs, hbs⟩
    · rintro ⟨⟨b, hb⟩, bs, hbs⟩
      exact ⟨b, hb, isOk_bind.mpr ⟨bs, hbs, isOk_pure _⟩⟩

/-- **What every round of a loop keeps holds at its end.** -/
theorem foldlM_invariant {α β : Type} {f : β → α → Except PyErr β} {P : β → Prop}
    (hround : ∀ b a b', P b → f b a = .ok b' → P b') {xs : List α} {b b' : β} (hb : P b)
    (h : xs.foldlM f b = .ok b') : P b' := by
  induction xs generalizing b with
  | nil => exact pure_eq_ok.mp h ▸ hb
  | cons x xs ih =>
    rw [List.foldlM_cons] at h
    obtain ⟨b₁, hx, h⟩ := bind_eq_ok.mp h
    exact ih (hround b x b₁ hb hx) h

/-- **A loop that fails** fails in a round, after rounds that return. -/
theorem foldlM_eq_error {α β : Type} {f : β → α → Except PyErr β} {xs : List α} {b : β} {e : PyErr}
    (h : xs.foldlM f b = .error e) : ∃ before x after b', xs = before ++ x :: after ∧
      before.foldlM f b = .ok b' ∧ f b' x = .error e := by
  induction xs generalizing b with
  | nil => cases h
  | cons x xs ih =>
    rw [List.foldlM_cons] at h
    cases hx : f b x with
    | error e' =>
      simp only [hx, bind, Except.bind, Except.error.injEq] at h
      exact ⟨[], x, xs, b, rfl, rfl, h ▸ hx⟩
    | ok b₁ =>
      simp only [hx, bind, Except.bind] at h
      obtain ⟨before, x', after, b', rfl, hbefore, hx'⟩ := ih h
      refine ⟨x :: before, x', after, b', rfl, ?_, hx'⟩
      rw [List.foldlM_cons, hx]
      exact hbefore

/-- The scalar values of a YAML document, as `safe_load` constructs them and as the interpreter
compares them: a boolean or a whole float equals an integer.  Any other float carries its text and
its truncation. -/
inductive Scalar
  | null
  | int (n : ℤ)
  | float (text : String) (trunc : ℤ)
  | inf (negative : Bool)
  | nan
  | str (s : String)
  | date (iso : String)
  | binary (bytes : List UInt8)
deriving DecidableEq, Repr

/-- `int(text)`. -/
def intOfStr (s : String) : Except PyErr ℤ :=
  match intOfText? s with
  | some n => .ok n
  | none => .error (.valueError none)

theorem intOfStr_eq_ok_iff {s : String} {z : ℤ} : intOfStr s = .ok z ↔ intOfText? s = some z := by
  unfold intOfStr
  cases intOfText? s <;> simp

theorem intOfStr_toString (z : ℤ) : intOfStr (toString z) = .ok z := by
  rw [intOfStr, intOfText?_toString]

/-- `needle in text`. -/
def isIn (needle text : String) : Bool := decide (needle.toList <:+: text.toList)

/-- `text.strip()`. -/
def stripText (text : String) : String :=
  String.ofList ((text.toList.dropWhile isSpace).rdropWhile isSpace)

namespace Scalar

/-- `bool(x)`. -/
def truthy : Scalar → Bool
  | null => false
  | int n => n ≠ 0
  | str s => s ≠ ""
  | binary bytes => bytes ≠ []
  | _ => true

/-- Bytes as text: those outside ASCII are neither digits nor blanks. -/
def textOfBytes (bytes : List UInt8) : String :=
  String.ofList (bytes.map fun b => if b < 128 then Char.ofNat b.toNat else '\ufffd')

/-- `int(x)`. -/
def toInt : Scalar → Except PyErr ℤ
  | null => .error .typeError
  | int n => .ok n
  | float _ n => .ok n
  | inf _ => .error .overflowError
  | nan => .error (.valueError none)
  | str s => intOfStr s
  | date _ => .error .typeError
  | binary bytes => intOfStr (textOfBytes bytes)

/-- Whether `json.dumps` serialises the value. -/
def jsonable : Scalar → Bool
  | date _ => false
  | binary _ => false
  | _ => true

end Scalar

/-- What the program does with an entry of a `tasks` list: `int(task)`, and comparing it with the
text of a pid. -/
class Task (τ : Type) where
  toInt : τ → Except PyErr ℤ
  ofText : String → τ

instance : Task String := ⟨intOfStr, id⟩

/-- The entry `str(pid)`. -/
def taskOf (τ : Type) [Task τ] (pid : ℤ) : τ := Task.ofText (toString pid)

theorem taskOf_string_injective : Function.Injective (taskOf String) := toString_int_injective

end Cmk
