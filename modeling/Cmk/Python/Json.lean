import Cmk.Machinery.Json
import Cmk.Python

/-!
# Python/Json — JSON values as the interpreter handles them

A JSON value is a dictionary, a list, text, a number or a constant to the interpreter; what an
operation of another type does with it is an exception.
-/

open Machinery

namespace Cmk

/-- `bool(x)` of a JSON value. -/
def truthy : JsonValue → Bool
  | .null => false
  | .bool b => b
  | .num n => n ≠ 0
  | .str s => s ≠ ""
  | .arr items => !items.isEmpty
  | .obj members => !members.isEmpty

/-- What a `for` loop over a JSON value runs over. -/
def itemsOf : JsonValue → Except PyErr (List JsonValue)
  | .arr items => .ok items
  | .obj members => .ok (members.map fun m => .str m.1)
  | .str s => .ok (s.toList.map fun c => .str (String.singleton c))
  | _ => .error .typeError

/-- `x[key]` of a JSON value. -/
def itemAt (x : JsonValue) (key : String) : Except PyErr JsonValue :=
  match x with
  | .obj _ => (x.member? key).elim (.error (.keyError none)) .ok
  | _ => .error .typeError

def isText (text : String) : JsonValue → Bool
  | .str s => s = text
  | _ => false

/-- `x is None`. -/
def isNone : JsonValue → Bool
  | .null => true
  | _ => false

/-- `x.get(key, default)`. -/
def getOr (x : JsonValue) (key : String) (default : JsonValue) : Except PyErr JsonValue :=
  match x with
  | .obj _ => .ok ((x.member? key).getD default)
  | _ => .error .attributeError

/-- `x[key] = value`. -/
def putAt (key : String) (value x : JsonValue) : Except PyErr JsonValue :=
  match x with
  | .obj members => .ok (.obj (JsonValue.setMember key value members))
  | _ => .error .typeError

/-- `try: x except KeyError: y`. -/
def exceptKeyError {α : Type} (x y : Except PyErr α) : Except PyErr α :=
  match x with
  | .error (.keyError _) => y
  | _ => x

end Cmk
