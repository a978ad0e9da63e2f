import Mathlib.Tactic

/-!
# JSON values

A parsed JSON value as both ends of the managed protocol handle it: what Python's
`json` module hands on, and what the server's JSON library reads. An object is a list
of fields, as a dictionary whose keys occur once.
-/
namespace StateBraid.Managed

/-- A JSON value. A float is the exact value of the double, `none` for NaN and the
infinities. -/
inductive Json
  | null
  | bool (value : Bool)
  | int (value : ℤ)
  | float (value : Option ℚ)
  | str (value : String)
  | arr (items : List Json)
  | obj (fields : List (String × Json))

namespace Json

/-- `isinstance(value, Mapping)`. -/
def isObject : Json → Bool
  | .obj _ => true
  | _ => false

/-- `value.get(name)` of a mapping; a missing field reads as `None`. -/
def get (value : Json) (name : String) : Json :=
  match value with
  | .obj fields => (fields.lookup name).getD .null
  | _ => .null

/-- `value.get(name, default)`. -/
def getD (value : Json) (name : String) (default : Json) : Json :=
  match value with
  | .obj fields => (fields.lookup name).getD default
  | _ => default

/-- The field of an object that has it, as the server's `contains` and `at`. -/
def field? (value : Json) (name : String) : Option Json :=
  match value with
  | .obj fields => fields.lookup name
  | _ => none

/-- An integer that is not a Python bool. -/
def asInt? : Json → Option ℤ
  | .int n => some n
  | _ => none

/-- The integer of a value for which the server's `is_number_integer` holds: its parser keeps
signed and unsigned integers of 64 bits, and reads any other number as a float. -/
def asNumberInteger? : Json → Option ℤ
  | .int n => if -2 ^ 63 ≤ n ∧ n < 2 ^ 64 then some n else none
  | _ => none

def asStr? : Json → Option String
  | .str s => some s
  | _ => none

/-- `value == s` for a string. -/
def eqStr (value : Json) (s : String) : Bool := value.asStr? = some s

/-- `value == n` for an integer: a bool and an integral float compare as numbers. -/
def eqInt (value : Json) (n : ℤ) : Bool :=
  match value with
  | .int m => m = n
  | .bool b => (if b then 1 else 0) = n
  | .float (some q) => q = n
  | _ => false

/-- `value is True`. -/
def isTrue : Json → Bool
  | .bool true => true
  | _ => false

end Json

end StateBraid.Managed
