import ChainTypings.Number.Binary64

/-!
# JSON values

The values of a JSON text, with integers unbounded and apart from floating-point numbers, and the
fields of an object in their written order. A repeated key keeps its first place and takes the
last value: `put` is that rule for one field, `ofFields` builds an object by it.
-/

namespace ChainTypings

/-- A JSON value. -/
inductive Json where
  | null
  | bool (b : Bool)
  | int (n : Int)
  | float (x : Binary64)
  | str (s : String)
  | arr (items : List Json)
  | obj (fields : List (String × Json))
  deriving Inhabited

namespace Json

/-- Sets a field: in place if the key is there, else as the last one. -/
def put (key : String) (value : Json) : List (String × Json) → List (String × Json)
  | [] => [(key, value)]
  | (k, v) :: rest => if k = key then (k, value) :: rest else (k, v) :: put key value rest

/-- The object of the fields, taken in order. -/
def ofFields (fields : List (String × Json)) : Json :=
  .obj (fields.foldl (fun acc f => put f.1 f.2 acc) [])

/-- The value of a field of an object; null where there is none. -/
def field (key : String) (fields : List (String × Json)) : Json :=
  (fields.lookup key).getD .null

/-- The text of a string value. -/
def text? : Json → Option String
  | .str s => some s
  | _ => none

/-- Whether the value is the absent one. -/
def isNull : Json → Bool
  | .null => true
  | _ => false

/-- Whether the value holds nothing: null, false, zero, or an empty text, list or object. -/
def isEmpty : Json → Bool
  | .null => true
  | .bool b => !b
  | .int n => n == 0
  | .float x => x.isZero
  | .str s => s.isEmpty
  | .arr items => items.isEmpty
  | .obj fields => fields.isEmpty

end Json

end ChainTypings
