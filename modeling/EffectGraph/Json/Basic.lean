import EffectGraph.Number.Text

/-!
# JSON documents

A document keeps the fields of an object in the order in which they were written, repetitions
included, and keeps apart numbers written as integers and numbers written with a fraction or an
exponent.
-/

namespace EffectGraph

/-- A JSON document. -/
inductive Json where
  /-- `null`. -/
  | null
  /-- `true` or `false`. -/
  | bool (b : Bool)
  /-- A number without fraction and exponent, at least `-2^63` and below `2^64`. -/
  | integer (n : Int)
  /-- Any other number, as the nearest double. -/
  | real (x : Float)
  /-- A string. -/
  | string (s : String)
  /-- An array. -/
  | array (items : List Json)
  /-- An object. -/
  | object (fields : List (String × Json))

namespace Json

/-- The number a document is, as a double. -/
def number? : Json → Option Float
  | .integer n => some (Number.ofInt n)
  | .real x => some x
  | _ => none

/-- The items of an array. -/
def items? : Json → Option (List Json)
  | .array items => some items
  | _ => none

/-- The fields of an object. -/
def fields? : Json → Option (List (String × Json))
  | .object fields => some fields
  | _ => none

/-- The text of a string. -/
def string? : Json → Option String
  | .string s => some s
  | _ => none

/-- The value of a field of an object; of repeated fields the last one counts. -/
def field? (json : Json) (key : String) : Option Json :=
  json.fields?.bind fun fields => (fields.reverse.find? (·.1 = key)).map (·.2)

end Json

end EffectGraph
