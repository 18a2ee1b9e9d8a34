import EffectGraph.Value.Basic
import EffectGraph.Json.Basic

/-!
# Values and JSON

`Value.toJson` writes a value for a reader: handles become small objects, and numbers that are not
finite become `null`. `Value.ofJson` reads any document as a value. A value without handles whose
numbers are finite comes back.
-/

namespace EffectGraph

namespace Value

/-- A number as JSON, `null` if it is not finite. -/
def numberJson (x : Float) : Json := if x.isFinite then .real x else .null

mutual

/-- A value as JSON for a reader. -/
def toJson : Value → Json
  | .unit => .null
  | .bool b => .bool b
  | .number x => numberJson x
  | .text s => .string s
  | .list items => .array (toJsonItems items)
  | .record fields => .object (toJsonFields fields)
  | .element id => .object [("element", .integer id.index)]
  | .source id => .object [("source", .integer id.index)]
  | .signal id => .object [("signal", .integer id.index)]

/-- The items of a list as JSON. -/
def toJsonItems : List Value → List Json
  | [] => []
  | item :: rest => item.toJson :: toJsonItems rest

/-- The fields of a record as JSON. -/
def toJsonFields : List (String × Value) → List (String × Json)
  | [] => []
  | (key, value) :: rest => (key, value.toJson) :: toJsonFields rest

end

mutual

/-- The value that a JSON document stands for. -/
def ofJson : Json → Value
  | .null => .unit
  | .bool b => .bool b
  | .integer n => .number (Number.ofInt n)
  | .real x => .number x
  | .string s => .text s
  | .array items => .list (ofJsonItems items)
  | .object fields => ofPairs (ofJsonFields fields)

/-- The values that the items of an array stand for. -/
def ofJsonItems : List Json → List Value
  | [] => []
  | item :: rest => ofJson item :: ofJsonItems rest

/-- The values that the fields of an object stand for. -/
def ofJsonFields : List (String × Json) → List (String × Value)
  | [] => []
  | (key, json) :: rest => (key, ofJson json) :: ofJsonFields rest

end

end Value

end EffectGraph
