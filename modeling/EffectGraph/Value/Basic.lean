import EffectGraph.Keyed
import EffectGraph.Number.Text

/-!
# Values

Everything a program computes, every operand it carries and every event payload is a `Value`.
Handles of signals, event sources and host elements are values too, so that they flow through
programs like other data. The `Shape` of a value is what instructions declare about their results.
-/

namespace EffectGraph

/-- Handle of a node of the reactive graph. -/
structure SignalId where
  /-- The slot of the node. -/
  index : Nat
  deriving Repr, DecidableEq

/-- Handle of an event source. -/
structure SourceId where
  /-- The slot of the source. -/
  index : Nat
  deriving Repr, DecidableEq

/-- Handle of an element of the host document. -/
structure ElementId where
  /-- The slot of the element. -/
  index : Nat
  deriving Repr, DecidableEq

/-- The text of a signal handle. -/
def SignalId.text (id : SignalId) : String := "signal#" ++ toString id.index

/-- The text of a source handle. -/
def SourceId.text (id : SourceId) : String := "source#" ++ toString id.index

/-- The text of an element handle. -/
def ElementId.text (id : ElementId) : String := "element#" ++ toString id.index

/-- A value of no fixed type. The fields of a record ascend by key. -/
inductive Value where
  /-- No meaningful result. -/
  | unit
  /-- A truth value. -/
  | bool (b : Bool)
  /-- A number. -/
  | number (x : Float)
  /-- A text. -/
  | text (s : String)
  /-- A list. -/
  | list (items : List Value)
  /-- A record. -/
  | record (fields : List (String × Value))
  /-- A host element. -/
  | element (id : ElementId)
  /-- An event source. -/
  | source (id : SourceId)
  /-- A node of the reactive graph. -/
  | signal (id : SignalId)

instance : Inhabited Value := ⟨.unit⟩

/-- The shape of a value; `any` stands for all of them in a declaration. -/
inductive Shape where
  | any
  | unit
  | bool
  | number
  | text
  | list
  | record
  | element
  | source
  | signal
  deriving Repr, DecidableEq

namespace Shape

/-- Every shape, in the order of their declaration. -/
def all : List Shape :=
  [.any, .unit, .bool, .number, .text, .list, .record, .element, .source, .signal]

/-- The name of a shape. -/
def name : Shape → String
  | .any => "any"
  | .unit => "unit"
  | .bool => "bool"
  | .number => "number"
  | .text => "text"
  | .list => "list"
  | .record => "record"
  | .element => "element"
  | .source => "source"
  | .signal => "signal"

/-- The shape with a name. -/
def ofName? (s : String) : Option Shape := all.find? (·.name = s)

/-- A value of shape `found` satisfies the declaration `expected`. -/
def admits (expected found : Shape) : Bool := expected = .any || expected = found

theorem ofName?_name (shape : Shape) : ofName? shape.name = some shape := by
  cases shape <;> decide

theorem admits_iff {expected found : Shape} :
    expected.admits found = true ↔ expected = .any ∨ expected = found := by
  simp [admits]

end Shape

namespace Value

/-- The shape of a value. -/
def shape : Value → Shape
  | .unit => .unit
  | .bool _ => .bool
  | .number _ => .number
  | .text _ => .text
  | .list _ => .list
  | .record _ => .record
  | .element _ => .element
  | .source _ => .source
  | .signal _ => .signal

mutual

/-- Equality of values. Numbers compare as numbers: both zeros are equal, and what is not a number
differs from itself. -/
protected def beq : Value → Value → Bool
  | .unit, .unit => true
  | .bool a, .bool b => a = b
  | .number a, .number b => a == b
  | .text a, .text b => a = b
  | .list a, .list b => beqItems a b
  | .record a, .record b => beqFields a b
  | .element a, .element b => a = b
  | .source a, .source b => a = b
  | .signal a, .signal b => a = b
  | _, _ => false

/-- Equality of lists, item by item. -/
def beqItems : List Value → List Value → Bool
  | [], [] => true
  | a :: as, b :: bs => a.beq b && beqItems as bs
  | _, _ => false

/-- Equality of records, field by field. -/
def beqFields : List (String × Value) → List (String × Value) → Bool
  | [], [] => true
  | (k, a) :: as, (l, b) :: bs => k = l && a.beq b && beqFields as bs
  | _, _ => false

end

instance : BEq Value := ⟨Value.beq⟩

/-- The record of some pairs; of pairs with the same key the last one counts. -/
def ofPairs (pairs : List (String × Value)) : Value := .record (Keyed.ofList pairs)

/-- The outcome of a host operation that succeeded. -/
def ok (value : Value) : Value := .record [("ok", value)]

/-- The outcome of a host operation that failed. -/
def err (payload : Value) : Value := .record [("err", payload)]

/-- Reads an outcome back: a record with one field, `ok` or `err`. -/
def outcome? : Value → Option (Except Value Value)
  | .record [(key, value)] =>
    if key = "ok" then some (.ok value)
    else if key = "err" then some (.error value)
    else none
  | _ => none

/-- The number a value is. -/
def number? : Value → Option Float
  | .number x => some x
  | _ => none

/-- The truth value a value is. -/
def bool? : Value → Option Bool
  | .bool b => some b
  | _ => none

/-- The text a value is. -/
def text? : Value → Option String
  | .text s => some s
  | _ => none

/-- The items of a list. -/
def items? : Value → Option (List Value)
  | .list items => some items
  | _ => none

/-- The fields of a record. -/
def fields? : Value → Option (List (String × Value))
  | .record fields => some fields
  | _ => none

/-- The signal a value is. -/
def signal? : Value → Option SignalId
  | .signal id => some id
  | _ => none

/-- The event source a value is. -/
def source? : Value → Option SourceId
  | .source id => some id
  | _ => none

/-- The element a value is. -/
def element? : Value → Option ElementId
  | .element id => some id
  | _ => none

/-- What a condition makes of a value: unit, `false`, zero, what is not a number and the empty text
do not hold, and all else does. -/
def holds : Value → Bool
  | .unit => false
  | .bool b => b
  | .number x => x != 0 && !x.isNaN
  | .text s => !s.isEmpty
  | _ => true

@[simp] theorem outcome?_ok (value : Value) : (ok value).outcome? = some (.ok value) := rfl

@[simp] theorem outcome?_err (payload : Value) :
    (err payload).outcome? = some (.error payload) := rfl

end Value

end EffectGraph
