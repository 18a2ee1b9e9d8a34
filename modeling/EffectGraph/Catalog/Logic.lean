import EffectGraph.Catalog.Inputs

/-!
# Logic

Conditions hold or do not hold in the sense of `Value.holds`. Comparisons take two numbers or two
texts; texts compare by code points. The rules read their inputs by position, and conjunction and
disjunction read the second one only if the first does not decide.
-/

namespace EffectGraph

namespace Catalog

namespace Logic

/-- The instruction of a binary operation. -/
def binary (tag : Tag) (left right : Operand) : Program :=
  instruction tag .bool [("left", left), ("right", right)]

/-- Both conditions hold. -/
def and (left right : Operand) : Program := binary "logic.and" left right

/-- One of two conditions holds. -/
def or (left right : Operand) : Program := binary "logic.or" left right

/-- A condition does not hold. -/
def not (value : Operand) : Program := instruction "logic.not" .bool [("value", value)]

/-- Two values are equal. -/
def equals (left right : Operand) : Program := binary "logic.equals" left right

/-- One value is greater than another. -/
def greaterThan (left right : Operand) : Program := binary "logic.greater_than" left right

/-- One value is less than another. -/
def lessThan (left right : Operand) : Program := binary "logic.less_than" left right

/-- One of two values, as a condition decides. Both are evaluated. -/
def ifElse (condition thenValue elseValue : Operand) : Program :=
  instruction "logic.if_else" .any
    [("condition", condition), ("then", thenValue), ("else", elseValue)]

/-- The value of the first case whose condition holds, or a default. -/
def matchFirst (cases : List (Program × Program)) (default : Operand) : Program :=
  let pairs := Program.sequence (cases.map fun c => Program.sequence [c.1, c.2])
  instruction "logic.match" .any [("cases", .program pairs), ("default", default)]

/-- What a rule makes of its inputs. -/
abbrev Rule := Tag → List Value → Except Failure Value

/-- Compares two numbers. -/
def compareNumbers (tag : Tag) (x y : Float) : Except Failure Ordering :=
  if x < y then .ok .lt
  else if y < x then .ok .gt
  else if x == y then .ok .eq
  else .error (.operandType tag "right" "a comparable number" "NaN")

/-- Compares two texts. -/
def compareTexts (a b : String) : Ordering := if a < b then .lt else if b < a then .gt else .eq

/-- Compares the two inputs. -/
def compare (tag : Tag) (inputs : List Value) : Except Failure Ordering := do
  let left ← input tag inputs 0 "left"
  let right ← input tag inputs 1 "right"
  match left, right with
  | .number x, .number y => compareNumbers tag x y
  | .text a, .text b => .ok (compareTexts a b)
  | _, _ =>
    .error (.operandType tag "right" ("the same kind as left (" ++ left.shape.name ++ ")")
      right.shape.name)

/-- The rule of conjunction. -/
def andRule : Rule := fun tag inputs => do
  let left ← input tag inputs 0 "left"
  if left.holds then
    let right ← input tag inputs 1 "right"
    return .bool right.holds
  else return .bool false

/-- The rule of disjunction. -/
def orRule : Rule := fun tag inputs => do
  let left ← input tag inputs 0 "left"
  if left.holds then return .bool true
  else
    let right ← input tag inputs 1 "right"
    return .bool right.holds

/-- The rule of negation. -/
def notRule : Rule := fun tag inputs => do
  let value ← input tag inputs 0 "value"
  return .bool !value.holds

/-- The rule of equality. -/
def equalsRule : Rule := fun tag inputs => do
  let left ← input tag inputs 0 "left"
  let right ← input tag inputs 1 "right"
  return .bool (left == right)

/-- The rule of the greater value. -/
def greaterRule : Rule := fun tag inputs => do return .bool ((← compare tag inputs) = .gt)

/-- The rule of the smaller value. -/
def lessRule : Rule := fun tag inputs => do return .bool ((← compare tag inputs) = .lt)

/-- The rule of selection. -/
def ifElseRule : Rule := fun tag inputs => do
  let condition ← input tag inputs 0 "condition"
  if condition.holds then input tag inputs 1 "then" else input tag inputs 2 "else"

/-- The value of the first case whose condition holds. A case is a list of a condition and a value;
other items are passed over. -/
def firstMatch? : List Value → Option Value
  | [] => none
  | .list [condition, value] :: rest => if condition.holds then some value else firstMatch? rest
  | _ :: rest => firstMatch? rest

/-- The rule of case distinction. -/
def matchRule : Rule := fun tag inputs => do
  let cases ← itemsInput tag inputs 0 "cases"
  match firstMatch? cases with
  | some value => return value
  | none => input tag inputs 1 "default"

/-- The handler of a rule. -/
def handler (rule : Rule) : Handler := fun i => Routine.script do
  let operands ← i.values
  Routine.derive operands fun inputs => Routine.ofExcept (rule i.tag inputs)

/-- The handlers of logic. -/
def bundle : Bundle where
  name := "logic"
  handlers :=
    [("logic.and", handler andRule),
     ("logic.or", handler orRule),
     ("logic.not", handler notRule),
     ("logic.equals", handler equalsRule),
     ("logic.greater_than", handler greaterRule),
     ("logic.less_than", handler lessRule),
     ("logic.if_else", handler ifElseRule),
     ("logic.match", handler matchRule)]

end Logic

end Catalog

end EffectGraph
