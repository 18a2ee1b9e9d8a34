import EffectGraph.Script.Routine
import EffectGraph.Session.Handlers

/-!
# Inputs of computations

A computation of the catalog gets its resolved operands as a list. It reads them by position and
names them in its failures.
-/

namespace EffectGraph

namespace Catalog

/-- An instruction with these operands. -/
def instruction (tag : Tag) (result : Shape) (operands : List (String × Operand)) : Program :=
  .perform { tag, operands, result }

/-- The input at a position. -/
def input (tag : Tag) (inputs : List Value) (position : Nat) (name : String) :
    Except Failure Value :=
  match inputs[position]? with
  | some value => .ok value
  | none => .error (.missingOperand tag name)

/-- The input at a position, read as something, or the failure that names what was expected. -/
def inputAs {α : Type} (as? : Value → Option α) (expected : String) (tag : Tag)
    (inputs : List Value) (position : Nat) (name : String) : Except Failure α := do
  let value ← input tag inputs position name
  match as? value with
  | some a => .ok a
  | none => .error (.operandType tag name expected value.shape.name)

/-- The number at a position. -/
def numberInput : Tag → List Value → Nat → String → Except Failure Float :=
  inputAs Value.number? "a number"

/-- The text at a position. -/
def textInput : Tag → List Value → Nat → String → Except Failure String :=
  inputAs Value.text? "text"

/-- The list at a position. -/
def itemsInput : Tag → List Value → Nat → String → Except Failure (List Value) :=
  inputAs Value.items? "a list"

/-- The handler of an instruction whose result is computed from two named operands. -/
def binaryHandler (first second : String) (compute : Tag → List Value → Except Interrupt Value) :
    Handler := fun i => Routine.script do
  let a ← i.value first
  let b ← i.value second
  Routine.derive [a, b] fun inputs next => next (compute i.tag inputs)

end Catalog

end EffectGraph
