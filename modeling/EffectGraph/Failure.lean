import EffectGraph.Value.Display

/-!
# Failures

Two ways to end without a value are kept apart. A `Failure` is fatal: it ends a run or the settling
of a change, and no program catches it. An `Interrupt` is what handlers and stored computations end
with: a raised payload, which travels as data until an `attempt` resolves it, or a fatal failure.

A raised payload that nobody catches becomes the failure `uncaught`, and a failure `uncaught` that
reaches a handler from a nested run is a raised payload again.
-/

namespace EffectGraph

/-- The name of a kind of instruction, by convention `namespace.operation`. -/
abbrev Tag := String

namespace Tag

/-- The part of a tag before its first point, or the whole tag. -/
def space (tag : Tag) : String := String.ofList (tag.toList.takeWhile (· ≠ '.'))

end Tag

/-- Why a run, or the settling of a change, ended without a value. -/
inductive Failure where
  /-- No handler is registered for the tag. -/
  | unknownTag (tag : Tag)
  /-- A handler asked for an operand that the instruction does not carry. -/
  | missingOperand (tag : Tag) (operand : String)
  /-- An operand does not have the shape that its handler requires. -/
  | operandType (tag : Tag) (operand expected found : String)
  /-- A program operand reached a handler before it was run. -/
  | unresolvedOperand (tag : Tag) (operand : String)
  /-- A handler produced a value of another shape than the instruction declares. -/
  | resultShape (tag : Tag) (expected found : Shape)
  /-- A raised payload that no handler resolved. -/
  | uncaught (payload : Value)
  /-- The signal was never created, or is removed. -/
  | unknownSignal (id : SignalId)
  /-- The event source was never created. -/
  | unknownSource (id : SourceId)
  /-- Only cells are written from outside. -/
  | notWritable (id : SignalId)
  /-- A pure reducer asked for an effect. -/
  | impureReducer (tag : Tag)
  /-- The step budget ran out. -/
  | stepLimit (limit : Nat)
  /-- The host rejected an operation. -/
  | host (message : String)
  /-- Failures met while one change was settled, in the order they occurred. -/
  | propagation (failures : List Failure)

instance : Inhabited Failure := ⟨.host ""⟩

/-- The text of a failure. -/
def Failure.message : Failure → String
  | .unknownTag tag => s!"no handler registered for instruction `{tag}`"
  | .missingOperand tag operand => s!"instruction `{tag}` is missing operand `{operand}`"
  | .operandType tag operand expected found =>
    s!"operand `{operand}` of `{tag}` must be {expected}, found {found}"
  | .unresolvedOperand tag operand =>
    s!"operand `{operand}` of `{tag}` reached its handler unevaluated"
  | .resultShape tag expected found =>
    s!"`{tag}` declares a {expected.name} result but its handler produced {found.name}"
  | .uncaught payload => "uncaught failure: " ++ payload.display
  | .unknownSignal id => "unknown signal " ++ id.text
  | .unknownSource id => "unknown event source " ++ id.text
  | .notWritable id => id.text ++ " is derived and cannot be written directly"
  | .impureReducer tag =>
    s!"pure reducer requested `{tag}`; effectful reducers belong in fold_m"
  | .stepLimit limit => s!"program exceeded the step limit of {limit}"
  | .host message => "host error: " ++ message
  | .propagation failures => s!"{failures.length} failure(s) while propagating a change"

/-- How a handler or a stored computation ends without a value. -/
inductive Interrupt where
  /-- A payload is raised; an `attempt` around can resolve it. -/
  | raised (payload : Value)
  /-- A fatal failure. -/
  | aborted (failure : Failure)

namespace Interrupt

/-- The text of an interrupt. -/
def message : Interrupt → String
  | .raised payload => "raised: " ++ payload.display
  | .aborted failure => failure.message

/-- The failure that an interrupt is to those who cannot catch. -/
def toFailure : Interrupt → Failure
  | .raised payload => .uncaught payload
  | .aborted failure => failure

/-- The interrupt that a failure of a nested run is. -/
def ofFailure : Failure → Interrupt
  | .uncaught payload => .raised payload
  | failure => .aborted failure

/-- A failure goes through an interrupt unchanged. -/
@[simp] theorem toFailure_ofFailure (failure : Failure) :
    (ofFailure failure).toFailure = failure := by
  cases failure <;> rfl

end Interrupt

end EffectGraph
