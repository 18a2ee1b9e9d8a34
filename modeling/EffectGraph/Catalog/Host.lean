import EffectGraph.Catalog.Inputs

/-!
# The host

Instructions that find elements of the document, read and write their properties, and log messages.
A property that is written with a signal follows the signal, and so does a logged message.
-/

namespace EffectGraph

namespace Catalog

namespace Elements

/-- The outcome of looking for an element. -/
def getElementById (domId : Operand) : Program :=
  instruction "dom.get_element_by_id" .record [("id", domId)]

/-- The element with an id; raises a payload if there is none. -/
def element (domId : Operand) : Program := Program.requireOutcome (getElementById domId)

/-- A property of an element. -/
def getProperty (prop target : Operand) : Program :=
  instruction "dom.get_property" .any [("prop", prop), ("target", target)]

/-- Keeps a property of an element at a value. -/
def setProperty (prop value target : Operand) : Program :=
  instruction "dom.set_property" .unit [("prop", prop), ("value", value), ("target", target)]

/-- The outcome of looking for an element. -/
def outcome (domId : String) : Option ElementId → Value
  | some id => .ok (.element id)
  | none => .err (.text ("no element with id `" ++ domId ++ "`"))

/-- Looks for an element. -/
def handleGetElementById : Handler := fun i => Routine.script do
  let domId ← i.text "id"
  return outcome domId (← Routine.ask (.elementById domId))

/-- Reads a property. -/
def handleGetProperty : Handler := fun i => Routine.script do
  let prop ← i.text "prop"
  let target ← i.element "target"
  Routine.property target prop

/-- Writes a property now and whenever the value changes. -/
def handleSetProperty : Handler := fun i => Routine.script do
  let prop ← i.text "prop"
  let target ← i.element "target"
  let value ← i.value "value"
  let _ ← Routine.watch value fun current => do
    Routine.setProperty target prop current
    return .unit
  return .unit

/-- The handlers of elements. -/
def bundle : Bundle where
  name := "dom"
  handlers :=
    [("dom.get_element_by_id", handleGetElementById),
     ("dom.get_property", handleGetProperty),
     ("dom.set_property", handleSetProperty)]

end Elements

namespace Log

/-- Logs a message. -/
def log (message : Operand) : Program := instruction "debug.log" .unit [("message", message)]

/-- Logs a message now and whenever it changes. -/
def handleLog : Handler := fun i => Routine.script do
  let message ← i.value "message"
  let _ ← Routine.watch message fun current => do
    Routine.report (.logged current)
    return .unit
  return .unit

/-- The handlers of logging. -/
def bundle : Bundle where
  name := "debug"
  handlers := [("debug.log", handleLog)]

end Log

end Catalog

end EffectGraph
