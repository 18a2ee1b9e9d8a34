import EffectGraph.Catalog.Inputs

/-!
# Cells

Programs keep state in cells: they create them, read them, write them, and replace their value by a
function of it.
-/

namespace EffectGraph

namespace Catalog

namespace Signals

/-- A new cell. -/
def cell (initial : Operand) : Program := instruction "signal.cell" .signal [("initial", initial)]

/-- The value of a signal; what is no signal stays as it is. -/
def sample (signal : Operand) : Program := instruction "signal.sample" .any [("signal", signal)]

/-- Writes a cell. -/
def set (signal value : Operand) : Program :=
  instruction "signal.set" .unit [("signal", signal), ("value", value)]

/-- Replaces the value of a cell by a function of it. -/
def modify (signal : Operand) (f : Value → Value) : Program :=
  instruction "signal.modify" .unit
    [("signal", signal), ("update", .function fun args => .pure (f (args.getLast?.getD .unit)))]

/-- Creates a cell. -/
def handleCell : Handler := fun i => Routine.script do
  let initial ← Routine.read (← i.value "initial")
  return .signal (← Routine.cell initial)

/-- Reads a signal. -/
def handleSample : Handler := fun i => Routine.script do
  Routine.read (← i.value "signal")

/-- Writes a cell. -/
def handleSet : Handler := fun i => Routine.script do
  let target ← i.signal "signal"
  let value ← Routine.read (← i.value "value")
  Routine.set target value
  return .unit

/-- Replaces the value of a cell by that of the program which the function of the instruction gives
for it. -/
def handleModify : Handler := fun i => Routine.script do
  let target ← i.signal "signal"
  let update ← i.function "update"
  let current ← Routine.sample target
  let next ← Routine.run (update [current])
  Routine.set target next
  return .unit

/-- The handlers of cells. -/
def bundle : Bundle where
  name := "signal"
  handlers :=
    [("signal.cell", handleCell),
     ("signal.sample", handleSample),
     ("signal.set", handleSet),
     ("signal.modify", handleModify)]

end Signals

end Catalog

end EffectGraph
