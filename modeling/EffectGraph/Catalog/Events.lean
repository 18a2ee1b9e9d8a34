import EffectGraph.Catalog.Inputs

/-!
# Events

Programs create event sources, turn their occurrences into signals by folding, run programs for
them, and merge sources. A pure reducer is a function whose program performs no instruction; an
effectful one may perform any.
-/

namespace EffectGraph

namespace Catalog

namespace Events

/-- The source fired by an event of an element. -/
def on (event target : Operand) : Program :=
  instruction "event.on" .source [("event", event), ("target", target)]

/-- A source that only the host fires. -/
def source (name : Operand) : Program := instruction "event.source" .source [("name", name)]

/-- The argument at a position, unit if there are too few. -/
def argument (args : List Value) (position : Nat) : Value := args[position]?.getD .unit

/-- A fold whose reducer is an operand. -/
def foldWith (source initial reducer : Operand) : Program :=
  instruction "event.fold" .signal
    [("source", source), ("initial", initial), ("reducer", reducer)]

/-- A cell that is written with a function of its value and the payload on every occurrence. -/
def fold (source initial : Operand) (reducer : Value → Value → Value) : Program :=
  foldWith source initial
    (.function fun args => .pure (reducer (argument args 0) (argument args 1)))

/-- A cell that is written on every occurrence with the value of a program. -/
def foldM (source initial : Operand) (reducer : Value → Value → Program) : Program :=
  instruction "event.fold_m" .signal
    [("source", source), ("initial", initial),
     ("reducer", .function fun args => reducer (argument args 0) (argument args 1))]

/-- A cell that is set to the same value on every occurrence. -/
def constantOn (source value : Operand) : Program :=
  instruction "event.constant_on" .signal [("source", source), ("value", value)]

/-- Runs a program for every occurrence, after all has settled. -/
def listen (source : Operand) (handler : Value → Program) : Program :=
  instruction "event.listen" .unit
    [("source", source), ("handler", .function fun args => handler (argument args 0))]

/-- A source that fires whenever one of two does. -/
def merge (left right : Operand) : Program :=
  instruction "event.merge" .source [("left", left), ("right", right)]

/-- Binds a source to an event of an element. -/
def handleOn : Handler := fun i => Routine.script do
  let event ← i.text "event"
  let target ← i.element "target"
  return .source (← Routine.on target event)

/-- Creates a source. -/
def handleSource : Handler := fun i => Routine.script do
  let name ← i.value "name"
  return .source (← Routine.source name.display)

/-- Runs the program of a pure reducer: with no limit, and with no instruction. -/
def runPure (program : Program) : Routine Value :=
  Routine.runWith {} program fun i => Routine.interrupt (.aborted (.impureReducer i.tag))

/-- Attaches a fold with a pure reducer. -/
def handleFold : Handler := fun i => Routine.script do
  let source ← i.source "source"
  let initial ← Routine.read (← i.value "initial")
  let reducer ← i.function "reducer"
  return .signal (← Routine.fold source initial fun state event => runPure (reducer [state, event]))

/-- Attaches a fold with an effectful reducer. -/
def handleFoldM : Handler := fun i => Routine.script do
  let source ← i.source "source"
  let initial ← Routine.read (← i.value "initial")
  let reducer ← i.function "reducer"
  return .signal (← Routine.foldM source (.pure initial) fun state event => reducer [state, event])

/-- Attaches a cell that is set to the same value on every occurrence. -/
def handleConstantOn : Handler := fun i => Routine.script do
  let source ← i.source "source"
  let value ← Routine.read (← i.value "value")
  return .signal (← Routine.constantOn source value)

/-- Subscribes a listener that runs a program in reaction to each occurrence. -/
def handleListen : Handler := fun i => Routine.script do
  let source ← i.source "source"
  let handler ← i.function "handler"
  Routine.listen source fun payload => Routine.react (handler [payload])
  return .unit

/-- Merges two sources. -/
def handleMerge : Handler := fun i => Routine.script do
  let left ← i.source "left"
  let right ← i.source "right"
  return .source (← Routine.merge left right)

/-- The handlers of events. -/
def bundle : Bundle where
  name := "event"
  handlers :=
    [("event.on", handleOn),
     ("event.source", handleSource),
     ("event.fold", handleFold),
     ("event.fold_m", handleFoldM),
     ("event.constant_on", handleConstantOn),
     ("event.listen", handleListen),
     ("event.merge", handleMerge)]

end Events

end Catalog

end EffectGraph
