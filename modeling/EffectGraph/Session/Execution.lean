import EffectGraph.Session.World
import EffectGraph.Program.Machine

/-!
# Executing scripts

`Script.exec` executes a script on the state of a session. It is a recursion on the script: the
scripts that a call carries are parts of it. Two kinds of calls reach scripts from elsewhere, and
these are left to `Hooks`: handing an instruction to its handler, and settling a change, which runs
the computations, reducers and listeners that the state holds. While a change is being settled,
further changes only go into the queue, so the second hook is not used then.

An execution that comes to no end has no result. `Exec` is a state monad with such missing results;
the state is there in any case, and is what the execution had got to.
-/

namespace EffectGraph

/-- An action on the state of a session. It has no result if it does not end, and leaves the state
that it had got to. -/
abbrev Exec (α : Type) := OptionT (StateM World) α

/-- What is done at the calls that reach scripts from elsewhere. -/
structure Hooks where
  /-- Hands an instruction to its handler. -/
  dispatch : Instruction → Exec (Except Interrupt Value)
  /-- Settles a change and all that it brings about. -/
  settle : Change → Exec (Except Failure Unit)

namespace Exec

/-- Reports an event. -/
def report (event : Event) : Exec Unit := modify (·.report event)

/-- Notes a moment in the settling of changes. -/
def begin (activity : Activity) : Exec Unit := modify (·.begin activity)

/-- An action that may fail and then changes nothing. -/
def tryWorld {α : Type} (f : World → Except Failure (α × World)) : Exec (Except Failure α) :=
  fun w =>
    match f w with
    | .ok (a, w) => (some (.ok a), w)
    | .error failure => (some (.error failure), w)

/-- Stores a value that was written or computed. -/
def settleNode (id : SignalId) (value : Value) : Exec (Except Failure Unit) :=
  tryWorld fun w => (w.graph.settle id value).map fun graph => ((), { w with graph })

/-- Adds a node that has no value yet. -/
def insertNode (kind : NodeKind) (inputs : List SignalId) : Exec (Except Failure SignalId) :=
  tryWorld fun w => (w.graph.insert kind inputs).map fun (id, graph) => (id, { w with graph })

/-- Removes a node and all below it, without dropping any subscriber. -/
def removeNode (id : SignalId) : Exec (Except Failure Unit) :=
  tryWorld fun w => (w.graph.remove id).map fun (_, graph) => ((), { w with graph })

/-- Writes a cell, and notes that it was written. -/
def write (cell : SignalId) (value : Value) : Exec (Except Failure Unit) := do
  match ← settleNode cell value with
  | .error failure => return .error failure
  | .ok () =>
    begin (.wrote cell value)
    return .ok ()

/-- Adds a subscriber to a source. -/
def subscribe (source : SourceId) (subscriber : Subscriber) : Exec (Except Failure Unit) :=
  tryWorld fun w => (w.hub.subscribe source subscriber).map fun hub => ((), { w with hub })

/-- Adds a cell and a subscriber that writes it. -/
def attach (source : SourceId) (initial : Value) (subscriber : SignalId → Subscriber)
    (event : SignalId → Event) : Exec (Except Failure SignalId) := do
  match (← get).hub.get source with
  | .error failure => return .error failure
  | .ok _ =>
    let target ← modifyGet (·.createCell initial)
    match ← subscribe source (subscriber target) with
    | .error failure => return .error failure
    | .ok () =>
      report (event target)
      return .ok target

/-- Settles a change, or puts it into the queue if one is being settled. A write of a cell that
waits already is not put there twice. -/
def request (hooks : Hooks) (change : Change) : Exec (Except Failure Unit) := do
  let w ← get
  if w.settling then
    if change.waitsIn w.queue then return .ok ()
    else
      report .changeQueued
      begin (.queued change)
      modify fun w => { w with queue := w.queue ++ [change] }
      return .ok ()
  else
    hooks.settle change

/-- Writes a cell at the request of host code. The value is stored at once. -/
def writeCell (hooks : Hooks) (cell : SignalId) (value : Value) : Exec (Except Failure Unit) := do
  match (← get).graph.node cell with
  | .error failure => return .error failure
  | .ok node =>
    if node.kind.isCell then
      match ← write cell value with
      | .error failure => return .error failure
      | .ok () => request hooks (.written cell)
    else return .error (.notWritable cell)

/-- Delivers an occurrence to a source. -/
def fire (hooks : Hooks) (source : SourceId) (payload : Value) : Exec (Except Failure Unit) := do
  match (← get).hub.get source with
  | .error failure => return .error failure
  | .ok _ => request hooks (.fired source payload)

/-- Finishes the first evaluation of a node: stores its value, or removes the node if there is
none. -/
def finishFirst (id : SignalId) (result : Except Interrupt Value) :
    Exec (Except Interrupt Unit) := do
  let outcome ← match result with
    | .error interrupt => pure (Except.error interrupt)
    | .ok value => do
      match ← settleNode id value with
      | .ok () => pure (.ok ())
      | .error failure => pure (.error (.ofFailure failure))
  match outcome with
  | .ok () => return .ok ()
  | .error interrupt =>
    match ← removeNode id with
    | .ok () => return .error interrupt
    | .error failure => return .error (.ofFailure failure)

/-- Evaluates a node: hands its resolved inputs to its computation. -/
def evaluateOn (id : SignalId) (kind : NodeKind)
    (compute : List Value → Exec (Except Interrupt Value)) : Exec (Except Interrupt Value) := do
  match (← get).graph.inputsOf kind with
  | .error failure => return .error (.ofFailure failure)
  | .ok inputs =>
    begin (.evaluating id inputs)
    compute inputs

/-- Adds a node and evaluates it for the first time. -/
def create (kind : NodeKind) (inputs : List SignalId)
    (compute : List Value → Exec (Except Interrupt Value)) : Exec (Except Interrupt SignalId) := do
  match ← insertNode kind inputs with
  | .error failure => return .error (.ofFailure failure)
  | .ok id =>
    let result ← evaluateOn id kind compute
    let finished ← finishFirst id result
    return finished.map fun () => id

/-- Computes a value from operands, or creates a node that does. -/
def derive (operands : List Value) (kind : NodeKind)
    (compute : List Value → Exec (Except Interrupt Value)) : Exec (Except Interrupt Value) := do
  match Value.dependencies operands with
  | [] => compute operands
  | inputs =>
    match ← create kind inputs compute with
    | .error interrupt => return .error interrupt
    | .ok id =>
      report (.signalDerived id)
      return .ok (.signal id)

/-- The computation of a watch: the effect on its only input, and unit as its value. -/
def effectOn (effect : Value → Exec (Except Interrupt Value)) (inputs : List Value) :
    Exec (Except Interrupt Value) := do
  let result ← effect (inputs.headD .unit)
  return result.map fun _ => .unit

/-- Runs an effect on an input, or creates a node that does. -/
def watch (input : Value) (kind : NodeKind) (effect : Value → Exec (Except Interrupt Value)) :
    Exec (Except Interrupt (Option SignalId)) := do
  if input.isReactive then
    let created ← create kind (input.collectSignals []) (effectOn effect)
    return created.map some
  else
    let result ← effect input
    return result.map fun _ => none

/-- Hands an instruction to an interpreter, and reports it before if the settings say so. -/
def announced (settings : Settings) (interpreter : Instruction → Exec (Except Interrupt Value))
    (step : Nat) (i : Instruction) : Exec (Except Interrupt Value) := do
  if settings.traceSteps then report (.dispatching step i.tag)
  interpreter i

/-- Runs a program under some settings, and reports how the run ended. -/
def runProgram (settings : Settings) (interpreter : Instruction → Exec (Except Interrupt Value))
    (program : Program) : Exec (Except Failure Value) := do
  let ⟨outcome, steps, w⟩ :=
    program.run (announced settings interpreter) settings.stepLimit (← get)
  set w
  match outcome with
  | .yielded _ => report (.programFinished steps)
  | .raised payload => report (.failureEscaped steps payload)
  | .exhausted limit => report (.stepLimitReached limit)
  | .aborted _ => pure ()
  | .unanswered => failure
  match outcome.result with
  | some result => return result
  | none => failure

end Exec

open Exec in
/-- Executes a script. -/
def Script.exec (session : Session) (hooks : Hooks) : Script → Exec (Except Interrupt Value)
  | .done result => return result
  | .ask request next => do
    let reply ← modifyGet (World.answer session request)
    (next reply).exec session hooks
  | .derive operands compute next => do
    let reply ← Exec.derive operands (.derived operands compute) fun inputs =>
      (compute inputs).exec session hooks
    (next reply).exec session hooks
  | .watch input effect next => do
    let reply ← Exec.watch input (.watch input effect) fun value =>
      (effect value).exec session hooks
    (next reply).exec session hooks
  | .set cell value next => do
    let reply ← writeCell hooks cell value
    (next reply).exec session hooks
  | .fire source payload next => do
    let reply ← Exec.fire hooks source payload
    (next reply).exec session hooks
  | .fold source initial reducer next => do
    let reply ← attach source initial (.fold · reducer) (.foldAttached source)
    (next reply).exec session hooks
  | .foldProgram source initial reducer next => do
    let reply ← attach source initial (.foldProgram · reducer) (.effectfulFoldAttached source)
    (next reply).exec session hooks
  | .listen source listener next => do
    let reply ← subscribe source (.listener listener)
    (next reply).exec session hooks
  | .run program next => do
    let reply ← runProgram session.settings hooks.dispatch program
    (next reply).exec session hooks
  | .runWith settings program interpreter next => do
    let reply ← runProgram settings (fun i => (interpreter i).exec session hooks) program
    (next reply).exec session hooks
  | .dispatch instruction next => do
    let reply ← hooks.dispatch instruction
    (next reply).exec session hooks

end EffectGraph
