import EffectGraph.Session.Execution

/-!
# Settling changes

A change that comes from outside is settled as one batch. A written cell is propagated. An
occurrence of a source first runs all reducers in subscription order, each writing its cell, then
makes one pass over all that depends on the written cells, and then runs the listeners. A pass
computes every affected derived node once, after its inputs, and runs the affected watches after
that.

Changes requested meanwhile wait in the queue and are settled after it, in the order of their
requests. A computation that fails leaves the value of its node alone, the rest goes on, and all
failures are reported together at the end.

`Session.hooksAt` closes the circle: at each level handlers and settled changes run scripts whose
own calls go one level down. The levels bound how deep handlers and batches nest and how many
changes a batch settles; at level zero nothing ends any more.
-/

namespace EffectGraph

namespace Session

open Exec

variable (session : Session) (hooks : Hooks)

/-- Stores the result of evaluating a node again. -/
def store (id : SignalId) : Except Interrupt Value → Exec (Except Failure Unit)
  | .error interrupt => return .error interrupt.toFailure
  | .ok value => settleNode id value

/-- What a kind of node does with its resolved inputs. -/
def computation : NodeKind → List Value → Exec (Except Interrupt Value)
  | .cell, _ => return .ok .unit
  | .derived _ compute, inputs => (compute inputs).exec session hooks
  | .watch _ effect, inputs => effectOn (fun value => (effect value).exec session hooks) inputs

/-- Computes a node from the current values of its inputs. -/
def evaluate (id : SignalId) : Exec (Except Failure Unit) := do
  match (← get).graph.node id with
  | .error failure => return .error failure
  | .ok node =>
    if node.kind.isCell then return .ok ()
    else
      let result ← evaluateOn id node.kind (computation session hooks node.kind)
      store id result

/-- Computes nodes in order, except those that do not exist any more, and collects the failures. -/
def evaluateAll : List SignalId → Exec (List Failure)
  | [] => return []
  | id :: rest => do
    if (← get).graph.contains id then
      match ← evaluate session hooks id with
      | .ok () => evaluateAll rest
      | .error failure =>
        report (.recomputationFailed id failure)
        return failure :: (← evaluateAll rest)
    else evaluateAll rest

/-- The node is a watch. -/
def isWatch (graph : Graph) (id : SignalId) : Bool := (graph.node? id).any (·.kind.isWatch)

/-- Brings everything below some cells up to date: derived nodes first, each after its inputs, then
watches. -/
def propagate (roots : List SignalId) : Exec (List Failure) := do
  if roots.isEmpty then return []
  let graph := (← get).graph
  let (watches, derived) := (graph.plan roots).partition (isWatch graph)
  report (.propagating roots.length derived.length watches.length)
  begin (.propagating roots)
  evaluateAll session hooks (derived ++ watches)

/-- What a reducer makes of the value of its cell and a payload, read to a plain value. -/
def reduce (payload : Value) (target : SignalId) (reducer : Value → Script) :
    Exec (Except Failure Value) := do
  match (← get).graph.value target with
  | .error failure => return .error failure
  | .ok current =>
    begin (.reducing target current payload)
    match ← (reducer current).exec session hooks with
    | .error interrupt => return .error interrupt.toFailure
    | .ok value => return (← get).graph.resolve value

/-- The script of a program that is run in reaction to an occurrence. -/
def reaction (program : Program) : Script :=
  Script.react program fun result => .done (result.mapError Interrupt.aborted)

/-- What a reducer that gives programs makes of the value of its cell and a payload. -/
def reduceProgram (payload : Value) (target : SignalId) (reducer : Value → Program) :
    Exec (Except Failure Value) := do
  match (← get).graph.value target with
  | .error failure => return .error failure
  | .ok current =>
    begin (.reducing target current payload)
    let result ← (reaction (reducer current)).exec session hooks
    return result.mapError Interrupt.toFailure

/-- Writes what a reducer gave into its cell. -/
def storeReduced (target : SignalId) : Except Failure Value → Exec (Except Failure Unit)
  | .error failure => return .error failure
  | .ok value => write target value

/-- Runs the reducers among some subscribers. Collects the cells written, each once, and the
failures. -/
def reduceAll (payload : Value) (written : List SignalId) :
    List Subscriber → Exec (List SignalId × List Failure)
  | [] => return (written, [])
  | .fold target reducer :: rest => do
    let next ← reduce session hooks payload target fun current => reducer current payload
    finish target next rest
  | .foldProgram target reducer :: rest => do
    let next ← reduceProgram session hooks payload target fun current => reducer current payload
    finish target next rest
  | .listener _ :: rest => reduceAll payload written rest
  | .forward _ :: rest => reduceAll payload written rest
where
  /-- Stores the value that a reducer gave, and goes on. -/
  finish (target : SignalId) (next : Except Failure Value) (rest : List Subscriber) :
      Exec (List SignalId × List Failure) := do
    match ← storeReduced target next with
    | .ok () => reduceAll payload (if target ∈ written then written else written ++ [target]) rest
    | .error failure =>
      report (.reducerFailed target failure)
      let (written, failures) ← reduceAll payload written rest
      return (written, failure :: failures)

/-- Runs the listeners among some subscribers and collects their failures. -/
def notifyAll (payload : Value) : List Subscriber → Exec (List Failure)
  | [] => return []
  | .listener listener :: rest => do
    begin (.listening payload)
    match ← (listener payload).exec session hooks with
    | .ok _ => notifyAll payload rest
    | .error interrupt => return interrupt.toFailure :: (← notifyAll payload rest)
  | _ :: rest => notifyAll payload rest

/-- Delivers an occurrence of a source, and collects the failures. -/
def deliver (source : SourceId) (payload : Value) : Exec (List Failure) := do
  let w ← get
  match w.hub.deliver source with
  | .error failure => return [failure]
  | .ok (subscribers, hub) =>
    set { w with hub }
    report (.delivering source subscribers.length)
    let (written, reducerFailures) ← reduceAll session hooks payload [] subscribers
    let passFailures ← propagate session hooks written
    let listenerFailures ← notifyAll session hooks payload subscribers
    return reducerFailures ++ passFailures ++ listenerFailures

/-- Applies one change, and collects the failures. -/
def apply (change : Change) : Exec (List Failure) := do
  begin (.applied change)
  match change with
  | .written cell => propagate session hooks [cell]
  | .fired source payload => deliver session hooks source payload

/-- Applies a change and then all that wait, until none waits. The number bounds how many are
applied. -/
def drain : Nat → Change → Exec (List Failure)
  | 0, _ => failure
  | n + 1, change => do
    let failures ← apply session hooks change
    let w ← get
    match w.queue with
    | [] => return failures
    | next :: queue =>
      set { w with queue }
      return failures ++ (← drain n next)

/-- Settles a change and all that it brings about. -/
def settle (bound : Nat) (change : Change) : Exec (Except Failure Unit) := do
  modify fun w => { w with settling := true }
  let failures ← drain session hooks bound change
  modify fun w => { w with settling := false }
  unless failures.isEmpty do report (.settledWithFailures failures.length)
  return Script.settled failures

/-- The shape that counts for a declaration: that of the current value, for a signal. -/
def currentShape (w : World) : Value → Except Failure Shape
  | .signal id => (w.graph.value id).map Value.shape
  | value => .ok value.shape

/-- Compares a result with the shape that its instruction declares. A signal will do if its current
value does. -/
def checkShape (i : Instruction) (value : Value) : Exec (Except Interrupt Value) := do
  if i.result.admits value.shape then return .ok value
  else
    match currentShape (← get) value with
    | .error failure => return .error (.ofFailure failure)
    | .ok found =>
      if i.result.admits found then return .ok value
      else return .error (.aborted (.resultShape i.tag i.result found))

/-- Hands an instruction to the handler of its tag, and checks the result if the settings ask for
it. -/
def dispatch (i : Instruction) : Exec (Except Interrupt Value) := do
  match Keyed.get? i.tag session.handlers with
  | none => return .error (.aborted (.unknownTag i.tag))
  | some handler =>
    match ← (handler i).exec session hooks with
    | .error interrupt => return .error interrupt
    | .ok value =>
      if session.settings.checkResults then checkShape i value else return .ok value

/-- The hooks of a level: what they run makes its own calls one level below. -/
def hooksAt (session : Session) : Nat → Hooks
  | 0 => ⟨fun _ => failure, fun _ => failure⟩
  | n + 1 =>
    ⟨fun i => dispatch session (hooksAt session n) i,
      fun change => settle session (hooksAt session n) n change⟩

/-- Advances a session by a script, at a level. There is no result if handlers and batches nest
deeper than the level, or a batch settles more changes; the state is then what the script had got
to. -/
def advance (session : Session) (level : Nat) (script : Script) (w : World) :
    Option (Except Interrupt Value) × World :=
  script.exec session (session.hooksAt level) w

/-- Executes a script on the state of a session, at a level, if it comes to an end there. -/
def execute (session : Session) (level : Nat) (script : Script) (w : World) :
    Option (Except Interrupt Value × World) :=
  match session.advance level script w with
  | (some result, w) => some (result, w)
  | (none, _) => none

end Session

end EffectGraph
