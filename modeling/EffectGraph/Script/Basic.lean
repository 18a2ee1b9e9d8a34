import EffectGraph.Journal
import EffectGraph.Document
import EffectGraph.Program.Combinators

/-!
# Scripts

Handlers, reducers, listeners and the computations of derived signals are host code: they look at
the session they run in, change it, and end with a value or an interrupt. A `Script` describes such
code as data. It either is done, or makes one call and goes on with the reply.

Calls that neither run nor store other scripts are `Request`s; each request has its own type of
reply. The other calls carry the scripts they store or run with them. Because scripts are data, the
state of a session can hold them.
-/

namespace EffectGraph

/-- What can be told about a node of the reactive graph. -/
structure NodeInfo where
  /-- The handle of the node. -/
  id : SignalId
  /-- `cell`, `derived` or `watch`. -/
  kind : String
  /-- The node has had its first value. -/
  settled : Bool
  /-- Zero without inputs, else one above the highest rank of an input. -/
  rank : Nat
  /-- The value of the node. -/
  value : Value
  /-- The inputs of the node. -/
  inputs : List SignalId
  /-- The nodes that have this node as an input. -/
  outputs : List SignalId
  /-- How often the value was written or computed. -/
  evaluations : Nat

/-- A call that neither runs nor stores a script. -/
inductive Request where
  /-- The value of a signal. -/
  | sample (id : SignalId)
  /-- A value with its signal handles replaced by the values of the signals. -/
  | read (value : Value)
  /-- A new cell. -/
  | cell (initial : Value)
  /-- Removes a signal and all that depends on it. -/
  | tearDown (id : SignalId)
  /-- What can be told about a node. -/
  | inspect (id : SignalId)
  /-- The signals that exist. -/
  | liveSignals
  /-- The slot of the next node. -/
  | mark
  /-- Removes the nodes created since a mark. -/
  | discardSince (mark : Nat)
  /-- A new source that only the host fires. -/
  | source (name : String)
  /-- A new source that is fired by an event of an element. -/
  | on (element : ElementId) (event : String)
  /-- The sources that an event of an element fires. -/
  | bound (element : ElementId) (event : String)
  /-- The name of a source. -/
  | sourceName (source : SourceId)
  /-- A new source that fires whenever one of two does. -/
  | merge (left right : SourceId)
  /-- How many occurrences a source has had. -/
  | occurrences (source : SourceId)
  /-- How many subscribers a source has. -/
  | subscriberCount (source : SourceId)
  /-- How many sources there are. -/
  | sourceCount
  /-- Writes an entry into the journal. -/
  | record (entry : Entry)
  /-- A new element. -/
  | createElement (tagName domId : String)
  /-- The element with an id. -/
  | elementById (domId : String)
  /-- An element. -/
  | element (id : ElementId)
  /-- A property of an element. -/
  | property (id : ElementId) (name : String)
  /-- Writes a property of an element. -/
  | setProperty (id : ElementId) (name : String) (value : Value)
  /-- The text that an element shows. -/
  | textContent (id : ElementId)
  /-- The tags that have handlers, ascending. -/
  | tags
  /-- The settings of the session. -/
  | settings

/-- The type of the reply to a request. -/
def Request.Reply : Request → Type
  | .sample _ | .read _ | .property .. => Except Failure Value
  | .cell _ => SignalId
  | .tearDown _ => Except Failure Nat
  | .inspect _ => Except Failure NodeInfo
  | .liveSignals => List SignalId
  | .mark | .sourceCount => Nat
  | .discardSince _ | .setProperty .. => Except Failure Unit
  | .source _ | .on .. => SourceId
  | .bound .. => List SourceId
  | .sourceName _ | .textContent _ => Except Failure String
  | .merge .. => Except Failure SourceId
  | .occurrences _ | .subscriberCount _ => Except Failure Nat
  | .record _ => Unit
  | .createElement .. => ElementId
  | .elementById _ => Option ElementId
  | .element _ => Except Failure Element
  | .tags => List Tag
  | .settings => Settings

/-- Host code as data. -/
inductive Script where
  /-- The code ends. -/
  | done (result : Except Interrupt Value)
  /-- Makes a request. -/
  | ask (request : Request) (next : request.Reply → Script)
  /-- Computes a value from operands; if one of them depends on a signal, creates a derived signal
  that is recomputed whenever an input changes, and replies with its handle. -/
  | derive (operands : List Value) (compute : List Value → Script)
      (next : Except Interrupt Value → Script)
  /-- Runs an effect on an input; if the input depends on a signal, creates a node that runs it
  again on every change, and replies with its handle. -/
  | watch (input : Value) (effect : Value → Script)
      (next : Except Interrupt (Option SignalId) → Script)
  /-- Writes a cell. -/
  | set (cell : SignalId) (value : Value) (next : Except Failure Unit → Script)
  /-- Delivers an occurrence to a source. -/
  | fire (source : SourceId) (payload : Value) (next : Except Failure Unit → Script)
  /-- Creates a cell that a reducer writes on every occurrence of a source. -/
  | fold (source : SourceId) (initial : Value) (reducer : Value → Value → Script)
      (next : Except Failure SignalId → Script)
  /-- Creates a cell that is written on every occurrence of a source with the value of the program
  that a reducer gives. -/
  | foldProgram (source : SourceId) (initial : Value) (reducer : Value → Value → Program)
      (next : Except Failure SignalId → Script)
  /-- Runs a listener on every occurrence of a source. -/
  | listen (source : SourceId) (listener : Value → Script) (next : Except Failure Unit → Script)
  /-- Runs a program with the handlers of the session. -/
  | run (program : Program) (next : Except Failure Value → Script)
  /-- Runs a program with an interpreter of its own. -/
  | runWith (settings : Settings) (program : Program) (interpreter : Instruction → Script)
      (next : Except Failure Value → Script)
  /-- Hands an instruction to its handler. -/
  | dispatch (instruction : Instruction) (next : Except Interrupt Value → Script)

/-- Interprets one kind of instruction. -/
abbrev Handler := Instruction → Script

namespace Script

/-- Runs a program in reaction to an occurrence: its value is read to a plain value, and the nodes
that it created are removed whether it succeeded or not. -/
def react (program : Program) (next : Except Failure Value → Script) : Script :=
  .ask .mark fun (mark : Nat) =>
  .run program fun result =>
  let finish (outcome : Except Failure Value) : Script :=
    .ask (.discardSince mark) fun (discarded : Except Failure Unit) =>
      match discarded with
      | .ok () => next outcome
      | .error failure => next (.error failure)
  match result with
  | .ok value => .ask (.read value) finish
  | .error failure => finish (.error failure)

/-- The result of settling changes in which these failures occurred. -/
def settled (failures : List Failure) : Except Failure Unit :=
  if failures.isEmpty then .ok () else .error (.propagation failures)

/-- The failures that the result of one change reports. -/
def failuresOf : Except Failure Unit → List Failure
  | .ok () => []
  | .error (.propagation failures) => failures
  | .error failure => [failure]

/-- Fires sources one after another with the same payload, and goes on with all failures. -/
def fireAll (payload : Value) (failures : List Failure) (next : List Failure → Script) :
    List SourceId → Script
  | [] => next failures
  | source :: rest =>
    .fire source payload fun result =>
      fireAll payload (failures ++ failuresOf result) next rest

/-- Delivers an event of an element to every source bound to it, and replies with their number. -/
def dispatchEvent (element : ElementId) (event : String) (payload : Value)
    (next : Except Failure Nat → Script) : Script :=
  .ask (.bound element event) fun (sources : List SourceId) =>
  if sources.isEmpty then
    .ask (.record (.event (.sourceUnbound element event))) fun _ => next (.ok 0)
  else
    fireAll payload [] (fun failures => next ((settled failures).map fun () => sources.length))
      sources

/-- Creates a cell that is written on every occurrence of a source with the value of the program
that a reducer gives. The first value comes from a program that is run now. -/
def foldM (source : SourceId) (initial : Program) (reducer : Value → Value → Program)
    (next : Except Failure SignalId → Script) : Script :=
  .ask (.sourceName source) fun (name : Except Failure String) =>
  match name with
  | .error failure => next (.error failure)
  | .ok _ =>
    react initial fun seed =>
      match seed with
      | .error failure => next (.error failure)
      | .ok seed => .foldProgram source seed reducer next

/-- Creates a cell that holds a value and is set to it again on every occurrence of a source. -/
def constantOn (source : SourceId) (value : Value) (next : Except Failure SignalId → Script) :
    Script :=
  .fold source value (fun _ _ => .done (.ok value)) next

end Script

end EffectGraph
