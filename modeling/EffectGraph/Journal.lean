import EffectGraph.Failure
import EffectGraph.Settings

/-!
# The journal

Whatever happens in a session is written to its journal, in the order in which it happens. An entry
is a value that the host noted down, an `Event` of the engine, or an `Activity`: the moment at which
a stored computation starts or a change is requested or applied.

Events have a level, the name of the part of the engine they come from, a message and fields. How
much of the journal is shown depends on the level; activities are below all levels and are never
shown.
-/

namespace EffectGraph

/-- How important an event is. -/
inductive Level where
  | trace
  | debug
  | info
  | warn
  deriving Repr, DecidableEq

namespace Level

/-- The name of a level. -/
def name : Level → String
  | .trace => "TRACE"
  | .debug => "DEBUG"
  | .info => "INFO"
  | .warn => "WARN"

/-- The place of a level in the order of importance. -/
def weight : Level → Nat
  | .trace => 0
  | .debug => 1
  | .info => 2
  | .warn => 3

end Level

/-- Something the engine reports. -/
inductive Event where
  /-- A run ended at its step limit. -/
  | stepLimitReached (limit : Nat)
  /-- An instruction is handed to the interpreter. -/
  | dispatching (step : Nat) (tag : Tag)
  /-- A run finished with a value. -/
  | programFinished (steps : Nat)
  /-- A run ended with a payload that nobody caught. -/
  | failureEscaped (steps : Nat) (payload : Value)
  /-- A tag got another handler. -/
  | handlerReplaced (tag : Tag)
  /-- A bundle of handlers was installed. -/
  | bundleInstalled (name : String) (added : Nat)
  /-- A derived signal was created. -/
  | signalDerived (signal : SignalId)
  /-- A signal was removed, and how many with it. -/
  | signalTornDown (signal : SignalId) (removed : Nat)
  /-- A host event has no source. -/
  | sourceUnbound (element : ElementId) (event : String)
  /-- A fold with a pure reducer was attached. -/
  | foldAttached (source : SourceId) (signal : SignalId)
  /-- A fold whose reducer gives programs was attached. -/
  | effectfulFoldAttached (source : SourceId) (signal : SignalId)
  /-- A node that a reaction created was removed. -/
  | transientsDiscarded (signal : SignalId) (removed : Nat)
  /-- A change was put behind the one being settled. -/
  | changeQueued
  /-- A change was settled, and some of it failed. -/
  | settledWithFailures (count : Nat)
  /-- An occurrence goes to the subscribers of a source. -/
  | delivering (source : SourceId) (subscribers : Nat)
  /-- A reducer failed. -/
  | reducerFailed (signal : SignalId) (failure : Failure)
  /-- A pass over the graph starts. -/
  | propagating (roots derived watches : Nat)
  /-- A node could not be recomputed. -/
  | recomputationFailed (signal : SignalId) (failure : Failure)
  /-- An environment variable was ignored. -/
  | settingIgnored (setting : IgnoredSetting)
  /-- A value of a shape without formatter was shown. -/
  | formatterMissing (shape : Shape)
  /-- A program logged a message. -/
  | logged (message : Value)
  /-- A property of an element was written. -/
  | propertyWritten (element : ElementId) (property : String) (value : Value)
  /-- The host announced something. -/
  | announced (origin message : String) (fields : List (String × String))

namespace Event

/-- The level of an event. -/
def level : Event → Level
  | .stepLimitReached .. | .failureEscaped .. | .signalTornDown .. | .foldAttached ..
  | .effectfulFoldAttached .. | .reducerFailed .. | .recomputationFailed .. => .debug
  | .dispatching .. | .programFinished .. | .bundleInstalled .. | .signalDerived ..
  | .sourceUnbound .. | .transientsDiscarded .. | .changeQueued | .delivering ..
  | .propagating .. | .propertyWritten .. => .trace
  | .logged .. | .announced .. => .info
  | .handlerReplaced .. | .settledWithFailures .. | .settingIgnored ..
  | .formatterMissing .. => .warn

/-- The part of the engine that an event comes from. -/
def origin : Event → String
  | .stepLimitReached .. | .dispatching .. | .programFinished .. | .failureEscaped .. =>
    "weft::program::trampoline"
  | .handlerReplaced .. | .bundleInstalled .. => "weft::dispatch"
  | .settingIgnored .. => "weft::config"
  | .formatterMissing .. => "weft::instructions::show"
  | .logged .. => "weft::log"
  | .propertyWritten .. => "weft::instructions::dom"
  | .announced origin .. => origin
  | _ => "weft::runtime"

/-- The message of an event. -/
def message : Event → String
  | .stepLimitReached .. => "step limit reached"
  | .dispatching .. => "dispatching instruction"
  | .programFinished .. => "program finished"
  | .failureEscaped .. => "failure escaped every handler"
  | .handlerReplaced .. => "handler replaced"
  | .bundleInstalled .. => "plugin installed"
  | .signalDerived .. => "derived signal created"
  | .signalTornDown .. => "signal torn down"
  | .sourceUnbound .. => "no source bound"
  | .foldAttached .. => "fold attached"
  | .effectfulFoldAttached .. => "effectful fold attached"
  | .transientsDiscarded .. => "transient nodes discarded"
  | .changeQueued => "change queued behind the current batch"
  | .settledWithFailures .. => "change settled with failures"
  | .delivering .. => "delivering occurrence"
  | .reducerFailed .. => "reducer failed; keeping previous value"
  | .propagating .. => "propagating"
  | .recomputationFailed .. => "recomputation failed; keeping previous value"
  | .settingIgnored (.stepLimit ..) => "ignoring " ++ Settings.stepLimitVariable
  | .settingIgnored (.checkResults _) => "ignoring " ++ Settings.checkResultsVariable
  | .formatterMissing .. => "no formatter registered; using default"
  | .logged message => message.display
  | .propertyWritten .. => "property written"
  | .announced _ message _ => message

/-- The fields of an event. -/
def fields : Event → List (String × String)
  | .stepLimitReached limit => [("limit", toString limit)]
  | .dispatching step tag => [("step", toString step), ("tag", tag)]
  | .programFinished steps => [("steps", toString steps)]
  | .failureEscaped steps payload => [("steps", toString steps), ("payload", payload.display)]
  | .handlerReplaced tag => [("tag", tag)]
  | .bundleInstalled name added => [("plugin", name), ("added", toString added)]
  | .signalDerived signal => [("signal", signal.text)]
  | .signalTornDown signal removed => [("signal", signal.text), ("removed", toString removed)]
  | .sourceUnbound element event => [("element", element.text), ("event", event)]
  | .foldAttached source signal => [("source", source.text), ("signal", signal.text)]
  | .effectfulFoldAttached source signal => [("source", source.text), ("signal", signal.text)]
  | .transientsDiscarded signal removed => [("signal", signal.text), ("removed", toString removed)]
  | .changeQueued => []
  | .settledWithFailures count => [("count", toString count)]
  | .delivering source subscribers =>
    [("source", source.text), ("subscribers", toString subscribers)]
  | .reducerFailed signal failure => [("signal", signal.text), ("error", failure.message)]
  | .propagating roots derived watches =>
    [("roots", toString roots), ("derived", toString derived), ("watches", toString watches)]
  | .recomputationFailed signal failure => [("signal", signal.text), ("error", failure.message)]
  | .settingIgnored (.stepLimit value error) => [("value", value), ("error", error.message)]
  | .settingIgnored (.checkResults value) => [("value", value)]
  | .formatterMissing shape => [("kind", shape.name)]
  | .logged _ => []
  | .propertyWritten element property value =>
    [("element", element.text), ("property", property), ("value", value.display)]
  | .announced _ _ fields => fields

/-- An event on one line. -/
def line (e : Event) : String :=
  let fields := e.fields.map fun f => " " ++ f.1 ++ "=" ++ f.2
  e.level.name ++ " " ++ e.origin ++ ": " ++ e.message ++ String.join fields

end Event

/-- A change that has to be settled. -/
inductive Change where
  /-- An occurrence of a source. -/
  | fired (source : SourceId) (payload : Value)
  /-- A cell was written, and what depends on it is not recomputed yet. -/
  | written (cell : SignalId)

/-- The change is that a given cell was written. -/
def Change.isWrite (cell : SignalId) : Change → Bool
  | .written id => id = cell
  | .fired .. => false

/-- The change is a write of a cell, and a write of the same cell is among those that wait. -/
def Change.waitsIn (queue : List Change) : Change → Bool
  | .written cell => queue.any (·.isWrite cell)
  | .fired .. => false

/-- A moment in the settling of changes. -/
inductive Activity where
  /-- A change is put into the queue. -/
  | queued (change : Change)
  /-- A change is applied. -/
  | applied (change : Change)
  /-- A cell has been written. -/
  | wrote (cell : SignalId) (value : Value)
  /-- A reducer starts on the value of its cell. -/
  | reducing (target : SignalId) (current payload : Value)
  /-- A pass over the graph starts from these cells. -/
  | propagating (roots : List SignalId)
  /-- The computation of a node starts on these inputs. -/
  | evaluating (node : SignalId) (inputs : List Value)
  /-- A listener starts. -/
  | listening (payload : Value)

/-- An entry of the journal. -/
inductive Entry where
  /-- A value that the host noted down. -/
  | note (value : Value)
  /-- Something the engine reports. -/
  | event (event : Event)
  /-- A moment in the settling of changes. -/
  | activity (activity : Activity)

/-- The entry is shown when events from a level on are. -/
def Entry.isShown (least : Level) : Entry → Bool
  | .note _ => true
  | .event e => least.weight ≤ e.level.weight
  | .activity _ => false

end EffectGraph
