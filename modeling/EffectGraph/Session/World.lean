import EffectGraph.Graph.Dependents
import EffectGraph.Event.Hub
import EffectGraph.Ghost

/-!
# The state of a session

A session has fixed parts, the handlers of instructions and the settings, and a state, its `World`:
the reactive graph, the event sources, the changes that wait to be settled, the document of the host
and the journal. `World.answer` answers the requests of scripts; no request runs a script.

A world also remembers its past: the moments at which computations, reducers and listeners started
and changes were made, each with all that the session consisted of then. The past is there for
statements only.
-/

namespace EffectGraph

/-- The fixed parts of a session. -/
structure Session where
  /-- The handlers by tag, ascending. -/
  handlers : List (Tag × Handler) := []
  /-- How programs are run. -/
  settings : Settings := {}

/-- The description of a session with these settings and so many signals and sources. -/
def Session.describedWith (settings : Settings) (signals sources : Nat) : String :=
  Text.described "Runtime"
    [("config", settings.described), ("signals", toString signals), ("sources", toString sources)]

/-- What a session consists of at a moment. -/
structure Scene where
  /-- The signals. -/
  graph : Graph := .empty
  /-- The event sources. -/
  hub : Hub := .empty
  /-- The changes that wait behind the one being settled, the first one first. -/
  queue : List Change := []
  /-- A change is being settled. -/
  settling : Bool := false
  /-- What the host shows. -/
  document : Document := .empty
  /-- What has happened. -/
  journal : Array Entry := #[]

/-- A moment in the settling of changes, and what the session consisted of then. -/
structure Moment where
  /-- What begins. -/
  activity : Activity
  /-- What the session consists of. -/
  scene : Ghost Scene

/-- The state of a session. -/
structure World extends Scene where
  /-- The moments so far, the latest one first. -/
  past : List Moment := []

namespace World

/-- The state of a new session. -/
def empty : World := {}

/-- Writes an entry into the journal. -/
def log (w : World) (entry : Entry) : World := { w with journal := w.journal.push entry }

/-- Reports an event. -/
def report (w : World) (event : Event) : World := w.log (.event event)

/-- Notes a moment in the settling of changes. -/
def begin (w : World) (activity : Activity) : World :=
  World.log { w with past := ⟨activity, .of w.toScene⟩ :: w.past } (.activity activity)

/-- Removes a signal and all that depends on it, and drops the subscribers that write removed cells.
-/
def removeSignal (w : World) (id : SignalId) : Except Failure (List SignalId × World) :=
  (w.graph.remove id).map fun (removed, graph) =>
    (removed, { w with graph, hub := w.hub.detach removed })

/-- Removes a signal at the request of the host. -/
def tearDown (w : World) (id : SignalId) : Except Failure Nat × World :=
  match w.removeSignal id with
  | .error failure => (.error failure, w)
  | .ok (removed, w) => (.ok removed.length, w.report (.signalTornDown id removed.length))

/-- Removes those of some nodes that still exist. -/
def discard (w : World) : List SignalId → Except Failure Unit × World
  | [] => (.ok (), w)
  | id :: rest =>
    if w.graph.contains id then
      match w.removeSignal id with
      | .error failure => (.error failure, w)
      | .ok (removed, w) => (w.report (.transientsDiscarded id removed.length)).discard rest
    else w.discard rest

/-- Adds a cell. -/
def createCell (w : World) (value : Value) : SignalId × World :=
  let (id, graph) := w.graph.insertCell value
  (id, { w with graph })

/-- Adds a source that two others forward to. -/
def merge (w : World) (left right : SourceId) : Except Failure SourceId × World :=
  match w.hub.merge left right with
  | .error failure => (.error failure, w)
  | .ok (merged, hub) => (.ok merged, { w with hub })

/-- Writes a property of an element. -/
def setProperty (w : World) (id : ElementId) (name : String) (value : Value) :
    Except Failure Unit × World :=
  match w.document.setProperty id name value with
  | .error failure => (.error failure, w)
  | .ok document => (.ok (), { w.report (.propertyWritten id name value) with document })

/-- Answers a request. -/
def answer (session : Session) (request : Request) (w : World) : request.Reply × World :=
  match request with
  | .sample id => (w.graph.value id, w)
  | .read value => (w.graph.resolve value, w)
  | .cell initial => w.createCell initial
  | .tearDown id => w.tearDown id
  | .inspect id => (w.graph.inspect id, w)
  | .liveSignals => (w.graph.liveIds, w)
  | .mark => (w.graph.mark, w)
  | .discardSince mark => w.discard (w.graph.createdSince mark)
  | .source name =>
    let (id, hub) := w.hub.create name
    (id, { w with hub })
  | .on element event =>
    let (id, hub) := w.hub.on element event
    (id, { w with hub })
  | .bound element event => (w.hub.bound element event, w)
  | .sourceName source => ((w.hub.get source).map (·.name), w)
  | .merge left right => w.merge left right
  | .occurrences source => ((w.hub.get source).map (·.occurrences), w)
  | .subscriberCount source => ((w.hub.get source).map (·.subscribers.length), w)
  | .sourceCount => (w.hub.sources.size, w)
  | .record entry => ((), w.log entry)
  | .createElement tagName domId =>
    let (id, document) := w.document.create tagName domId
    (id, { w with document })
  | .elementById domId => (w.document.find? domId, w)
  | .element id => (w.document.get id, w)
  | .property id name => (w.document.property id name, w)
  | .setProperty id name value => w.setProperty id name value
  | .textContent id => (w.document.textContent id, w)
  | .tags => (session.handlers.map (·.1), w)
  | .settings => (session.settings, w)

end World

end EffectGraph
