import EffectGraph.Script.Basic
import EffectGraph.Reach

/-!
# Event sources

An event source is a named stream of occurrences. It has no value; its subscribers turn occurrences
into state. A fold applies a reducer and writes a cell, a listener reacts once all is settled, and a
merged source receives what its parts receive.

The subscribers reached by an occurrence are found in subscription order. Where a source forwards to
a merged one, the subscribers of the merged source stand in that place; a source that is reached
twice counts the first time only.
-/

namespace EffectGraph

/-- What an occurrence of a source leads to. -/
inductive Subscriber where
  /-- A cell is written with what a reducer makes of its value and the payload. -/
  | fold (target : SignalId) (reducer : Value → Value → Script)
  /-- A cell is written with the value of the program that a reducer gives. -/
  | foldProgram (target : SignalId) (reducer : Value → Value → Program)
  /-- A listener runs. -/
  | listener (listener : Value → Script)
  /-- Another source has an occurrence too. -/
  | forward (source : SourceId)

namespace Subscriber

/-- The cell that a subscriber writes. -/
def target? : Subscriber → Option SignalId
  | .fold target _ => some target
  | .foldProgram target _ => some target
  | _ => none

/-- The place that a subscriber leads on to. -/
def place? : Subscriber → Option Nat
  | .forward source => some source.index
  | _ => none

end Subscriber

/-- An event source. -/
structure Source where
  /-- The name of the source. -/
  name : String
  /-- Its subscribers, in the order of their subscription. -/
  subscribers : List Subscriber := []
  /-- How many occurrences it has had. -/
  occurrences : Nat := 0

/-- The event sources of a session. -/
structure Hub where
  /-- The sources in the order of their creation. -/
  sources : Array Source := #[]
  /-- Which event of which element fires which source, the oldest binding first. -/
  bindings : List ((ElementId × String) × SourceId) := []

namespace Hub

/-- A hub without sources. -/
def empty : Hub := {}

/-- A source. -/
def get (hub : Hub) (id : SourceId) : Except Failure Source :=
  match hub.sources[id.index]? with
  | some source => .ok source
  | none => .error (.unknownSource id)

/-- Adds a source. -/
def create (hub : Hub) (name : String) : SourceId × Hub :=
  (⟨hub.sources.size⟩, { hub with sources := hub.sources.push { name } })

/-- Lets an event of an element fire a source. -/
def bind (hub : Hub) (element : ElementId) (event : String) (source : SourceId) : Hub :=
  { hub with bindings := hub.bindings ++ [((element, event), source)] }

/-- The sources that an event of an element fires, in the order of their binding. -/
def bound (hub : Hub) (element : ElementId) (event : String) : List SourceId :=
  (hub.bindings.filter (·.1 = (element, event))).map (·.2)

/-- Adds a source that is fired by an event of an element, and is named after both. -/
def on (hub : Hub) (element : ElementId) (event : String) : SourceId × Hub :=
  let (id, hub) := hub.create (event ++ "@" ++ element.text)
  (id, hub.bind element event id)

/-- Adds a subscriber to a source. -/
def subscribe (hub : Hub) (id : SourceId) (subscriber : Subscriber) : Except Failure Hub :=
  (hub.get id).map fun source =>
    let source := { source with subscribers := source.subscribers ++ [subscriber] }
    { hub with sources := hub.sources.setIfInBounds id.index source }

/-- Adds a source that both given sources forward to. -/
def merge (hub : Hub) (left right : SourceId) : Except Failure (SourceId × Hub) := do
  let leftSource ← hub.get left
  let rightSource ← hub.get right
  let (merged, hub) := hub.create (leftSource.name ++ " | " ++ rightSource.name)
  let hub ← hub.subscribe left (.forward merged)
  let hub ← hub.subscribe right (.forward merged)
  return (merged, hub)

/-- From a source the walk goes on to its subscribers, and from a forwarding one to the source it
forwards to. -/
def roads (hub : Hub) : Reach.Roads Subscriber where
  place? := Subscriber.place?
  items k := match hub.sources[k]? with
    | some source => source.subscribers
    | none => []
  bound := hub.sources.size

/-- The sources that an occurrence of a source reaches, and the subscribers it goes to in their
order. -/
def reached (hub : Hub) (id : SourceId) : List Nat × List Subscriber :=
  let (visited, found) := Reach.walk hub.roads [.forward id] [] []
  (visited, found.reverse)

/-- Counts an occurrence of a source and of all it reaches, and lists the subscribers it goes to. -/
def deliver (hub : Hub) (id : SourceId) : Except Failure (List Subscriber × Hub) :=
  (hub.get id).map fun _ =>
    let (visited, subscribers) := hub.reached id
    (subscribers,
      { hub with sources := hub.sources.mapIdx fun k source =>
          if k ∈ visited then { source with occurrences := source.occurrences + 1 } else source })

/-- Drops the subscribers that write removed cells. -/
def detach (hub : Hub) (removed : List SignalId) : Hub :=
  { hub with sources := hub.sources.map fun source =>
      { source with subscribers := source.subscribers.filter fun s =>
          s.target?.all (· ∉ removed) } }

end Hub

end EffectGraph
