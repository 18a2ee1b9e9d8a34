import EffectGraph.Graph.Basic
import EffectGraph.Reach

/-!
# Dependents

The dependents of some nodes are all nodes below them. `Graph.plan` lists them by rank, and by age
within a rank; this is the order in which a change is propagated. Removing a node removes its
dependents too. Each removed node is taken out of the outputs of those of its inputs that stay, before
the slots are emptied.
-/

namespace EffectGraph

namespace Graph

/-- The nodes that have a node as an input. -/
def outputs (graph : Graph) (id : SignalId) : List SignalId :=
  match graph.node? id with
  | some node => node.outputs
  | none => []

/-- The inputs of a node. -/
def inputs (graph : Graph) (id : SignalId) : List SignalId :=
  match graph.node? id with
  | some node => node.inputs
  | none => []

/-- From every node the walk goes on to the nodes that have it as an input. -/
def roads (graph : Graph) : Reach.Roads SignalId where
  place? id := some id.index
  items k := graph.outputs ⟨k⟩
  bound := graph.slots.size

/-- All nodes below some nodes, without these, each once and in no particular order. -/
def dependents (graph : Graph) (roots : List SignalId) : List SignalId :=
  let visited := (Reach.walk graph.roads (roots.flatMap graph.outputs)
    (roots.map (·.index)) []).1
  (visited.map SignalId.mk).filter (· ∉ roots)

/-- The rank of a node. What does not exist comes last. -/
def rank (graph : Graph) (id : SignalId) : Nat :=
  match graph.node? id with
  | some node => node.rank
  | none => UInt64.size - 1

/-- One node comes before another: its rank is lower, or the ranks are equal and it is older. -/
def before (graph : Graph) (a b : SignalId) : Bool :=
  graph.rank a < graph.rank b || (graph.rank a = graph.rank b && a.index ≤ b.index)

/-- All nodes below some nodes, each after its inputs. -/
def plan (graph : Graph) (roots : List SignalId) : List SignalId :=
  (graph.dependents roots).mergeSort graph.before

/-- A node and all nodes below it, the oldest first. -/
def subtree (graph : Graph) (id : SignalId) : List SignalId :=
  (id :: graph.dependents [id]).mergeSort fun a b => a.index ≤ b.index

/-- Takes a node that is removed out of the outputs of those of its inputs that stay. -/
def unlink (removed : List SignalId) (graph : Graph) (victim : SignalId) : Graph :=
  ((graph.inputs victim).filter (· ∉ removed)).foldl (fun (g : Graph) parent =>
    g.modify parent fun node => { node with outputs := node.outputs.filter (· ≠ victim) }) graph

/-- Empties the slot of a node. -/
def vacate (graph : Graph) (victim : SignalId) : Graph :=
  { graph with slots := graph.slots.setIfInBounds victim.index none }

/-- The graph without some nodes. -/
def erase (graph : Graph) (removed : List SignalId) : Graph :=
  { removed.foldl vacate (removed.foldl (unlink removed) graph) with
    live := graph.live - removed.length }

/-- Removes a node and all nodes below it, and lists what was removed, the oldest first. -/
def remove (graph : Graph) (id : SignalId) : Except Failure (List SignalId × Graph) :=
  (graph.node id).map fun _ =>
    let removed := graph.subtree id
    (removed, graph.erase removed)

end Graph

end EffectGraph
