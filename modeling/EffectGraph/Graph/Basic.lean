import EffectGraph.Script.Basic
import EffectGraph.Value.Handles

/-!
# The reactive graph

Signals are nodes of a graph. Cells are written from outside; a derived node is computed from its
inputs; a watch runs an effect on its input. Nodes live in numbered slots that are never used again,
so that the handle of a removed node stays invalid.

Every node has a *rank*: zero without inputs, else one above the highest rank of an input. Edges are
kept at both ends and lead from lower to higher ranks, so there is no cycle, and going through nodes
by rank meets every node after its inputs.
-/

namespace EffectGraph

/-- What keeps the value of a node up to date. -/
inductive NodeKind where
  /-- The value is written from outside. -/
  | cell
  /-- The value is computed from the resolved operands. -/
  | derived (operands : List Value) (compute : List Value → Script)
  /-- An effect runs on the resolved input; the value is unit. -/
  | watch (input : Value) (effect : Value → Script)

namespace NodeKind

/-- The name of a kind of node. -/
def label : NodeKind → String
  | .cell => "cell"
  | .derived .. => "derived"
  | .watch .. => "watch"

/-- The node is a cell. -/
def isCell : NodeKind → Bool
  | .cell => true
  | _ => false

/-- The node is a watch. -/
def isWatch : NodeKind → Bool
  | .watch .. => true
  | _ => false

end NodeKind

/-- A node of the reactive graph. -/
structure Node where
  /-- What keeps the value up to date. -/
  kind : NodeKind
  /-- The value. -/
  value : Value := .unit
  /-- The node has had its first value. -/
  settled : Bool := false
  /-- Zero without inputs, else one above the highest rank of an input. -/
  rank : Nat := 0
  /-- The inputs. -/
  inputs : List SignalId := []
  /-- The nodes that have this one as an input. -/
  outputs : List SignalId := []
  /-- How often the value was written or computed. -/
  evaluations : Nat := 0

/-- The nodes of a session. -/
structure Graph where
  /-- The slots of the nodes; the slot of a removed node is empty. -/
  slots : Array (Option Node) := #[]
  /-- The number of nodes. -/
  live : Nat := 0

namespace Graph

/-- A graph without nodes. -/
def empty : Graph := {}

/-- The node of a handle, if it exists. -/
def node? (graph : Graph) (id : SignalId) : Option Node := graph.slots[id.index]?.join

/-- The node exists. -/
def contains (graph : Graph) (id : SignalId) : Bool := (graph.node? id).isSome

/-- The node of a handle. -/
def node (graph : Graph) (id : SignalId) : Except Failure Node :=
  match graph.node? id with
  | some node => .ok node
  | none => .error (.unknownSignal id)

/-- The value of a node. -/
def value (graph : Graph) (id : SignalId) : Except Failure Value := (graph.node id).map (·.value)

/-- The slot that the next node takes. -/
def mark (graph : Graph) : Nat := graph.slots.size

/-- The handles of all nodes, ascending. -/
def liveIds (graph : Graph) : List SignalId :=
  ((List.range graph.slots.size).map SignalId.mk).filter graph.contains

/-- The handles of the nodes created since a mark, ascending. -/
def createdSince (graph : Graph) (mark : Nat) : List SignalId :=
  graph.liveIds.filter (mark ≤ ·.index)

/-- Changes a node, if it exists. -/
def modify (graph : Graph) (id : SignalId) (f : Node → Node) : Graph :=
  { graph with slots := graph.slots.modify id.index (Option.map f) }

/-- The rank of a node with these inputs, or the failure of the first one that does not exist. -/
def rankAbove (graph : Graph) (inputs : List SignalId) : Except Failure Nat :=
  inputs.foldlM (fun rank id => (graph.node id).map fun node => max rank (node.rank + 1)) 0

/-- Adds a node that has no value yet. -/
def insert (graph : Graph) (kind : NodeKind) (inputs : List SignalId) :
    Except Failure (SignalId × Graph) :=
  (graph.rankAbove inputs).map fun rank =>
    let id : SignalId := ⟨graph.slots.size⟩
    let linked := inputs.foldl (fun (g : Graph) parent =>
      g.modify parent fun node => { node with outputs := node.outputs ++ [id] }) graph
    (id, ⟨linked.slots.push (some { kind, rank, inputs }), linked.live + 1⟩)

/-- Adds a cell. -/
def insertCell (graph : Graph) (value : Value) : SignalId × Graph :=
  (⟨graph.slots.size⟩,
    ⟨graph.slots.push (some { kind := .cell, value, settled := true, evaluations := 1 }),
      graph.live + 1⟩)

/-- Stores a value that was written or computed. -/
def settle (graph : Graph) (id : SignalId) (value : Value) : Except Failure Graph :=
  (graph.node id).map fun _ => graph.modify id fun node =>
    { node with value, settled := true, evaluations := node.evaluations + 1 }

/-- A value with every signal handle replaced by the value of its node, as stored. -/
def resolve (graph : Graph) (value : Value) : Except Failure Value := value.resolveWith graph.value

/-- The values that a node of a kind is evaluated on: its inputs, resolved. -/
def inputsOf (graph : Graph) : NodeKind → Except Failure (List Value)
  | .cell => .ok []
  | .derived operands _ => operands.mapM graph.resolve
  | .watch input _ => (graph.resolve input).map ([·])

/-- What can be told about a node. -/
def inspect (graph : Graph) (id : SignalId) : Except Failure NodeInfo :=
  (graph.node id).map fun node =>
    { id, kind := node.kind.label, settled := node.settled, rank := node.rank, value := node.value,
      inputs := node.inputs, outputs := node.outputs, evaluations := node.evaluations }

/-- The description of a graph. -/
def described (graph : Graph) : String :=
  Text.described "Graph" [("live", toString graph.live), ("slots", toString graph.slots.size)]

end Graph

end EffectGraph
