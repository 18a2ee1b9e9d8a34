import EffectGraph.Script.Basic
import EffectGraph.Value.Tagged

/-!
# Nodes as JSON

What can be told about a node, as a JSON document: handles are written as numbers, and the value in
its tagged form.
-/

namespace EffectGraph

namespace NodeInfo

/-- The name of the state of a node. -/
def stateName (info : NodeInfo) : String := if info.settled then "Settled" else "Uninitialized"

/-- A signal handle as a number. -/
def handleJson (id : SignalId) : Json := .integer id.index

/-- What can be told about a node, as JSON. -/
def toJson (info : NodeInfo) : Json :=
  .object
    [("id", handleJson info.id),
     ("kind", .string info.kind),
     ("state", .string info.stateName),
     ("rank", .integer info.rank),
     ("value", info.value.toTagged),
     ("upstream", .array (info.inputs.map handleJson)),
     ("downstream", .array (info.outputs.map handleJson)),
     ("evaluations", .integer info.evaluations)]

end NodeInfo

end EffectGraph
