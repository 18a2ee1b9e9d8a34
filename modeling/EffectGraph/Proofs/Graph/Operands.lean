import EffectGraph.Proofs.Graph.Growth
import EffectGraph.Proofs.Graph.Removal
import EffectGraph.Proofs.Graph.Resolving

/-!
# Inputs and operands

A node is added below the signals that its operands depend on, and both stay as they are for as long
as it exists. So every node of such a graph can be evaluated: its inputs exist, and these are all
that resolving its operands asks for (`Wired.operands_live`).
-/

namespace EffectGraph

namespace Graph

variable {graph graph' : Graph} {id : SignalId} {node : Node}

/-- The inputs of every node are the signals that its operands depend on. -/
def Wired (graph : Graph) : Prop :=
  ∀ {id node}, graph.node? id = some node → node.inputs = node.kind.dependencies

namespace Wired

theorem empty : Wired .empty := by
  intro id node hnode
  simp at hnode

theorem of_wiring (h : graph.Wired) (hsame : SameWiring graph graph') : graph'.Wired := by
  intro id node' hnode'
  obtain ⟨node, hnode, hkind, -, hinputs, -⟩ := hsame.node? hnode'
  rw [hinputs, hkind]
  exact h hnode

theorem grow (h : graph.Wired) (hg : Grows graph graph' id node)
    (hinputs : node.inputs = node.kind.dependencies) : graph'.Wired := by
  intro k node' hnode'
  rcases hg.cases hnode' with ⟨rfl, rfl⟩ | ⟨old, hold, rfl⟩
  · exact hinputs
  · rw [joined_inputs, joined_kind]
    exact h hold

theorem erase (h : graph.Wired) (removed : List SignalId) : (graph.erase removed).Wired := by
  intro k node' hnode'
  obtain ⟨-, node, hnode, rfl⟩ := node?_of_erase hnode'
  exact (h hnode : node.inputs = node.kind.dependencies)

/-- The signals that the operands of a node depend on exist. -/
theorem operands_live (h : graph.Wired) (hgraph : graph.WellFormed)
    (hnode : graph.node? id = some node) : ∀ p ∈ node.kind.dependencies, graph.contains p := by
  rw [← h hnode]
  exact hgraph.inputs_live hnode

end Wired

end Graph

end EffectGraph
