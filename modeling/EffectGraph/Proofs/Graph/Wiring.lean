import EffectGraph.Proofs.Graph.Nodes

/-!
# Well-formed graphs

`Graph.WellFormed` says how the nodes of a graph hang together: edges are kept at both ends and lead
to younger nodes, ranks are one above the highest rank of an input, and the number of nodes is kept
right. None of this depends on the values of the nodes, so writing a value keeps it
(`WellFormed.of_wiring`). Adding and removing nodes keep it too: see `WellFormed.grow` and
`WellFormed.erase`.
-/

namespace EffectGraph

namespace Graph

/-- A rank is zero if there are no inputs, and else one above the highest rank of an input. -/
def IsRankAbove (graph : Graph) (inputs : List SignalId) (rank : Nat) : Prop :=
  (inputs = [] → rank = 0) ∧ (∀ p ∈ inputs, graph.rank p < rank) ∧
    (inputs ≠ [] → ∃ p ∈ inputs, rank = graph.rank p + 1)

/-- How the nodes of a graph hang together. -/
structure WellFormed (graph : Graph) : Prop where
  /-- The number of nodes is that of the slots in use. -/
  live_eq : graph.live = graph.liveIds.length
  /-- Every input exists. -/
  inputs_live : ∀ {id node}, graph.node? id = some node → ∀ p ∈ node.inputs, graph.contains p
  /-- Every output exists. -/
  outputs_live : ∀ {id node}, graph.node? id = some node → ∀ c ∈ node.outputs, graph.contains c
  /-- Every edge is kept at both ends. -/
  linked : ∀ {p c parent child}, graph.node? p = some parent → graph.node? c = some child →
    (p ∈ child.inputs ↔ c ∈ parent.outputs)
  /-- No input is kept twice. -/
  inputs_nodup : ∀ {id node}, graph.node? id = some node → node.inputs.Nodup
  /-- No output is kept twice. -/
  outputs_nodup : ∀ {id node}, graph.node? id = some node → node.outputs.Nodup
  /-- Every input is older. -/
  inputs_older : ∀ {id node}, graph.node? id = some node → ∀ p ∈ node.inputs, p.index < id.index
  /-- The rank follows the inputs. -/
  rank_eq : ∀ {id node}, graph.node? id = some node → graph.IsRankAbove node.inputs node.rank
  /-- Cells have no inputs. -/
  cell_inputs : ∀ {id node}, graph.node? id = some node → node.kind = .cell → node.inputs = []

theorem rank_of_node? {graph : Graph} {id : SignalId} {node : Node}
    (h : graph.node? id = some node) : graph.rank id = node.rank := by
  simp [rank, h]

theorem wellFormed_empty : empty.WellFormed where
  live_eq := rfl
  inputs_live h := by simp at h
  outputs_live h := by simp at h
  linked h := by simp at h
  inputs_nodup h := by simp at h
  outputs_nodup h := by simp at h
  inputs_older h := by simp at h
  rank_eq h := by simp at h
  cell_inputs h := by simp at h

/-- The nodes that exist are those of the slots in use. -/
theorem mem_liveIds {graph : Graph} {id : SignalId} : id ∈ graph.liveIds ↔ graph.contains id := by
  simp only [liveIds, List.mem_filter, List.mem_map, List.mem_range, and_iff_right_iff_imp]
  intro h
  obtain ⟨node, hnode⟩ := contains_iff.1 h
  exact ⟨id.index, index_lt hnode, rfl⟩

theorem liveIds_nodup (graph : Graph) : graph.liveIds.Nodup := by
  refine List.Nodup.filter _ ((List.nodup_range).map ?_)
  intro a b h
  exact SignalId.mk.inj h

/-! ## Writing values -/

/-- All of a node but its value: what ties it to other nodes. -/
def wiring (node : Node) : NodeKind × Nat × List SignalId × List SignalId :=
  (node.kind, node.rank, node.inputs, node.outputs)

/-- Two graphs have the same nodes, apart from their values. -/
structure SameWiring (graph graph' : Graph) : Prop where
  size_eq : graph'.slots.size = graph.slots.size
  live_eq : graph'.live = graph.live
  wiring_eq : ∀ id, (graph'.node? id).map wiring = (graph.node? id).map wiring

namespace SameWiring

variable {graph graph' : Graph}

theorem refl (graph : Graph) : SameWiring graph graph := ⟨rfl, rfl, fun _ => rfl⟩

theorem symm (h : SameWiring graph graph') : SameWiring graph' graph :=
  ⟨h.size_eq.symm, h.live_eq.symm, fun id => (h.wiring_eq id).symm⟩

theorem trans {graph'' : Graph} (h : SameWiring graph graph') (h' : SameWiring graph' graph'') :
    SameWiring graph graph'' :=
  ⟨h'.size_eq.trans h.size_eq, h'.live_eq.trans h.live_eq,
    fun id => (h'.wiring_eq id).trans (h.wiring_eq id)⟩

/-- A node of the second graph stands in the first one too. -/
theorem node? (h : SameWiring graph graph') {id : SignalId} {node' : Node}
    (hnode : graph'.node? id = some node') :
    ∃ node, graph.node? id = some node ∧ node'.kind = node.kind ∧ node'.rank = node.rank ∧
      node'.inputs = node.inputs ∧ node'.outputs = node.outputs := by
  have hid := h.wiring_eq id
  rw [hnode, Option.map_some] at hid
  obtain ⟨node, hsome, hwiring⟩ := Option.map_eq_some_iff.1 hid.symm
  simp only [wiring, Prod.mk.injEq] at hwiring
  exact ⟨node, hsome, hwiring.1.symm, hwiring.2.1.symm, hwiring.2.2.1.symm, hwiring.2.2.2.symm⟩

theorem contains_eq (h : SameWiring graph graph') (id : SignalId) :
    graph'.contains id = graph.contains id := by
  simpa [contains] using congrArg Option.isSome (h.wiring_eq id)

theorem liveIds_eq (h : SameWiring graph graph') : graph'.liveIds = graph.liveIds := by
  unfold liveIds
  rw [h.size_eq]
  exact List.filter_congr fun id _ => h.contains_eq id

theorem rank_eq (h : SameWiring graph graph') (id : SignalId) : graph'.rank id = graph.rank id := by
  unfold rank
  cases hnode : graph'.node? id with
  | none =>
    have hid := h.wiring_eq id
    rw [hnode, Option.map_none] at hid
    rw [Option.map_eq_none_iff.1 hid.symm]
  | some node' =>
    obtain ⟨node, hsome, -, hrank, -⟩ := h.node? hnode
    rw [hsome]
    exact hrank

end SameWiring

/-- Storing a value keeps the wiring. -/
theorem sameWiring_modify (graph : Graph) (id : SignalId) (value : Value) :
    SameWiring graph (graph.modify id (settledNode value)) where
  size_eq := size_modify graph id _
  live_eq := live_modify graph id _
  wiring_eq k := by
    rw [node?_modify]
    split
    · rw [Option.map_map]
      rfl
    · rfl

/-- Graphs that differ in the values of their nodes only are well-formed together. -/
theorem WellFormed.of_wiring {graph graph' : Graph} (h : graph.WellFormed)
    (hsame : SameWiring graph graph') : graph'.WellFormed where
  live_eq := by rw [hsame.live_eq, hsame.liveIds_eq, h.live_eq]
  inputs_live hnode p hp := by
    obtain ⟨node, hsome, -, -, hinputs, -⟩ := hsame.node? hnode
    rw [hsame.contains_eq]
    exact h.inputs_live hsome p (hinputs ▸ hp)
  outputs_live hnode c hc := by
    obtain ⟨node, hsome, -, -, -, houtputs⟩ := hsame.node? hnode
    rw [hsame.contains_eq]
    exact h.outputs_live hsome c (houtputs ▸ hc)
  linked hp hc := by
    obtain ⟨parent, hparent, -, -, -, houtputs⟩ := hsame.node? hp
    obtain ⟨child, hchild, -, -, hinputs, -⟩ := hsame.node? hc
    rw [hinputs, houtputs]
    exact h.linked hparent hchild
  inputs_nodup hnode := by
    obtain ⟨node, hsome, -, -, hinputs, -⟩ := hsame.node? hnode
    exact hinputs ▸ h.inputs_nodup hsome
  outputs_nodup hnode := by
    obtain ⟨node, hsome, -, -, -, houtputs⟩ := hsame.node? hnode
    exact houtputs ▸ h.outputs_nodup hsome
  inputs_older hnode p hp := by
    obtain ⟨node, hsome, -, -, hinputs, -⟩ := hsame.node? hnode
    exact h.inputs_older hsome p (hinputs ▸ hp)
  rank_eq hnode := by
    obtain ⟨node, hsome, -, hrank, hinputs, -⟩ := hsame.node? hnode
    simp only [IsRankAbove, hsame.rank_eq, hrank, hinputs]
    exact h.rank_eq hsome
  cell_inputs hnode hkind := by
    obtain ⟨node, hsome, hkind', -, hinputs, -⟩ := hsame.node? hnode
    rw [hinputs]
    exact h.cell_inputs hsome (hkind' ▸ hkind)

end Graph

end EffectGraph
