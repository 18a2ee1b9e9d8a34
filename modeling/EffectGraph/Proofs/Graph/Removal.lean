import EffectGraph.Proofs.Graph.Below

/-!
# Removing nodes

Nodes are removed together with all that they feed (`Graph.Removable`), so what stays keeps all of
its inputs and loses outputs only: those that were removed, though they are found through their inputs
(`WellFormed.node?_erase_eq`). A well-formed graph stays well-formed (`WellFormed.erase`), and the
number of nodes is never brought below zero (`Removable.length_le_live`).
-/

namespace EffectGraph

namespace Graph

open Relation

/-- Nodes that can be removed together: they exist, and so do no edges that lead out. -/
structure Removable (graph : Graph) (removed : List SignalId) : Prop where
  nodup : removed.Nodup
  live : ∀ r ∈ removed, graph.contains r
  closed : ∀ {r c}, r ∈ removed → graph.Feeds r c → c ∈ removed

theorem removable_subtree {graph : Graph} (h : graph.WellFormed) {id : SignalId}
    (hid : graph.contains id) : graph.Removable (graph.subtree id) where
  nodup := subtree_nodup h id
  live _ hr := subtree_live h hid hr
  closed := subtree_closed h

variable {graph : Graph} {removed : List SignalId}

theorem contains_erase {k : SignalId} :
    (graph.erase removed).contains k ↔ graph.contains k ∧ k ∉ removed := by
  simp only [contains, node?_erase]
  by_cases hk : k ∈ removed
  · simp [hk]
  · simp [hk]

/-- Every node that stays was there before, and has lost outputs only. -/
theorem node?_of_erase {k : SignalId} {node' : Node}
    (hk : (graph.erase removed).node? k = some node') :
    k ∉ removed ∧ ∃ node, graph.node? k = some node ∧ node' = graph.pruned removed k node := by
  rw [node?_erase] at hk
  by_cases hmem : k ∈ removed
  · simp [hmem] at hk
  · rw [if_neg hmem] at hk
    obtain ⟨node, hnode, rfl⟩ := Option.map_eq_some_iff.1 hk
    exact ⟨hmem, node, hnode, rfl⟩

theorem node?_erase_of_not_mem {k : SignalId} {node : Node} (hk : k ∉ removed)
    (hnode : graph.node? k = some node) :
    (graph.erase removed).node? k = some (graph.pruned removed k node) := by
  rw [node?_erase, if_neg hk, hnode]
  rfl

/-- The node with some outputs taken away. -/
def dropOutputs (removed : List SignalId) (node : Node) : Node :=
  { node with outputs := node.outputs.filter (· ∉ removed) }

/-- In a well-formed graph exactly the outputs among the removed nodes have been unlinked. -/
theorem WellFormed.pruned_eq (h : graph.WellFormed) {k : SignalId} {node : Node}
    (hnode : graph.node? k = some node) : graph.pruned removed k node = dropOutputs removed node := by
  have hlisted {c : SignalId} (hc : c ∈ node.outputs) : k ∈ graph.inputs c := by
    obtain ⟨child, hchild⟩ := contains_iff.1 (h.outputs_live hnode c hc)
    rw [inputs, hchild]
    exact (h.linked hnode hchild).2 hc
  unfold pruned dropOutputs
  congr 1
  exact List.filter_congr fun c hc => by simp [hlisted hc]

/-- Removing nodes one by one through their inputs is removing them from all outputs. -/
theorem WellFormed.node?_erase_eq (h : graph.WellFormed) (removed : List SignalId) (k : SignalId) :
    (graph.erase removed).node? k =
      if k ∈ removed then none else (graph.node? k).map (dropOutputs removed) := by
  rw [node?_erase]
  cases hnode : graph.node? k with
  | none => rfl
  | some node => rw [Option.map_some, Option.map_some, h.pruned_eq hnode]

theorem rank_erase {k : SignalId} (hk : k ∉ removed) :
    (graph.erase removed).rank k = graph.rank k := by
  cases hnode : graph.node? k with
  | none => simp [rank, node?_erase, hk, hnode]
  | some node =>
    rw [rank_of_node? (node?_erase_of_not_mem hk hnode), rank_of_node? hnode]
    rfl

theorem liveIds_erase :
    (graph.erase removed).liveIds = graph.liveIds.filter (· ∉ removed) := by
  unfold liveIds
  rw [size_erase, List.filter_filter]
  refine List.filter_congr fun k _ => Bool.eq_iff_iff.2 ?_
  rw [contains_erase]
  simp [and_comm]

namespace Removable

/-- What stays and what goes make up all nodes. -/
theorem length_liveIds (h : graph.Removable removed) :
    (graph.erase removed).liveIds.length + removed.length = graph.liveIds.length := by
  have hperm : (graph.liveIds.filter (· ∈ removed)).Perm removed := by
    refine (List.perm_ext_iff_of_nodup ((liveIds_nodup graph).filter _) h.nodup).2 fun k => ?_
    simp only [List.mem_filter, decide_eq_true_eq, mem_liveIds, and_iff_right_iff_imp]
    exact h.live k
  have hsplit := List.length_eq_length_filter_add (l := graph.liveIds) (· ∈ removed)
  rw [liveIds_erase, hsplit, hperm.length_eq, Nat.add_comm]
  simp

/-- There are as many nodes as are removed. -/
theorem length_le_live (h : graph.Removable removed) (hgraph : graph.WellFormed) :
    removed.length ≤ graph.live := by
  rw [hgraph.live_eq, ← h.length_liveIds]
  omega

end Removable

/-- Removing nodes that can be removed together keeps a graph well-formed. -/
theorem WellFormed.erase (h : graph.WellFormed) (hremoved : graph.Removable removed) :
    (graph.erase removed).WellFormed := by
  -- A node that stays keeps its inputs, as these would have taken it with them.
  have hstay {k : SignalId} {node : Node} (hk : k ∉ removed) (hnode : graph.node? k = some node) :
      ∀ p ∈ node.inputs, p ∉ removed := fun p hp hmem =>
    hk (hremoved.closed hmem (h.feeds_of_mem_inputs hnode hp))
  refine ⟨?_, ?_, ?_, ?_, ?_, ?_, ?_, ?_, ?_⟩
  · have hlength := hremoved.length_liveIds
    have hlive := h.live_eq
    change graph.live - removed.length = _
    omega
  · intro id node hnode p hp
    obtain ⟨hid, old, hold, rfl⟩ := node?_of_erase hnode
    exact contains_erase.2 ⟨h.inputs_live hold p hp, hstay hid hold p hp⟩
  · intro id node hnode c hc
    obtain ⟨-, old, hold, rfl⟩ := node?_of_erase hnode
    rw [h.pruned_eq hold] at hc
    obtain ⟨hmem, hc⟩ := List.mem_filter.1 hc
    exact contains_erase.2 ⟨h.outputs_live hold c hmem, by simpa using hc⟩
  · intro p c parent child hp hc
    obtain ⟨-, oldp, holdp, rfl⟩ := node?_of_erase hp
    obtain ⟨hstays, oldc, holdc, rfl⟩ := node?_of_erase hc
    rw [h.pruned_eq holdp]
    simpa [pruned, dropOutputs, hstays] using h.linked holdp holdc
  · intro id node hnode
    obtain ⟨-, old, hold, rfl⟩ := node?_of_erase hnode
    change old.inputs.Nodup
    exact h.inputs_nodup hold
  · intro id node hnode
    obtain ⟨-, old, hold, rfl⟩ := node?_of_erase hnode
    exact (h.outputs_nodup hold).filter _
  · intro id node hnode p hp
    obtain ⟨-, old, hold, rfl⟩ := node?_of_erase hnode
    exact h.inputs_older hold p hp
  · intro id node hnode
    obtain ⟨hid, old, hold, rfl⟩ := node?_of_erase hnode
    obtain ⟨hzero, hbelow, htop⟩ := h.rank_eq hold
    refine ⟨hzero, fun p hp => ?_, fun hne => ?_⟩
    · rw [rank_erase (hstay hid hold p hp)]
      exact hbelow p hp
    · obtain ⟨p, hp, hrank⟩ := htop hne
      exact ⟨p, hp, by rw [rank_erase (hstay hid hold p hp)]; exact hrank⟩
  · intro id node hnode hkind
    obtain ⟨-, old, hold, rfl⟩ := node?_of_erase hnode
    change old.inputs = []
    exact h.cell_inputs hold hkind

/-- Removing a node with all below it keeps a graph well-formed. -/
theorem WellFormed.remove {graph graph' : Graph} (h : graph.WellFormed) {id : SignalId}
    {removed : List SignalId} (hremove : graph.remove id = .ok (removed, graph')) :
    graph'.WellFormed := by
  obtain ⟨hid, -, rfl⟩ := remove_eq_ok.1 hremove
  exact h.erase (removable_subtree h (contains_iff.2 hid))

end Graph

end EffectGraph
