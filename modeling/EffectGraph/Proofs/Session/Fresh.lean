import EffectGraph.Proofs.Session.Currency
import EffectGraph.Proofs.Graph.Operands

/-!
# What changes of the graph do to nodes that are up to date

A node depends on nothing but the values of its inputs. So storing a value matters to the node
itself and to its readers, new nodes matter to nobody, and removed nodes take their readers along.
-/

namespace EffectGraph

namespace Session

variable (session : Session)

/-- What holds of all nodes, whether they are up to date or not. -/
structure IsRegular (graph : Graph) : Prop where
  /-- The inputs of a node are the signals that its operands depend on. -/
  inputs_eq : ∀ {id node}, graph.node? id = some node → node.inputs = node.kind.dependencies
  /-- The value of a watch is unit. -/
  watch_unit : ∀ {id node}, graph.node? id = some node → node.kind.isWatch → node.value = .unit
  /-- What is derived is computed in a pure way. -/
  isPure : ∀ {id node operands compute}, graph.node? id = some node →
    node.kind = .derived operands compute → session.IsPure compute

variable {session}

/-! ## Regular graphs -/

namespace IsRegular

variable {graph graph' : Graph}

theorem empty : session.IsRegular .empty where
  inputs_eq := Graph.Wired.empty
  watch_unit h := by simp at h
  isPure h := by simp at h

/-- Storing a value keeps a graph regular if a watch only gets unit. -/
theorem store (h : session.IsRegular graph) {id : SignalId} {value : Value}
    (hwatch : ∀ node, graph.node? id = some node → node.kind.isWatch → value = .unit) :
    session.IsRegular (graph.modify id (Graph.settledNode value)) where
  inputs_eq := Graph.Wired.of_wiring h.inputs_eq (Graph.sameWiring_modify graph id value)
  watch_unit {k node'} hnode' hiswatch := by
    rw [Graph.node?_modify] at hnode'
    by_cases hk : k = id
    · subst hk
      rw [if_pos rfl] at hnode'
      obtain ⟨node, hnode, rfl⟩ := Option.map_eq_some_iff.1 hnode'
      exact hwatch node hnode hiswatch
    · rw [if_neg hk] at hnode'
      exact h.watch_unit hnode' hiswatch
  isPure hnode' hkind' := by
    obtain ⟨node, hnode, hkind, -⟩ := (Graph.sameWiring_modify graph id value).node? hnode'
    exact h.isPure hnode (hkind.symm.trans hkind')

theorem grow (h : session.IsRegular graph) {id : SignalId} {node : Node}
    (hg : Graph.Grows graph graph' id node) (hinputs : node.inputs = node.kind.dependencies)
    (hwatch : node.kind.isWatch → node.value = .unit)
    (hpure : ∀ operands compute, node.kind = .derived operands compute →
      session.IsPure compute) : session.IsRegular graph' where
  inputs_eq := Graph.Wired.grow h.inputs_eq hg hinputs
  watch_unit hnode' hiswatch := by
    rcases hg.cases hnode' with ⟨rfl, rfl⟩ | ⟨old, hold, rfl⟩
    · exact hwatch hiswatch
    · rw [Graph.joined_kind] at hiswatch
      rw [Graph.joined_value]
      exact h.watch_unit hold hiswatch
  isPure hnode' hkind := by
    rcases hg.cases hnode' with ⟨rfl, rfl⟩ | ⟨old, hold, rfl⟩
    · exact hpure _ _ hkind
    · rw [Graph.joined_kind] at hkind
      exact h.isPure hold hkind

theorem erase (h : session.IsRegular graph) (removed : List SignalId) :
    session.IsRegular (graph.erase removed) where
  inputs_eq := Graph.Wired.erase h.inputs_eq removed
  watch_unit hnode' hiswatch := by
    obtain ⟨-, node, hnode, rfl⟩ := Graph.node?_of_erase hnode'
    change node.value = .unit
    exact h.watch_unit hnode hiswatch
  isPure hnode' hkind := by
    obtain ⟨-, node, hnode, rfl⟩ := Graph.node?_of_erase hnode'
    exact h.isPure hnode hkind

end IsRegular

/-! ## Fresh graphs -/

namespace IsFresh

variable {graph graph' : Graph} {past : List Moment} {todo : List SignalId}

/-- Only the values of nodes count, not how often they were stored. -/
theorem of_values (h : session.IsFresh graph past todo) (hsame : Graph.SameWiring graph graph')
    (hvalues : ∀ id, graph.value id = graph'.value id) : session.IsFresh graph' past todo := by
  intro k node' hnode' hk hread
  obtain ⟨node, hnode, hkind, -, hinputs, -⟩ := hsame.node? hnode'
  have hvalue := hvalues k
  rw [Graph.value_of_node? hnode, Graph.value_of_node? hnode'] at hvalue
  have hread : HasRead past k node := by
    unfold HasRead
    rw [← hinputs]
    exact hread
  exact (h k node hnode hk hread).congr hkind (Except.ok.inj hvalue).symm fun p _ => hvalues p

/-- Storing a value matters to the node itself and to the nodes that have it as an input. -/
theorem store (h : session.IsFresh graph past todo) (hgraph : graph.WellFormed)
    (hregular : session.IsRegular graph) {id : SignalId} {value : Value}
    {past' : List Moment} {todo' : List SignalId}
    (hold : ∀ k node operands compute, graph.node? k = some node →
      node.kind = .derived operands compute → k ∉ todo' → HasRead past' k node → k ≠ id →
        id ∉ node.inputs ∧ k ∉ todo ∧ HasRead past k node)
    (hself : ∀ node, graph.node? id = some node →
      session.IsCurrent graph (Graph.settledNode value node)) :
    session.IsFresh (graph.modify id (Graph.settledNode value)) past' todo' := by
  have hvalue {p : SignalId} (hp : p ≠ id) :
      graph.value p = (graph.modify id (Graph.settledNode value)).value p := by
    have hnode : (graph.modify id (Graph.settledNode value)).node? p = graph.node? p := by
      rw [Graph.node?_modify, if_neg hp]
    simp only [Graph.value, Graph.node, hnode]
  intro k node' hnode' hk hread operands compute hkind
  rw [Graph.node?_modify] at hnode'
  by_cases heq : k = id
  · subst heq
    rw [if_pos rfl] at hnode'
    obtain ⟨node, hnode, rfl⟩ := Option.map_eq_some_iff.1 hnode'
    refine (hself node hnode).congr rfl rfl (fun p hp => hvalue ?_) operands compute hkind
    rintro rfl
    have hinput : p ∈ node.inputs := by rw [hregular.inputs_eq hnode]; exact hp
    exact absurd (hgraph.inputs_older hnode p hinput) (lt_irrefl _)
  · rw [if_neg heq] at hnode'
    obtain ⟨hinputs, htodo, hread⟩ := hold k node' operands compute hnode' hkind hk hread heq
    refine (h k node' hnode' htodo hread).congr rfl rfl (fun p hp => hvalue ?_) operands compute
      hkind
    rintro rfl
    exact hinputs (by rw [hregular.inputs_eq hnode']; exact hp)

/-- Adding a node keeps all nodes fresh but perhaps the new one. -/
theorem grow (h : session.IsFresh graph past todo) (hgraph : graph.WellFormed)
    (hregular : session.IsRegular graph) {id : SignalId} {node : Node}
    (hg : Graph.Grows graph graph' id node) {todo' : List SignalId} (htodo : ∀ k ∈ todo, k ∈ todo')
    (hnew : id ∈ todo' ∨ session.IsCurrent graph' node) : session.IsFresh graph' past todo' := by
  intro k node' hnode' hk hread
  rcases hg.cases hnode' with ⟨rfl, rfl⟩ | ⟨old, hold, rfl⟩
  · exact hnew.resolve_left hk
  · have hread : HasRead past k old := by
      unfold HasRead at hread
      rwa [Graph.joined_inputs] at hread
    refine (h k old hold (fun hmem => hk (htodo k hmem)) hread).congr (Graph.joined_kind ..)
      (Graph.joined_value ..) fun p hp => ?_
    rw [← hregular.inputs_eq hold] at hp
    obtain ⟨input, hinput⟩ := Graph.contains_iff.1 (hgraph.inputs_live hold p hp)
    rw [Graph.value_of_node? hinput, Graph.value_of_node? (hg.node?_old hinput),
      Graph.joined_value]

/-- Removing nodes keeps those that stay fresh. -/
theorem erase (h : session.IsFresh graph past todo) (hgraph : graph.WellFormed)
    (hregular : session.IsRegular graph) {removed : List SignalId}
    (hremoved : graph.Removable removed) {todo' : List SignalId}
    (htodo : ∀ k ∈ todo, k ∈ todo' ∨ k ∈ removed) :
    session.IsFresh (graph.erase removed) past todo' := by
  intro k node' hnode' hk hread
  obtain ⟨hstays, node, hnode, rfl⟩ := Graph.node?_of_erase hnode'
  have hnot : k ∉ todo := fun hmem => (htodo k hmem).elim hk hstays
  refine (h k node hnode hnot hread).congr rfl rfl fun p hp => ?_
  rw [← hregular.inputs_eq hnode] at hp
  have hkept : p ∉ removed := fun hmem =>
    hstays (hremoved.closed hmem (hgraph.feeds_of_mem_inputs hnode hp))
  obtain ⟨input, hinput⟩ := Graph.contains_iff.1 (hgraph.inputs_live hnode p hp)
  rw [Graph.value_of_node? hinput,
    Graph.value_of_node? (Graph.node?_erase_of_not_mem hkept hinput)]
  rfl

end IsFresh

end Session

end EffectGraph
