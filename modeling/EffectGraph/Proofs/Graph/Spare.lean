import EffectGraph.Proofs.Graph.Below
import EffectGraph.Proofs.Graph.Operands
import EffectGraph.Proofs.Session.Derivations

/-!
# A graph with one more node

`Graph.Spares x graph graph'` says that the second graph has a node for the handle `x` where the first
one has none, and otherwise the same nodes. Nothing depends on that node. So whatever does not mention
it is looked up and resolved alike in both graphs, and a pass over the second graph goes through the
nodes of the first one in the same order, with the other node somewhere in between
(`Spares.passOrder_eq`).
-/

namespace EffectGraph

/-- The value does not mention the signal. -/
def Value.Avoids (x : SignalId) (value : Value) : Prop := x ∉ value.handles

namespace Graph

/-- The node without its outputs. -/
def unlinked (node : Node) : Node := { node with outputs := [] }

/-- The first graph lacks a node that the second one may have. Otherwise they have the same nodes. -/
structure Spares (x : SignalId) (graph graph' : Graph) : Prop where
  absent : graph.node? x = none
  others : ∀ k, k ≠ x → (graph'.node? k).map unlinked = (graph.node? k).map unlinked

namespace Spares

open Relation

variable {x k : SignalId} {graph graph' : Graph} {node node' : Node} {roots : List SignalId}
  {value : Value}

/-- A node that is added is such a node. -/
theorem of_grows (h : Grows graph graph' x node) : Spares x graph graph' := by
  refine ⟨h.absent, fun j hj => ?_⟩
  rw [h.node?_eq, if_neg hj, Option.map_map]
  refine congrArg (fun f => Option.map f (graph.node? j)) (funext fun old => ?_)
  rw [Function.comp_apply, joined]
  split <;> rfl

/-! ## Looking up -/

theorem ne_of_node? (h : Spares x graph graph') (hnode : graph.node? k = some node) : k ≠ x := by
  rintro rfl
  rw [h.absent] at hnode
  cases hnode

/-- Another node is in both graphs or in none. -/
theorem cases (h : Spares x graph graph') (hk : k ≠ x) :
    (graph.node? k = none ∧ graph'.node? k = none) ∨ ∃ node node', graph.node? k = some node ∧
      graph'.node? k = some node' ∧ unlinked node' = unlinked node := by
  have hsame := h.others k hk
  cases hnode : graph.node? k with
  | none =>
    rw [hnode, Option.map_none, Option.map_eq_none_iff] at hsame
    exact .inl ⟨rfl, hsame⟩
  | some node =>
    rw [hnode, Option.map_some, Option.map_eq_some_iff] at hsame
    obtain ⟨node', hnode', heq⟩ := hsame
    exact .inr ⟨node, node', rfl, hnode', heq⟩

theorem node?_of_first (h : Spares x graph graph') (hnode : graph.node? k = some node) :
    ∃ node', graph'.node? k = some node' ∧ unlinked node' = unlinked node := by
  rcases h.cases (h.ne_of_node? hnode) with ⟨hnone, -⟩ | ⟨old, node', hold, hnode', hsame⟩
  · rw [hnone] at hnode
    cases hnode
  · obtain rfl := Option.some.inj (hold.symm.trans hnode)
    exact ⟨node', hnode', hsame⟩

theorem node?_of_second (h : Spares x graph graph') (hk : k ≠ x)
    (hnode' : graph'.node? k = some node') :
    ∃ node, graph.node? k = some node ∧ unlinked node' = unlinked node := by
  rcases h.cases hk with ⟨-, hnone⟩ | ⟨node, new, hnode, hnew, hsame⟩
  · rw [hnone] at hnode'
    cases hnode'
  · obtain rfl := Option.some.inj (hnew.symm.trans hnode')
    exact ⟨node, hnode, hsame⟩

theorem contains_eq (h : Spares x graph graph') (hk : k ≠ x) :
    graph'.contains k = graph.contains k := by
  unfold contains
  rcases h.cases hk with ⟨hnone, hnone'⟩ | ⟨node, node', hnode, hnode', -⟩
  · rw [hnone, hnone']
  · rw [hnode, hnode', Option.isSome_some, Option.isSome_some]

theorem value_eq (h : Spares x graph graph') (hk : k ≠ x) : graph'.value k = graph.value k := by
  rcases h.cases hk with ⟨hnone, hnone'⟩ | ⟨node, node', hnode, hnode', hsame⟩
  · rw [value_of_node?_eq_none hnone, value_of_node?_eq_none hnone']
  · exact value_eq_of_node? hnode hnode' (congrArg (·.value) hsame)

theorem rank_eq (h : Spares x graph graph') (hk : k ≠ x) : graph'.rank k = graph.rank k := by
  unfold rank
  rcases h.cases hk with ⟨hnone, hnone'⟩ | ⟨node, node', hnode, hnode', hsame⟩
  · rw [hnone, hnone']
  · rw [hnode, hnode']
    exact congrArg (·.rank) hsame

theorem isWatch_eq (h : Spares x graph graph') (hk : k ≠ x) :
    Session.isWatch graph' k = Session.isWatch graph k := by
  unfold Session.isWatch
  rcases h.cases hk with ⟨hnone, hnone'⟩ | ⟨node, node', hnode, hnode', hsame⟩
  · rw [hnone, hnone']
  · rw [hnode, hnode']
    exact congrArg (·.kind.isWatch) hsame

theorem resolve_eq (h : Spares x graph graph') (hvalue : value.Avoids x) :
    graph'.resolve value = graph.resolve value :=
  resolve_congr fun _ hk => h.value_eq fun heq => hvalue (heq ▸ hk)

/-- The nodes of the first graph are evaluated on the same values in both. -/
theorem inputsOf_eq (h : Spares x graph graph') {kind : NodeKind} (hkind : x ∉ kind.dependencies) :
    graph'.inputsOf kind = graph.inputsOf kind := by
  cases kind with
  | cell => rfl
  | derived operands compute =>
    exact mapM_resolve_congr fun k hk => h.value_eq fun heq => hkind (heq ▸ hk)
  | watch input effect =>
    have hinput : input.Avoids x := fun hmem => hkind (Value.mem_collectSignals.2 (.inr hmem))
    rw [inputsOf, inputsOf, h.resolve_eq hinput]

/-! ## Storing values -/

theorem settle (h : Spares x graph graph') (hk : k ≠ x) (value : Value) :
    Spares x (graph.modify k (settledNode value)) (graph'.modify k (settledNode value)) := by
  refine ⟨?_, fun j hj => ?_⟩
  · rw [node?_modify, if_neg hk.symm]
    exact h.absent
  · rw [node?_modify, node?_modify]
    split
    · rcases h.cases hj with ⟨hnone, hnone'⟩ | ⟨node, node', hnode, hnode', hsame⟩
      · rw [hnone, hnone']
      · rw [hnode, hnode']
        exact congrArg (some ∘ settledNode value) hsame
    · exact h.others j hj

theorem settle_self (h : Spares x graph graph') (value : Value) :
    Spares x graph (graph'.modify x (settledNode value)) := by
  refine ⟨h.absent, fun j hj => ?_⟩
  rw [node?_modify, if_neg hj]
  exact h.others j hj

/-! ## Plans -/

section

variable (h : Spares x graph graph') (hgraph : graph.WellFormed) (hgraph' : graph'.WellFormed)

include h hgraph hgraph'

/-- The additional node feeds nothing. -/
theorem not_feeds : ¬ graph'.Feeds x k := by
  intro hfeeds
  obtain ⟨-, child', -, hchild', hinput⟩ := hgraph'.feeds hfeeds
  have hk : k ≠ x := by
    rintro rfl
    exact lt_irrefl _ (hgraph'.inputs_older hchild' _ hinput)
  obtain ⟨child, hchild, hsame⟩ := h.node?_of_second hk hchild'
  have hinputs : child'.inputs = child.inputs := congrArg (·.inputs) hsame
  have hlive := hgraph.inputs_live hchild x (hinputs ▸ hinput)
  rw [contains, h.absent] at hlive
  cases hlive

/-- The other nodes feed each other in both graphs. -/
theorem feeds_iff {p : SignalId} (hk : k ≠ x) : graph'.Feeds p k ↔ graph.Feeds p k := by
  constructor
  · intro hfeeds
    obtain ⟨-, child', -, hchild', hinput⟩ := hgraph'.feeds hfeeds
    obtain ⟨child, hchild, hsame⟩ := h.node?_of_second hk hchild'
    have hinputs : child'.inputs = child.inputs := congrArg (·.inputs) hsame
    exact hgraph.feeds_of_mem_inputs hchild (hinputs ▸ hinput)
  · intro hfeeds
    obtain ⟨-, child, -, hchild, hinput⟩ := hgraph.feeds hfeeds
    obtain ⟨child', hchild', hsame⟩ := h.node?_of_first hchild
    have hinputs : child'.inputs = child.inputs := congrArg (·.inputs) hsame
    exact hgraph'.feeds_of_mem_inputs hchild' (hinputs ▸ hinput)

theorem below_iff (hk : k ≠ x) : graph'.Below roots k ↔ graph.Below roots k := by
  refine exists_congr fun r => and_congr_right fun _ => ⟨fun hreach => ?_, fun hreach => ?_⟩
  · -- No path to another node goes through the additional one.
    induction hreach with
    | single hfeeds => exact .single ((h.feeds_iff hgraph hgraph' hk).1 hfeeds)
    | @tail p c _ hfeeds ih =>
      have hp : p ≠ x := by
        rintro rfl
        exact h.not_feeds hgraph hgraph' hfeeds
      exact (ih hp).tail ((h.feeds_iff hgraph hgraph' hk).1 hfeeds)
  · induction hreach with
    | single hfeeds => exact .single ((h.feeds_iff hgraph hgraph' hk).2 hfeeds)
    | @tail p c _ hfeeds ih =>
      obtain ⟨parent, -, hparent, -, -⟩ := hgraph.feeds hfeeds
      exact (ih (h.ne_of_node? hparent)).tail ((h.feeds_iff hgraph hgraph' hk).2 hfeeds)

/-- Without the additional node the plans are the same. -/
theorem plan_eq : (graph'.plan roots).filter (· ≠ x) = graph.plan roots := by
  have hne {k : SignalId} (hk : k ∈ (graph'.plan roots).filter (· ≠ x)) : k ≠ x := by
    simpa using (List.mem_filter.1 hk).2
  have hsorted : ((graph'.plan roots).filter (· ≠ x)).Pairwise fun a b => graph.before a b = true := by
    refine ((plan_sorted graph' roots).filter _).imp_of_mem fun {a b} ha hb hbefore => ?_
    unfold before at hbefore ⊢
    rwa [← h.rank_eq (hne ha), ← h.rank_eq (hne hb)]
  refine List.Perm.eq_of_pairwise (fun a b _ _ => before_antisymm) hsorted (plan_sorted graph roots) ?_
  refine (List.perm_ext_iff_of_nodup ((plan_nodup graph' roots).filter _)
    (plan_nodup graph roots)).2 fun k => ?_
  rw [List.mem_filter, mem_plan hgraph', mem_plan hgraph]
  by_cases hk : k = x
  · subst hk
    have hnot : ¬ graph.Below roots k := fun hbelow => by
      obtain ⟨node, hnode, -⟩ := hgraph.node?_of_below hbelow
      exact h.ne_of_node? hnode rfl
    simp [hnot]
  · simp [hk, h.below_iff hgraph hgraph' hk]

/-- A pass goes through the nodes of the first graph in the same order. -/
theorem passOrder_eq :
    (Session.passOrder graph' roots).filter (· ≠ x) = Session.passOrder graph roots := by
  have hsame : ∀ k ∈ graph.plan roots, Session.isWatch graph' k = Session.isWatch graph k := by
    rw [← h.plan_eq hgraph hgraph']
    exact fun k hk => h.isWatch_eq (by simpa using (List.mem_filter.1 hk).2)
  have hcomm (p : SignalId → Bool) : ((graph'.plan roots).filter p).filter (· ≠ x) =
      (graph.plan roots).filter p := by
    rw [List.filter_comm, h.plan_eq hgraph hgraph']
  rw [Session.passOrder, Session.passOrder, List.filter_append, hcomm, hcomm]
  refine congrArg₂ (· ++ ·) (List.filter_congr fun k hk => ?_) (List.filter_congr hsame)
  rw [hsame k hk]

end

end Spares

end Graph

end EffectGraph
