import EffectGraph.Graph.Dependents
import Mathlib.Tactic

/-!
# What the operations of a graph do to its nodes

One lemma for each operation says which node stands in which slot afterwards. Nothing below looks at
the slots themselves any more.
-/

namespace EffectGraph

theorem SignalId.index_inj {a b : SignalId} : a.index = b.index ↔ a = b := by
  cases a
  cases b
  simp

namespace Graph

theorem contains_iff {graph : Graph} {id : SignalId} :
    graph.contains id = true ↔ ∃ node, graph.node? id = some node := by
  simp [contains, Option.isSome_iff_exists]

theorem node_eq_ok {graph : Graph} {id : SignalId} {node : Node} :
    graph.node id = .ok node ↔ graph.node? id = some node := by
  unfold Graph.node
  cases graph.node? id <;> simp

theorem node_eq_error {graph : Graph} {id : SignalId} {failure : Failure} :
    graph.node id = .error failure ↔ graph.node? id = none ∧ failure = .unknownSignal id := by
  unfold Graph.node
  cases graph.node? id <;> simp [eq_comm]

theorem node_ne_error {graph : Graph} {id : SignalId} {node : Node} {failure : Failure}
    (h : graph.node? id = some node) : graph.node id ≠ .error failure := by
  intro herror
  rw [node_eq_ok.2 h] at herror
  cases herror

/-- A node stands in a slot of the graph. -/
theorem index_lt {graph : Graph} {id : SignalId} {node : Node} (h : graph.node? id = some node) :
    id.index < graph.slots.size := by
  unfold node? at h
  by_contra hge
  rw [Array.getElem?_eq_none (by omega)] at h
  simp at h

theorem mem_slots_of_node? {graph : Graph} {id : SignalId} {node : Node}
    (h : graph.node? id = some node) : some node ∈ graph.slots.toList := by
  unfold node? at h
  rw [Option.join_eq_some_iff] at h
  exact Array.mem_toList_iff.2 (Array.mem_of_getElem? h)

theorem node?_of_size_le {graph : Graph} {id : SignalId} (h : graph.slots.size ≤ id.index) :
    graph.node? id = none := by
  unfold node?
  rw [Array.getElem?_eq_none h]
  rfl

@[simp] theorem node?_empty (id : SignalId) : empty.node? id = none := by
  simp [empty, node?]

/-! ## Changing a node -/

@[simp] theorem size_modify (graph : Graph) (id : SignalId) (f : Node → Node) :
    (graph.modify id f).slots.size = graph.slots.size := by
  simp [modify]

@[simp] theorem live_modify (graph : Graph) (id : SignalId) (f : Node → Node) :
    (graph.modify id f).live = graph.live := rfl

theorem node?_modify (graph : Graph) (id k : SignalId) (f : Node → Node) :
    (graph.modify id f).node? k = if k = id then (graph.node? k).map f else graph.node? k := by
  simp only [node?, modify, Array.getElem?_modify, SignalId.index_inj, eq_comm (a := id)]
  split
  · cases graph.slots[k.index]? <;> rfl
  · rfl

/-- The node with a value that was written or computed. -/
def settledNode (value : Value) (node : Node) : Node :=
  { node with value, settled := true, evaluations := node.evaluations + 1 }

theorem settle_eq_ok {graph graph' : Graph} {id : SignalId} {value : Value} :
    graph.settle id value = .ok graph' ↔
      (∃ node, graph.node? id = some node) ∧ graph' = graph.modify id (settledNode value) := by
  unfold settle
  cases h : graph.node id with
  | error failure =>
    have hnone := (node_eq_error.1 h).1
    simp [Except.map, hnone]
  | ok node =>
    have hsome := node_eq_ok.1 h
    simp only [Except.map, Except.ok.injEq, hsome, Option.some.injEq, exists_eq', true_and]
    exact eq_comm

/-! ## Adding nodes -/

@[simp] theorem size_insertCell (graph : Graph) (value : Value) :
    (graph.insertCell value).2.slots.size = graph.slots.size + 1 := by
  simp [insertCell]

/-- The node of a new cell. -/
def cellNode (value : Value) : Node := { kind := .cell, value, settled := true, evaluations := 1 }

theorem node?_insertCell (graph : Graph) (value : Value) (k : SignalId) :
    (graph.insertCell value).2.node? k =
      if k = ⟨graph.slots.size⟩ then some (cellNode value) else graph.node? k := by
  simp only [node?, insertCell, Array.getElem?_push, ← SignalId.index_inj]
  split <;> rfl

/-- The graph in which a node is an output of others. -/
def link (graph : Graph) (inputs : List SignalId) (id : SignalId) : Graph :=
  inputs.foldl (fun (g : Graph) parent =>
    g.modify parent fun node => { node with outputs := node.outputs ++ [id] }) graph

@[simp] theorem size_link (graph : Graph) (inputs : List SignalId) (id : SignalId) :
    (graph.link inputs id).slots.size = graph.slots.size := by
  unfold link
  induction inputs generalizing graph with
  | nil => rfl
  | cons input rest ih => rw [List.foldl_cons, ih, size_modify]

@[simp] theorem live_link (graph : Graph) (inputs : List SignalId) (id : SignalId) :
    (graph.link inputs id).live = graph.live := by
  unfold link
  induction inputs generalizing graph with
  | nil => rfl
  | cons input rest ih => rw [List.foldl_cons, ih, live_modify]

/-- The node with one more output. -/
def addOutput (id : SignalId) (node : Node) : Node := { node with outputs := node.outputs ++ [id] }

theorem node?_link (graph : Graph) {inputs : List SignalId} (hnodup : inputs.Nodup)
    (id k : SignalId) :
    (graph.link inputs id).node? k =
      if k ∈ inputs then (graph.node? k).map (addOutput id) else graph.node? k := by
  unfold link
  induction inputs generalizing graph with
  | nil => simp
  | cons input rest ih =>
    obtain ⟨hnew, hrest⟩ := List.nodup_cons.1 hnodup
    rw [List.foldl_cons, ih _ hrest, node?_modify]
    by_cases hk : k = input
    · subst hk
      simp only [hnew, if_false, if_true, List.mem_cons, true_or]
      rfl
    · simp [hk]

theorem insert_eq_ok {graph graph' : Graph} {kind : NodeKind} {inputs : List SignalId}
    {id : SignalId} :
    graph.insert kind inputs = .ok (id, graph') ↔
      ∃ rank, graph.rankAbove inputs = .ok rank ∧ id = ⟨graph.slots.size⟩ ∧
        graph' = ⟨(graph.link inputs id).slots.push (some { kind, rank, inputs }),
          graph.live + 1⟩ := by
  unfold insert
  cases graph.rankAbove inputs with
  | error failure => simp [Except.map]
  | ok rank =>
    simp only [Except.map, Except.ok.injEq, Prod.mk.injEq, exists_eq_left']
    constructor
    · rintro ⟨rfl, rfl⟩
      exact ⟨rfl, by rw [← live_link graph inputs ⟨graph.slots.size⟩]; rfl⟩
    · rintro ⟨rfl, rfl⟩
      exact ⟨rfl, by rw [← live_link graph inputs ⟨graph.slots.size⟩]; rfl⟩

/-- A new node stands in a new slot, it is the last output of each of its inputs, and all other
nodes are as before. -/
theorem node?_insert {graph graph' : Graph} {kind : NodeKind} {inputs : List SignalId}
    {id : SignalId} (hnodup : inputs.Nodup) (h : graph.insert kind inputs = .ok (id, graph')) :
    ∃ rank, graph.rankAbove inputs = .ok rank ∧ id = ⟨graph.slots.size⟩ ∧
      graph'.slots.size = graph.slots.size + 1 ∧ graph'.live = graph.live + 1 ∧
      ∀ k, graph'.node? k =
        if k = id then some { kind, rank, inputs }
        else if k ∈ inputs then (graph.node? k).map (addOutput id) else graph.node? k := by
  obtain ⟨rank, hrank, hid, rfl⟩ := insert_eq_ok.1 h
  refine ⟨rank, hrank, hid, by simp, rfl, fun k => ?_⟩
  rw [← node?_link graph hnodup]
  simp only [node?, Array.getElem?_push, size_link, hid, ← SignalId.index_inj]
  split <;> rfl

/-! ## Removing nodes -/

@[simp] theorem size_unlink (removed : List SignalId) (graph : Graph) (victim : SignalId) :
    (graph.unlink removed victim).slots.size = graph.slots.size := by
  unfold unlink
  induction (graph.inputs victim).filter (· ∉ removed) generalizing graph with
  | nil => rfl
  | cons parent rest ih => rw [List.foldl_cons, ih, size_modify]

/-- The node with one output less. -/
def dropOutput (victim : SignalId) (node : Node) : Node :=
  { node with outputs := node.outputs.filter (· ≠ victim) }

theorem node?_unlink (removed : List SignalId) (graph : Graph) (victim k : SignalId) :
    (graph.unlink removed victim).node? k =
      if k ∈ graph.inputs victim ∧ k ∉ removed then (graph.node? k).map (dropOutput victim)
      else graph.node? k := by
  have hfold (parents : List SignalId) (g : Graph) :
      (parents.foldl (fun (g : Graph) parent => g.modify parent (dropOutput victim)) g).node? k =
        if k ∈ parents then (g.node? k).map (dropOutput victim) else g.node? k := by
    induction parents generalizing g with
    | nil => simp
    | cons parent rest ih =>
      rw [List.foldl_cons, ih, node?_modify]
      by_cases hk : k = parent
      · -- Taking the output away again changes nothing.
        cases g.node? k <;> simp [hk, dropOutput]
      · simp [hk]
  have hunlink := hfold ((graph.inputs victim).filter (· ∉ removed)) graph
  simp only [List.mem_filter, decide_eq_true_eq] at hunlink
  exact hunlink

theorem inputs_unlink (removed : List SignalId) (graph : Graph) (victim k : SignalId) :
    (graph.unlink removed victim).inputs k = graph.inputs k := by
  unfold inputs
  rw [node?_unlink]
  by_cases hk : k ∈ graph.inputs victim ∧ k ∉ removed
  · rw [if_pos hk]
    cases graph.node? k <;> rfl
  · rw [if_neg hk]

/-- The node of a handle when all of these nodes have been unlinked. -/
def pruned (graph : Graph) (victims : List SignalId) (k : SignalId) (node : Node) : Node :=
  { node with outputs := node.outputs.filter fun c => ¬(c ∈ victims ∧ k ∈ graph.inputs c) }

/-- The first of them is an output no more if the handle is one of its inputs. -/
theorem pruned_cons (graph : Graph) (victim : SignalId) (rest : List SignalId) (k : SignalId)
    (node : Node) : graph.pruned (victim :: rest) k node =
      graph.pruned rest k (if k ∈ graph.inputs victim then dropOutput victim node else node) := by
  unfold pruned dropOutput
  by_cases hinput : k ∈ graph.inputs victim
  · rw [if_pos hinput, List.filter_filter]
    congr 1
    refine List.filter_congr fun c _ => ?_
    by_cases hc : c = victim
    · simp [hc, hinput]
    · simp [hc]
  · rw [if_neg hinput]
    congr 1
    refine List.filter_congr fun c _ => ?_
    by_cases hc : c = victim
    · simp [hc, hinput]
    · simp [hc]

theorem node?_foldl_unlink (graph : Graph) (removed victims : List SignalId) {k : SignalId}
    (hk : k ∉ removed) : (victims.foldl (unlink removed) graph).node? k =
      (graph.node? k).map (graph.pruned victims k) := by
  induction victims generalizing graph with
  | nil => cases hnode : graph.node? k <;> simp [pruned, hnode]
  | cons victim rest ih =>
    have hrest : (graph.unlink removed victim).pruned rest k = graph.pruned rest k := by
      funext node
      simp only [pruned, inputs_unlink]
    rw [List.foldl_cons, ih, hrest, node?_unlink, funext (graph.pruned_cons victim rest k)]
    by_cases hinput : k ∈ graph.inputs victim
    · rw [if_pos ⟨hinput, hk⟩, Option.map_map]
      simp only [hinput, if_true]
      rfl
    · rw [if_neg fun h => hinput h.1]
      simp only [hinput, if_false]

theorem size_foldl_unlink (graph : Graph) (removed victims : List SignalId) :
    (victims.foldl (unlink removed) graph).slots.size = graph.slots.size := by
  induction victims generalizing graph with
  | nil => rfl
  | cons victim rest ih => rw [List.foldl_cons, ih, size_unlink]

theorem size_foldl_vacate (graph : Graph) (victims : List SignalId) :
    (victims.foldl vacate graph).slots.size = graph.slots.size := by
  induction victims generalizing graph with
  | nil => rfl
  | cons victim rest ih => simp [ih, vacate]

theorem node?_foldl_vacate (graph : Graph) (victims : List SignalId) (k : SignalId) :
    (victims.foldl vacate graph).node? k = if k ∈ victims then none else graph.node? k := by
  induction victims generalizing graph with
  | nil => simp
  | cons victim rest ih =>
    have hvacate : (graph.vacate victim).node? k = if k = victim then none else graph.node? k := by
      simp only [node?, vacate, Array.getElem?_setIfInBounds, SignalId.index_inj,
        eq_comm (a := victim)]
      split
      · split <;> rfl
      · rfl
    rw [List.foldl_cons, ih, hvacate]
    by_cases hk : k = victim
    · simp [hk]
    · simp [hk]

@[simp] theorem size_erase (graph : Graph) (removed : List SignalId) :
    (graph.erase removed).slots.size = graph.slots.size := by
  simp only [erase, size_foldl_vacate, size_foldl_unlink]

/-- The removed nodes are gone, and the others have lost those that had them as an input. -/
theorem node?_erase (graph : Graph) (removed : List SignalId) (k : SignalId) :
    (graph.erase removed).node? k =
      if k ∈ removed then none else (graph.node? k).map (graph.pruned removed k) := by
  change (removed.foldl vacate (removed.foldl (unlink removed) graph)).node? k = _
  rw [node?_foldl_vacate]
  split
  · rfl
  · rename_i hk
    exact node?_foldl_unlink graph removed removed hk

theorem remove_eq_ok {graph graph' : Graph} {id : SignalId} {removed : List SignalId} :
    graph.remove id = .ok (removed, graph') ↔
      (∃ node, graph.node? id = some node) ∧ removed = graph.subtree id ∧
        graph' = graph.erase (graph.subtree id) := by
  unfold remove
  cases h : graph.node id with
  | error failure =>
    have hnone := (node_eq_error.1 h).1
    simp [Except.map, hnone]
  | ok node =>
    have hsome := node_eq_ok.1 h
    simp only [Except.map, Except.ok.injEq, Prod.mk.injEq, hsome, Option.some.injEq, exists_eq',
      true_and]
    constructor
    · rintro ⟨rfl, rfl⟩
      exact ⟨rfl, rfl⟩
    · rintro ⟨rfl, rfl⟩
      exact ⟨rfl, rfl⟩

end Graph

end EffectGraph
