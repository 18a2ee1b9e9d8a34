import EffectGraph.Proofs.Graph.Nodes
import EffectGraph.Proofs.Value.Handles

/-!
# The values that nodes are evaluated on

The inputs of a node of some kind are the signals that its operands depend on. If these exist, the
operands can be resolved, and what they are resolved to depends on the values of these signals only.
-/

namespace EffectGraph

/-- The signals that a node of a kind depends on. -/
def NodeKind.dependencies : NodeKind → List SignalId
  | .cell => []
  | .derived operands _ => Value.dependencies operands
  | .watch input _ => input.collectSignals []

theorem NodeKind.nodup_dependencies (kind : NodeKind) : kind.dependencies.Nodup := by
  cases kind with
  | cell => exact List.nodup_nil
  | derived operands _ => exact Value.nodup_dependencies operands
  | watch input _ => exact Value.nodup_collectSignals input List.nodup_nil

namespace Graph

variable {graph graph' : Graph}

theorem value_of_node? {id : SignalId} {node : Node} (h : graph.node? id = some node) :
    graph.value id = .ok node.value := by
  simp [value, node_eq_ok.2 h, Except.map]

theorem value_of_node?_eq_none {id : SignalId} (h : graph.node? id = none) :
    graph.value id = .error (.unknownSignal id) := by
  simp [value, node_eq_error.2 ⟨h, rfl⟩, Except.map]

/-- If a node with the same value stands in a slot, the value of the signal stays. -/
theorem value_eq_of_node? {id : SignalId} {node node' : Node}
    (hnode : graph.node? id = some node) (hnode' : graph'.node? id = some node')
    (hvalue : node'.value = node.value) : graph'.value id = graph.value id := by
  rw [value_of_node? hnode, value_of_node? hnode', hvalue]

theorem value_congr {id : SignalId} (h : graph'.node? id = graph.node? id) :
    graph'.value id = graph.value id := by
  unfold value node
  rw [h]

/-- A stored value is there. -/
theorem value_of_settle {id : SignalId} {value : Value} (h : graph.settle id value = .ok graph') :
    graph'.value id = .ok value := by
  obtain ⟨⟨node, hnode⟩, rfl⟩ := settle_eq_ok.1 h
  have hstored : (graph.modify id (settledNode value)).node? id = some (settledNode value node) := by
    rw [node?_modify, if_pos rfl, hnode]
    rfl
  exact value_of_node? hstored

theorem resolve_congr {value : Value}
    (h : ∀ id ∈ value.handles, graph.value id = graph'.value id) :
    graph.resolve value = graph'.resolve value :=
  value.resolveWith_congr h

theorem exists_resolve_eq_ok {value : Value} (h : ∀ id ∈ value.handles, graph.contains id) :
    ∃ resolved, graph.resolve value = .ok resolved := by
  refine Value.exists_resolveWith_eq_ok fun id hid => ?_
  obtain ⟨node, hnode⟩ := contains_iff.1 (h id hid)
  exact ⟨node.value, value_of_node? hnode⟩

theorem mapM_resolve_congr {operands : List Value}
    (h : ∀ id ∈ Value.dependencies operands, graph.value id = graph'.value id) :
    operands.mapM graph.resolve = operands.mapM graph'.resolve := by
  have hsame : ∀ operand ∈ operands, graph.resolve operand = graph'.resolve operand :=
    fun operand hmem => resolve_congr fun id hid => h id (Value.mem_dependencies.2 ⟨_, hmem, hid⟩)
  clear h
  induction operands with
  | nil => rfl
  | cons operand rest ih =>
    rw [List.mapM_cons, List.mapM_cons, hsame operand List.mem_cons_self,
      ih fun other hother => hsame other (List.mem_cons_of_mem _ hother)]

/-- Operands that do not depend on a node are resolved as before when it changes. -/
theorem mapM_resolve_modify {operands : List Value} {id : SignalId}
    (h : id ∉ Value.dependencies operands) (f : Node → Node) :
    operands.mapM (graph.modify id f).resolve = operands.mapM graph.resolve := by
  refine mapM_resolve_congr fun k hk => value_congr ?_
  have hne : k ≠ id := fun heq => h (heq ▸ hk)
  rw [node?_modify, if_neg hne]

theorem exists_mapM_resolve_eq_ok {operands : List Value}
    (h : ∀ id ∈ Value.dependencies operands, graph.contains id) :
    ∃ inputs, operands.mapM graph.resolve = .ok inputs := by
  have hfound : ∀ operand ∈ operands, ∃ resolved, graph.resolve operand = .ok resolved :=
    fun operand hmem =>
      exists_resolve_eq_ok fun id hid => h id (Value.mem_dependencies.2 ⟨_, hmem, hid⟩)
  clear h
  induction operands with
  | nil => exact ⟨[], rfl⟩
  | cons operand rest ih =>
    obtain ⟨first, hfirst⟩ := hfound operand List.mem_cons_self
    obtain ⟨others, hothers⟩ := ih fun other hother => hfound other (List.mem_cons_of_mem _ hother)
    refine ⟨first :: others, ?_⟩
    rw [List.mapM_cons, hfirst, hothers]
    rfl

/-- Resolving a list resolves each of its members. -/
theorem forall₂_of_mapM_resolve {operands inputs : List Value}
    (h : operands.mapM graph.resolve = .ok inputs) :
    List.Forall₂ (fun operand input => graph.resolve operand = .ok input) operands inputs := by
  induction operands generalizing inputs with
  | nil =>
    obtain rfl := Except.ok.inj h
    exact .nil
  | cons operand rest ih =>
    rw [List.mapM_cons] at h
    cases hfirst : graph.resolve operand with
    | error failure => simp [hfirst, bind, Except.bind] at h
    | ok first =>
      cases hothers : rest.mapM graph.resolve with
      | error failure => simp [hfirst, hothers, bind, Except.bind] at h
      | ok others =>
        simp only [hfirst, hothers, bind, Except.bind, pure, Except.pure, Except.ok.injEq] at h
        subst h
        exact .cons hfirst (ih hothers)

/-- Operands without handles are resolved to themselves. -/
theorem mapM_resolve_of_dependencies_eq_nil {operands : List Value}
    (h : Value.dependencies operands = []) : operands.mapM graph.resolve = .ok operands := by
  have hplain := Value.dependencies_eq_nil.1 h
  clear h
  induction operands with
  | nil => rfl
  | cons operand rest ih =>
    have hfirst : graph.resolve operand = .ok operand :=
      Value.resolveWith_of_not_isReactive (hplain operand List.mem_cons_self)
    rw [List.mapM_cons, hfirst, ih fun other hother => hplain other (List.mem_cons_of_mem _ hother)]
    rfl

/-- If the signals that the operands depend on hold values without handles, the operands are resolved
to such values. -/
theorem dependencies_mapM_resolve {operands inputs : List Value}
    (h : operands.mapM graph.resolve = .ok inputs)
    (hplain : ∀ id ∈ Value.dependencies operands, ∀ value, graph.value id = .ok value →
      value.isReactive = false) : Value.dependencies inputs = [] := by
  have hoperands : ∀ operand ∈ operands, ∀ id ∈ operand.handles, ∀ value,
      graph.value id = .ok value → value.isReactive = false :=
    fun operand hoperand id hid => hplain id (Value.mem_dependencies.2 ⟨operand, hoperand, hid⟩)
  have hresolved := forall₂_of_mapM_resolve h
  clear h hplain
  refine Value.dependencies_eq_nil.2 ?_
  induction hresolved with
  | nil => exact fun _ hvalue => absurd hvalue List.not_mem_nil
  | @cons operand input rest others hfirst _ ih =>
    refine List.forall_mem_cons.2 ⟨?_, ih fun other hother => ?_⟩
    · exact Value.not_isReactive_resolveWith (hoperands operand List.mem_cons_self) hfirst
    · exact hoperands other (List.mem_cons_of_mem _ hother)

/-- A node whose inputs exist can be evaluated. -/
theorem exists_inputsOf_eq_ok {kind : NodeKind}
    (h : ∀ id ∈ kind.dependencies, graph.contains id) :
    ∃ inputs, graph.inputsOf kind = .ok inputs := by
  cases kind with
  | cell => exact ⟨[], rfl⟩
  | derived operands compute => exact exists_mapM_resolve_eq_ok h
  | watch input effect =>
    have hhandles : ∀ id ∈ input.handles, graph.contains id := fun id hid =>
      h id (Value.mem_collectSignals.2 (.inr hid))
    obtain ⟨resolved, hresolved⟩ := exists_resolve_eq_ok hhandles
    exact ⟨[resolved], by simp [inputsOf, hresolved, Except.map]⟩

end Graph

end EffectGraph
