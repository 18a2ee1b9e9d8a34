import EffectGraph.Proofs.Catalog.Pure
import EffectGraph.Proofs.Graph.Marks
import EffectGraph.Proofs.Session.Stages

/-!
# Dispatching instructions

An instruction whose handler has all operands computed is dispatched in one of two ways. If there is
no handle in the operands, the result is computed at once (`dispatch_plain`). Otherwise a node is added
whose value is what the computation makes of the resolved operands; if it fails on them, the node is
removed again and nothing is left of it (`dispatch_reactive`).
-/

namespace EffectGraph

open Exec World

/-- What deriving a signal comes to if the computation gives a result: a signal with the value, while the
operands are resolved as before, or the signals of before. -/
def World.Derives (operands : List Value) (compute : List Value → Script)
    (result : Except Interrupt Value) (w : World) (outcome : Except Interrupt Value) (w' : World) :
    Prop :=
  match result with
  | .error interrupt => outcome = .error interrupt ∧ w'.graph.liveIds = w.graph.liveIds
  | .ok value => ∃ id, outcome = .ok (.signal id) ∧ w'.graph.value id = .ok value ∧
    w'.graph.OnlyEver (· = .derived operands compute) id ∧
      operands.mapM w'.graph.resolve = operands.mapM w.graph.resolve

namespace Graph

variable {graph graph' : Graph} {id : SignalId} {node : Node}

/-- When a node that was just added is removed, the nodes of before are left. -/
theorem Grows.liveIds_erase_subtree (hg : Grows graph graph' id node) (h' : graph'.WellFormed) :
    (graph'.erase (graph'.subtree id)).liveIds = graph.liveIds := by
  have hself : id ∈ graph'.subtree id := (mem_subtree h').2 (.inl rfl)
  have hold : ∀ k ∈ graph.liveIds, k ∉ graph'.subtree id := by
    intro k hk hmem
    obtain ⟨old, hold⟩ := contains_iff.1 (mem_liveIds.1 hk)
    have hlater := h'.le_of_mem_subtree hmem
    rw [hg.id_eq] at hlater
    exact (index_lt hold).not_ge hlater
  rw [liveIds_erase, hg.liveIds_eq, List.filter_append, List.filter_eq_self.2 fun k hk => ?_]
  · simp [hself]
  · simpa using hold k hk

/-- Operands are resolved to the same values when a node is added. -/
theorem Grows.mapM_resolve_eq (hg : Grows graph graph' id node) {operands : List Value}
    (hlive : ∀ p ∈ Value.dependencies operands, graph.contains p) :
    operands.mapM graph'.resolve = operands.mapM graph.resolve := by
  refine mapM_resolve_congr fun p hp => ?_
  obtain ⟨old, hold⟩ := contains_iff.1 (hlive p hp)
  exact value_eq_of_node? hold (hg.node?_old hold) (joined_value ..)

end Graph

namespace Session

variable {session : Session} {hooks : Hooks} {s : Signature} {handler : Handler}
  {values plain : List Value} {compute : List Value → Script}
  {f : List Value → Except Interrupt Value} {w : World} {E : World → Prop}

/-! ## Deriving signals -/

/-- Deriving a signal from nodes that exist adds a node with the result, or leaves none. -/
theorem derive_leaves (hcomputes : session.Computes compute f) (hgraph : w.graph.WellFormed)
    (hreactive : Value.dependencies values ≠ [])
    (hlive : ∀ p ∈ Value.dependencies values, w.graph.contains p)
    (hresolve : values.mapM w.graph.resolve = .ok plain) :
    (Exec.derive values (.derived values compute) fun inputs =>
      (compute inputs).exec session hooks).Leaves
      (fun outcome w' => Steps w w' ∧ Derives values compute (f plain) w outcome w')
      (fun _ => False) w := by
  have hkind : NodeKind.derived values compute ≠ .cell := by simp
  unfold Exec.derive
  split
  · rename_i hnil
    exact absurd hnil hreactive
  refine leaves_bind.2 (create_leaves (fun failure hfailed => ?_) fun id graph hinsert => ?_)
  · obtain ⟨id, graph, hinsert⟩ := Graph.exists_insert_eq_ok hlive (.derived values compute)
    cases hfailed.symm.trans hinsert
  obtain ⟨rank, -, hg⟩ := Graph.grows_insert (Value.nodup_dependencies values) hinsert
  have hadded : Steps w { w with graph } := .single (.insert hkind hinsert)
  have hgrown : graph.WellFormed := hgraph.insert (Value.nodup_dependencies values) hkind hinsert
  have hinputs : graph.inputsOf (.derived values compute) = .ok plain :=
    (hg.mapM_resolve_eq hlive).trans hresolve
  refine evaluateOn_cases (fun failure hfailed => ?_) fun inputs hread => ?_
  · cases hfailed.symm.trans hinputs
  obtain rfl := Except.ok.inj (hread.symm.trans hinputs)
  have hbegun := hadded.trans (steps_begin { w with graph } (.evaluating id inputs))
  obtain ⟨journal, hcomputed⟩ :=
    hcomputes inputs hooks (World.begin { w with graph } (.evaluating id inputs))
  refine leaves_of_eq_some hcomputed (finishFirst_leaves (fun hgone => ?_)
    (fun value graph' hresult hstore => ?_) fun interrupt removed graph' hresult hremove => ?_)
  · cases hgone.symm.trans hg.node?_self
  · -- The value is stored in the new node.
    have hstored := (hbegun.tail (.host _ w.document journal)).tail (.store hstore)
    refine leaves_bind.2 (leaves_modify.2 (leaves_pure.2 ⟨hstored.tail (step_report _ _), ?_⟩))
    rw [hresult]
    obtain ⟨-, rfl⟩ := Graph.settle_eq_ok.1 hstore
    have hself : (graph.modify id (Graph.settledNode value)).node? id =
        some (Graph.settledNode value (Graph.freshNode (.derived values compute)
          (Value.dependencies values) rank)) := by
      rw [Graph.node?_modify, if_pos rfl, hg.node?_self]
      rfl
    have hfresh : id ∉ Value.dependencies values := fun hmem =>
      hg.ne_of_contains (hlive id hmem) rfl
    refine ⟨id, rfl, Graph.value_of_settle hstore, ⟨Graph.index_lt hself, fun node hnode => ?_⟩,
      (Graph.mapM_resolve_modify hfresh _).trans (hg.mapM_resolve_eq hlive)⟩
    obtain rfl := Option.some.inj (hnode.symm.trans hself)
    rfl
  · -- The new node goes again, and nothing depends on it.
    have hcell : ¬ graph.IsCell id := by
      rintro ⟨node, hnode, hcell⟩
      obtain rfl := Option.some.inj (hnode.symm.trans hg.node?_self)
      exact hkind hcell
    have hdropped := (hbegun.tail (.host _ w.document journal)).tail (.drop hcell hremove)
    refine leaves_pure.2 ⟨hdropped, ?_⟩
    rw [hresult]
    obtain ⟨-, -, rfl⟩ := Graph.remove_eq_ok.1 hremove
    exact ⟨rfl, hg.liveIds_erase_subtree hgrown⟩

/-! ## Checking shapes -/

/-- A result passes the check if it has the declared shape, or if the signal that it is has a value of
this shape. -/
theorem checkShape_leaves {i : Instruction} {value : Value}
    (h : i.result.admits value.shape ∨
      ∃ found, currentShape w value = .ok found ∧ i.result.admits found) :
    (checkShape i value).Leaves (fun result w' => result = .ok value ∧ w' = w) E w := by
  unfold checkShape
  split
  · exact leaves_pure.2 ⟨rfl, rfl⟩
  · rename_i hother
    obtain ⟨found, hfound, hadmits⟩ := h.resolve_left hother
    refine leaves_bind.2 (leaves_get.2 ?_)
    rw [hfound]
    dsimp only
    rw [if_pos hadmits]
    exact leaves_pure.2 ⟨rfl, rfl⟩

/-! ## Handing instructions to their handlers -/

/-- Dispatched anywhere, the instruction gives the result, and writes into the journal at most. -/
def Gives (session : Session) (i : Instruction) (result : Except Interrupt Value) : Prop :=
  ∀ hooks w, ∃ journal, dispatch session hooks i w = (some result, { w with journal })

section

variable (hhandler : Keyed.get? s.tag session.handlers = some handler)
  (h : s.IsComputedBy handler compute f) (hlength : values.length = s.names.length)

include hhandler h hlength

/-- What the handler derives from the operands is the result, if its shape is right. -/
theorem dispatch_leaves {Q : Except Interrupt Value → World → Prop}
    (hderive : (Exec.derive values (.derived values compute) fun inputs =>
      (compute inputs).exec session hooks).Leaves (fun outcome w' => Q outcome w' ∧
        ∀ value, outcome = .ok value → s.result.admits value.shape ∨
          ∃ found, currentShape w' value = .ok found ∧ s.result.admits found) E w) :
    (dispatch session hooks (s.instruction values)).Leaves Q E w := by
  have htag : Keyed.get? (s.instruction values).tag session.handlers = some handler := hhandler
  unfold dispatch
  rw [htag]
  dsimp only
  rw [h.derives values hlength]
  refine leaves_bind.2 (leaves_bind.2 (hderive.mono fun outcome w' houtcome => leaves_pure.2 ?_))
  obtain ⟨hQ, hshape⟩ := houtcome
  cases outcome with
  | error interrupt => exact leaves_pure.2 hQ
  | ok value =>
    dsimp only
    split
    · refine (checkShape_leaves (hshape value rfl)).mono ?_
      rintro result w'' ⟨rfl, rfl⟩
      exact hQ
    · exact leaves_pure.2 hQ

/-- On operands without handles the result is computed at once. -/
theorem dispatch_plain (hplain : Value.dependencies values = []) :
    session.Gives (s.instruction values) (f values) := by
  intro hooks w
  have hleaves : (dispatch session hooks (s.instruction values)).Leaves
      (fun result w' => result = f values ∧ ∃ journal, w' = { w with journal }) (fun _ => False)
      w := by
    refine dispatch_leaves hhandler h hlength ?_
    obtain ⟨journal, hcomputed⟩ := h.computes session values hooks w
    unfold Exec.derive
    rw [hplain]
    refine leaves_of_eq_some hcomputed ⟨⟨rfl, journal, rfl⟩, fun value hvalue => .inl ?_⟩
    exact h.covers values value hvalue
  obtain ⟨result, w', hdispatch, rfl, journal, rfl⟩ := hleaves.exists
  exact ⟨journal, hdispatch⟩

/-- On operands with handles a signal is derived. -/
theorem dispatch_reactive (hooks : Hooks) (hgraph : w.graph.WellFormed)
    (hreactive : Value.dependencies values ≠ [])
    (hlive : ∀ p ∈ Value.dependencies values, w.graph.contains p)
    (hresolve : values.mapM w.graph.resolve = .ok plain) :
    ∃ outcome w', dispatch session hooks (s.instruction values) w = (some outcome, w') ∧
      Steps w w' ∧ Derives values compute (f plain) w outcome w' := by
  refine Leaves.exists (dispatch_leaves hhandler h hlength ?_)
  refine (derive_leaves (h.computes session) hgraph hreactive hlive hresolve).mono ?_
  intro outcome w' hderived
  refine ⟨hderived, fun value hvalue => .inr ?_⟩
  obtain ⟨-, hderived⟩ := hderived
  unfold Derives at hderived
  split at hderived
  · rw [hvalue] at hderived
    cases hderived.1
  · rename_i result hresult
    obtain ⟨id, houtcome, hstored, -⟩ := hderived
    obtain rfl := Except.ok.inj (hvalue.symm.trans houtcome)
    refine ⟨result.shape, ?_, h.covers plain result hresult⟩
    simp [currentShape, hstored, Except.map]

end

end Session

end EffectGraph
