import EffectGraph.Proofs.Catalog.Pure
import EffectGraph.Proofs.Session.Upholding

/-!
# Signals that are derived from cells

A pass that starts from a cell computes all signals anew that are derived from it. Within a batch such
a signal need not hold what its computation makes of the cells, but then one of them has been written
and its pass is still to come (`Derivation.Attended`). So the signal holds it when the batch has ended,
if there was no failure (`Derivation.Stands.holds_after_call`). The other nodes may be computed in any
way.
-/

namespace EffectGraph

open Exec World

/-- A signal, the operands and the computation that it is derived with, and what the computation makes
of the resolved operands. -/
structure Derivation where
  id : SignalId
  operands : List Value
  compute : List Value → Script
  result : List Value → Except Interrupt Value

namespace Derivation

variable {d : Derivation} {earlier : List Moment} {todo : List SignalId} {w w₀ w' : World}

/-- The signals that the operands depend on. -/
def signals (d : Derivation) : List SignalId := Value.dependencies d.operands

/-- In its slot there is nothing but the signal, now and later, and what it depends on are cells. -/
structure Stands (d : Derivation) (w : World) : Prop where
  wellFormed : w.toScene.WellFormed
  wired : w.graph.Wired
  signal : w.graph.OnlyEver (· = .derived d.operands d.compute) d.id
  cells : ∀ cell ∈ d.signals, w.graph.OnlyEver (· = .cell) cell

/-- The signal holds what its computation makes of the values of the cells. -/
def Holds (d : Derivation) (graph : Graph) : Prop :=
  ∃ inputs value, d.operands.mapM graph.resolve = .ok inputs ∧ d.result inputs = .ok value ∧
    graph.value d.id = .ok value

/-- While changes are being settled: if the signal exists and one of the cells was written since some
time, then the signal is still to be computed, or holds what its computation makes of the cells, or no
pass has started yet from a cell that was written. -/
structure Attended (d : Derivation) (earlier : List Moment) (todo : List SignalId) (w : World) : Prop
    extends d.Stands w where
  settling : w.settling = true
  current : ∃ since, w.past = since ++ earlier ∧
    (w.graph.contains d.id → (∃ cell ∈ d.signals, WrittenIn since cell) →
      d.id ∈ todo ∨ d.Holds w.graph ∨ ∃ cell ∈ d.signals, cell ∈ openWrites since)

/-- No pass starts, and none of the cells is written. -/
def Ignores (d : Derivation) : Activity → Prop
  | .propagating _ => False
  | .wrote cell _ => cell ∉ d.signals
  | _ => True

/-! ## Steps -/

namespace Stands

theorem steps (h : d.Stands w) (hsteps : Steps w w') : d.Stands w' where
  wellFormed := hsteps.scene_wellFormed h.wellFormed
  wired := hsteps.wired h.wired
  signal := h.signal.follows hsteps.follows
  cells cell hcell := (h.cells cell hcell).follows hsteps.follows

theorem kind_eq (h : d.Stands w) {node : Node} (hnode : w.graph.node? d.id = some node) :
    node.kind = .derived d.operands d.compute :=
  h.signal.2 node hnode

/-- The signal is no cell. -/
theorem ne_of_cell (h : d.Stands w) {cell : SignalId} {node : Node}
    (hnode : w.graph.node? cell = some node) (hkind : node.kind = .cell) : d.id ≠ cell := by
  rintro rfl
  cases (h.kind_eq hnode).symm.trans hkind

/-- If the signal exists, so do the cells. -/
theorem contains_cells (h : d.Stands w) (hid : w.graph.contains d.id) :
    ∀ cell ∈ d.signals, w.graph.contains cell := by
  obtain ⟨node, hnode⟩ := Graph.contains_iff.1 hid
  have hlive := Graph.Wired.operands_live h.wired h.wellFormed.graph hnode
  rwa [h.kind_eq hnode] at hlive

end Stands

/-- Only the values of the signal and of the cells count. -/
theorem Holds.congr {graph graph' : Graph} (h : d.Holds graph)
    (hvalues : ∀ k, k = d.id ∨ k ∈ d.signals → graph'.value k = graph.value k) : d.Holds graph' := by
  obtain ⟨inputs, value, hinputs, hresult, hvalue⟩ := h
  refine ⟨inputs, value, ?_, hresult, (hvalues d.id (.inl rfl)).trans hvalue⟩
  rw [← hinputs]
  exact Graph.mapM_resolve_congr fun cell hcell => hvalues cell (.inr hcell)

namespace Attended

/-- As long as no pass starts, none of the cells is written, and these and the signal keep their values
while they exist, nothing else need be attended to. -/
theorem lead (h : d.Attended earlier todo w) (hsteps : Steps w w') (hsettling : w'.settling = true)
    {since : List Moment} (hpast : w'.past = since ++ w.past)
    (hignores : ∀ m ∈ since, d.Ignores m.activity)
    (hvalues : ∀ k, k = d.id ∨ k ∈ d.signals → ∀ node node', w.graph.node? k = some node →
      w'.graph.node? k = some node' → node'.value = node.value) : d.Attended earlier todo w' := by
  have hstands := h.toStands.steps hsteps
  obtain ⟨before, hbefore, hcurrent⟩ := h.current
  refine ⟨hstands, hsettling, since ++ before, ?_, fun hid ⟨cell, hcell, m, hm, value, hwrote⟩ => ?_⟩
  · rw [hpast, hbefore, List.append_assoc]
  have hold : w.graph.contains d.id := h.signal.contains_before hsteps.follows hid
  have hearlier : m ∈ before := by
    refine (List.mem_append.1 hm).resolve_left fun hmem => ?_
    have hother := hignores m hmem
    rw [hwrote] at hother
    exact hother hcell
  rcases hcurrent hold ⟨cell, hcell, m, hearlier, value, hwrote⟩ with
    htodo | hholds | ⟨other, hother, hopen⟩
  · exact .inl htodo
  · refine .inr (.inl (hholds.congr fun k hk => ?_))
    obtain ⟨hlive, hlive'⟩ : w.graph.contains k ∧ w'.graph.contains k := by
      rcases hk with rfl | hk
      · exact ⟨hold, hid⟩
      · exact ⟨h.contains_cells hold k hk, hstands.contains_cells hid k hk⟩
    obtain ⟨node, hnode⟩ := Graph.contains_iff.1 hlive
    obtain ⟨node', hnode'⟩ := Graph.contains_iff.1 hlive'
    exact Graph.value_eq_of_node? hnode hnode' (hvalues k hk node node' hnode hnode')
  · refine .inr (.inr ⟨other, hother, mem_openWrites_of_unpassed (fun m hm roots hpass => ?_) hopen⟩)
    have hnone := hignores m hm
    rw [hpass] at hnone
    exact hnone.elim

/-- Nothing happens to the graph. -/
theorem of_graph (h : d.Attended earlier todo w) (hsteps : Steps w w')
    (hsettling : w'.settling = true) {since : List Moment} (hpast : w'.past = since ++ w.past)
    (hignores : ∀ m ∈ since, d.Ignores m.activity) (hgraph : w'.graph = w.graph) :
    d.Attended earlier todo w' := by
  refine h.lead hsteps hsettling hpast hignores fun k _ node node' hnode hnode' => ?_
  rw [hgraph, hnode] at hnode'
  obtain rfl := Option.some.inj hnode'
  rfl

theorem begin (h : d.Attended earlier todo w) {activity : Activity} (hignores : d.Ignores activity) :
    d.Attended earlier todo (w.begin activity) := by
  have hpast : (w.begin activity).past = [⟨activity, .of w.toScene⟩] ++ w.past := rfl
  refine h.of_graph (steps_begin w activity) h.settling hpast (fun m hm => ?_) rfl
  rw [List.mem_singleton.1 hm]
  exact hignores

/-- Nothing happens that is remembered. -/
theorem of_past (h : d.Attended earlier todo w) (hsteps : Steps w w')
    (hsettling : w'.settling = w.settling) (hpast : w'.past = w.past) (hgraph : w'.graph = w.graph) :
    d.Attended earlier todo w' := by
  have hnone : w'.past = [] ++ w.past := hpast
  exact h.of_graph hsteps (hsettling.trans h.settling) hnone
    (fun _ hm => absurd hm List.not_mem_nil) hgraph

/-- Nodes older than the start of a script are not evaluated by its acts. -/
theorem act (h : d.Attended earlier todo w) (h₀ : d.Stands w₀)
    (hact : (Calls.all.scope w₀.graph.slots.size).Act w w') : d.Attended earlier todo w' := by
  obtain ⟨since, hpast, hevaluations⟩ := hact.any.moments
  refine h.lead hact.any.steps (hact.any.queue_eq.1.trans h.settling) hpast (fun _ hm => ?_)
    fun k hk node node' hnode hnode' => ?_
  · obtain ⟨id, inputs, heq⟩ := hevaluations _ hm
    rw [heq]
    trivial
  · have hold : k.index < w₀.graph.slots.size := by
      rcases hk with rfl | hk
      · exact h₀.signal.1
      · exact (h₀.cells k hk).1
    exact (hact.sameState hnode (fun hlater => absurd hold (not_lt.2 hlater)) hnode').value_eq

/-- A value is stored in another node that is none of the cells. -/
theorem store (h : d.Attended earlier todo w) {id : SignalId} {value : Value} {graph : Graph}
    (hstore : w.graph.settle id value = .ok graph) (hid : id ≠ d.id) (hcell : id ∉ d.signals) :
    d.Attended earlier todo { w with graph } := by
  have hpast : World.past { w with graph } = [] ++ w.past := rfl
  refine h.lead (.single (.store hstore)) h.settling hpast
    (fun m hm => absurd hm List.not_mem_nil) fun k hk node node' hnode hnode' => ?_
  obtain ⟨-, rfl⟩ := Graph.settle_eq_ok.1 hstore
  have hne : k ≠ id := by
    rintro rfl
    exact hk.elim hid hcell
  have hsame : (w.graph.modify id (Graph.settledNode value)).node? k = some node' := hnode'
  rw [Graph.node?_modify, if_neg hne, hnode] at hsame
  obtain rfl := Option.some.inj hsame
  rfl

/-- A write of one of the cells waits for its pass. -/
theorem write (h : d.Attended earlier todo w) {cell : SignalId} {value : Value} {graph : Graph}
    (hcell : w.graph.IsCell cell) (hstore : w.graph.settle cell value = .ok graph) :
    d.Attended earlier todo (World.begin { w with graph } (.wrote cell value)) := by
  by_cases hmem : cell ∈ d.signals
  · have hsteps : Steps w (World.begin { w with graph } (.wrote cell value)) :=
      .head (.store hstore) (steps_begin _ _)
    obtain ⟨before, hbefore, -⟩ := h.current
    refine ⟨h.toStands.steps hsteps, h.settling, _ :: before, congrArg (_ :: ·) hbefore, fun _ _ => ?_⟩
    exact .inr (.inr ⟨cell, hmem, List.mem_cons_self⟩)
  · obtain ⟨node, hnode, hkind⟩ := hcell
    exact (h.store hstore (h.ne_of_cell hnode hkind).symm hmem).begin hmem

theorem enqueue (h : d.Attended earlier todo w) (change : Change) :
    d.Attended earlier todo (w.enqueue change) := by
  have hpast : (w.enqueue change).past = [⟨.queued change, _⟩] ++ w.past := rfl
  refine h.of_graph (steps_enqueue w change) h.settling hpast (fun m hm => ?_) rfl
  rw [List.mem_singleton.1 hm]
  trivial

theorem skip {id : SignalId} (h : d.Attended earlier (id :: todo) w)
    (hid : w.graph.contains d.id → d.id ≠ id) : d.Attended earlier todo w := by
  obtain ⟨since, hsince, hcurrent⟩ := h.current
  refine ⟨h.toStands, h.settling, since, hsince, fun hlive hwritten => ?_⟩
  exact (hcurrent hlive hwritten).imp_left fun hmem =>
    (List.mem_cons.1 hmem).resolve_left (hid hlive)

end Attended

/-! ## Scripts -/

/-- One state leads to another in which what is still to be attended to is the same. -/
def Leads (d : Derivation) (earlier : List Moment) (w w' : World) : Prop :=
  Steps w w' ∧ ∀ todo, d.Attended earlier todo w → d.Attended earlier todo w'

theorem admits_leads : Calls.all.Admits (d.Leads earlier) fun _ _ => True where
  refl _ := ⟨.refl, fun _ h => h⟩
  trans h h' := ⟨h.1.trans h'.1, fun todo hw => h'.2 todo (h.2 todo hw)⟩
  cut _ := trivial
  trans_cut _ _ := trivial
  act h hact := ⟨h.1.trans hact.any.steps, fun todo hw => (h.2 todo hw).act hw.toStands hact⟩
  follows h := h.1.follows

/-- Whatever a script does, it attends to the signal. -/
theorem tracks_leads (session : Session) (level : Nat) :
    Calls.all.Tracks (session.hooksAt level) (d.Leads earlier) fun _ _ => True := by
  refine Session.tracks_hooksAt session admits_leads session.makes_all ?_ ?_ level
  · intro level w cell value graph hcell hstore
    have hwritten : Steps w (World.begin { w with graph } (.wrote cell value)) :=
      .head (.store hstore) (steps_begin _ _)
    refine (Session.request_while_settling session hwritten rfl
      (P := fun w' => ∀ todo, d.Attended earlier todo w → d.Attended earlier todo w')
      (fun _ todo h => h.write hcell hstore)
      fun _ todo h => (h.write hcell hstore).enqueue _).mono ?_
    exact fun _ w' h => ⟨h.1, fun todo hw => h.2 hw.settling todo hw⟩
  · intro level _ source payload found _
    refine (Session.request_while_settling session .refl rfl
      (P := fun w' => ∀ todo, d.Attended earlier todo _ → d.Attended earlier todo w')
      (fun _ todo h => h) fun _ todo h => h.enqueue _).mono ?_
    exact fun _ w' h => ⟨h.1, fun todo hw => h.2 hw.settling todo hw⟩

end Derivation

namespace Session

variable {session : Session} {hooks : Hooks} {d : Derivation} {earlier : List Moment}
  {todo : List SignalId} {w w' : World}

/-! ## Passes -/

theorem mem_passOrder {graph : Graph} {roots : List SignalId} {id : SignalId} :
    id ∈ passOrder graph roots ↔ id ∈ graph.plan roots := by
  rw [passOrder, List.mem_append, List.mem_filter, List.mem_filter]
  cases isWatch graph id with
  | false => simp
  | true => simp

/-- When a pass starts from some cells while one of the inputs of a node has been written, the node is
evaluated, or the pass of the input is still to come. -/
theorem evaluated_or_open {graph : Graph} {roots reads : List SignalId} {id : SignalId} {node : Node}
    {past : List Moment} {scene : Ghost Scene} (hgraph : graph.WellFormed)
    (hroots : ∀ root ∈ roots, graph.OnlyEver (· = .cell) root) (hnode : graph.node? id = some node)
    (hreads : node.inputs = reads) (hopen : ∃ k ∈ reads, k ∈ openWrites past) :
    id ∈ passOrder graph roots ∨
      ∃ k ∈ reads, k ∈ openWrites (⟨.propagating roots, scene⟩ :: past) := by
  subst hreads
  obtain ⟨k, hinput, hwritten⟩ := hopen
  by_cases hroot : k ∈ roots
  · have hfeeds := hgraph.feeds_of_mem_inputs hnode hinput
    exact .inl (mem_passOrder.2
      ((Graph.mem_plan_of_cells hgraph hroots).2 ⟨k, hroot, .single hfeeds⟩))
  · exact .inr ⟨k, hinput, List.mem_filter.2 ⟨hwritten, by simpa using hroot⟩⟩

/-- With an input of a node the node is evaluated too, before it or after it. -/
theorem mem_passOrder_around {graph : Graph} {roots : List SignalId} {k id : SignalId} {node : Node}
    {front rest : List SignalId} (hgraph : graph.WellFormed)
    (hroots : ∀ root ∈ roots, graph.OnlyEver (· = .cell) root) (hnode : graph.node? id = some node)
    (hinput : k ∈ node.inputs) (heq : passOrder graph roots = front ++ k :: rest) :
    id ∈ front ∨ id ∈ rest := by
  have hfeeds := hgraph.feeds_of_mem_inputs hnode hinput
  have hmem : id ∈ passOrder graph roots := by
    have hk : k ∈ passOrder graph roots := heq ▸ List.mem_append_right _ List.mem_cons_self
    rw [mem_passOrder, Graph.mem_plan_of_cells hgraph hroots] at hk ⊢
    exact hk.feeds hfeeds
  rw [heq, List.mem_append, List.mem_cons] at hmem
  refine hmem.imp_right fun hlater => hlater.resolve_left ?_
  rintro rfl
  exact lt_irrefl _ (hgraph.rank_lt_of_feeds hfeeds)

/-- When the signal has been computed without a failure, it holds what was computed. -/
theorem evaluate_attended_self (hcomputes : session.Computes d.compute d.result)
    (h : d.Attended earlier todo w) : (evaluate session hooks d.id).Leaves
      (fun result w' => result = .ok () → ∀ todo, d.Attended earlier todo w') (fun _ => True) w := by
  refine leaves_bind.2 (leaves_get.2 ?_)
  split
  · exact leaves_pure.2 fun hok => by cases hok
  rename_i node hnode
  have hself := Graph.node_eq_ok.1 hnode
  rw [h.kind_eq hself]
  refine leaves_bind.2 (evaluateOn_cases (fun failure _ => leaves_pure.2 fun hok => by cases hok)
    fun inputs hinputs => ?_)
  obtain ⟨journal, hcomputed⟩ := hcomputes inputs hooks (w.begin (.evaluating d.id inputs))
  refine leaves_of_eq_some hcomputed ?_
  cases hresult : d.result inputs with
  | error interrupt => exact leaves_pure.2 fun hok => by cases hok
  | ok value =>
    refine settleNode_leaves (fun graph hstore _ todo => ?_) fun failure _ hok => by cases hok
    have hsteps := ((steps_begin w (.evaluating d.id inputs)).tail (.host _ w.document journal)).tail
      (.store hstore)
    obtain ⟨before, hbefore, -⟩ := h.current
    refine ⟨h.toStands.steps hsteps, h.settling, _ :: before, congrArg (_ :: ·) hbefore, fun _ _ => ?_⟩
    refine .inr (.inl ⟨inputs, value, ?_, hresult, Graph.value_of_settle hstore⟩)
    rw [← (hinputs : d.operands.mapM w.graph.resolve = .ok inputs)]
    obtain ⟨-, rfl⟩ := Graph.settle_eq_ok.1 hstore
    refine Graph.mapM_resolve_modify (fun hcell => ?_) _
    cases ((h.cells _ hcell).2 node hself).symm.trans (h.kind_eq hself)

section

variable (htracks : Calls.all.Tracks hooks (d.Leads earlier) fun _ _ => True)

include htracks

theorem evaluate_attended_other {id : SignalId} (hid : id ≠ d.id) (h : d.Attended earlier todo w) :
    (evaluate session hooks id).Leaves (fun _ w' => d.Attended earlier todo w') (fun _ => True) w := by
  refine leaves_bind.2 (leaves_get.2 ?_)
  split
  · exact leaves_pure.2 h
  rename_i node hnode
  split
  · exact leaves_pure.2 h
  rename_i hcomputed
  refine leaves_bind.2 (evaluateOn_cases (fun failure _ => leaves_pure.2 h) fun inputs _ => ?_)
  have hbegun : d.Attended earlier todo (w.begin (.evaluating id inputs)) := h.begin trivial
  refine (computation_tracked session htracks node.kind inputs _).mono fun result w₁ hran => ?_
  have hdone := hran.2 todo hbegun
  cases result with
  | error interrupt => exact leaves_pure.2 hdone
  | ok value =>
    refine settleNode_leaves (fun graph hstore => hdone.store hstore hid fun hcell => ?_)
      fun _ _ => hdone
    have hkind : node.kind = .cell := (h.cells id hcell).2 node (Graph.node_eq_ok.1 hnode)
    exact hcomputed (by rw [hkind]; rfl)

variable (hcomputes : session.Computes d.compute d.result)

include hcomputes

theorem evaluateAll_attended (ids : List SignalId) (h : d.Attended earlier ids w) :
    (evaluateAll session hooks ids).Leaves (fun failures w' => failures = [] → d.Attended earlier [] w')
      (fun _ => True) w := by
  induction ids generalizing w with
  | nil => exact leaves_pure.2 fun _ => h
  | cons id rest ih =>
    refine leaves_bind.2 (leaves_get.2 ?_)
    split
    · have hevaluated : (evaluate session hooks id).Leaves
          (fun result w' => result = .ok () → d.Attended earlier rest w') (fun _ => True) w := by
        by_cases hid : id = d.id
        · subst hid
          exact (evaluate_attended_self hcomputes h).mono fun _ _ hself hok => hself hok rest
        · exact (evaluate_attended_other htracks hid h).mono fun _ _ hother _ =>
            hother.skip fun _ heq => hid heq.symm
      refine leaves_bind.2 (hevaluated.mono fun result w₁ hdone => ?_)
      cases result with
      | ok _ => exact ih (hdone rfl)
      | error failure =>
        refine leaves_bind.2 (leaves_modify.2 (leaves_bind.2 ?_))
        exact (leaves_self _ _).mono fun _ _ _ => leaves_pure.2 fun hnone => by cases hnone
    · rename_i hgone
      refine ih (h.skip fun hlive heq => ?_)
      rw [heq] at hlive
      exact hgone hlive

/-- A pass that starts from one of the cells computes the signal. -/
theorem propagate_attended {roots : List SignalId}
    (hroots : ∀ root ∈ roots, w.graph.OnlyEver (· = .cell) root) (h : d.Attended earlier [] w) :
    (propagate session hooks roots).Leaves (fun failures w' => failures = [] → d.Attended earlier [] w')
      (fun _ => True) w := by
  refine propagate_leaves (fun _ _ => h) fun _ => evaluateAll_attended htracks hcomputes _ ?_
  have hsteps {event : Event} : Steps w ((w.report event).begin (.propagating roots)) :=
    .head (step_report w event) (steps_begin _ _)
  obtain ⟨before, hbefore, hcurrent⟩ := h.current
  refine ⟨h.toStands.steps hsteps, h.settling, _ :: before, congrArg (_ :: ·) hbefore,
    fun hlive hwritten => ?_⟩
  have hbeforeWritten : ∃ cell ∈ d.signals, WrittenIn before cell := by
    obtain ⟨cell, hcell, m, hm, value, hwrote⟩ := hwritten
    rcases List.mem_cons.1 hm with rfl | hm
    · cases hwrote
    · exact ⟨cell, hcell, m, hm, value, hwrote⟩
  rcases hcurrent hlive hbeforeWritten with htodo | hholds | hopen
  · exact absurd htodo List.not_mem_nil
  · exact .inr (.inl hholds)
  · obtain ⟨node, hnode⟩ := Graph.contains_iff.1 hlive
    have hself : w.graph.node? d.id = some node := hnode
    have hinputs : node.inputs = d.signals := by
      rw [h.wired hself, h.kind_eq hself]
      rfl
    exact (evaluated_or_open h.wellFormed.graph hroots hself hinputs hopen).imp_right .inr

/-! ## Batches -/

/-- A batch without failures attends to the signal. -/
theorem upholds_attended :
    session.Upholds hooks (fun _ => True) (· = []) (d.Attended earlier []) :=
  upholds_of_past htracks (fun h => h.wellFormed) (fun h => h.settling) (fun h => h.of_past)
    (fun _ h => h.begin trivial) (fun hled h => hled.2 [] h) (fun _ _ _ h => h.begin trivial)
    (fun _ h => h.begin trivial) (fun h hcell hstore => h.write hcell hstore)
    fun h hroots hran => (propagate_attended htracks hcomputes hroots h).of_eq_some hran

end

end Session

theorem Script.settled_eq_ok {failures : List Failure} :
    Script.settled failures = .ok () ↔ failures = [] := by
  cases failures with
  | nil => simp [settled]
  | cons failure rest => simp [settled]

/-- What an accepted call writes is a cell. -/
theorem Call.isCell_of_accept {call : Call} {w w₁ : World} (h : call.accept w = .ok w₁) :
    ∀ cell ∈ call.change.roots, w.graph.IsCell cell := by
  intro cell hcell
  cases call with
  | fire source payload => exact absurd hcell List.not_mem_nil
  | set written value =>
    obtain rfl := List.mem_singleton.1 hcell
    cases hnode : w.graph.node cell with
    | error failure => simp [accept, hnode] at h
    | ok node =>
      by_cases hkind : node.kind.isCell = true
      · exact Graph.isCell_of_node hnode hkind
      · simp [accept, hnode, hkind] at h

/-- A cell that has been set without a failure has been written. -/
theorem Call.writtenIn_of_set {session : Session} {level : Nat} {cell : SignalId} {value : Value}
    {since : List Moment} {w w' : World}
    (hcall : (Call.set cell value).exec (session.hooksAt level) w = (some (.ok ()), w'))
    (hpast : w'.past = since ++ w.past) : WrittenIn since cell := by
  have hleaves : ((Call.set cell value).exec (session.hooksAt level)).Leaves
      (fun result w' => result = .ok () →
        ∃ m : Moment, m.activity = .wrote cell value ∧ m :: w.past <:+ w'.past)
      (fun _ => True) w := by
    refine Call.exec_leaves _ (fun failure _ hok => by cases hok) fun w₁ haccepted => ?_
    refine (stepwise_request (session.hooksAt_stepwise level) _ w₁).imp (fun result w' hsteps _ => ?_)
      fun _ _ => trivial
    rcases Call.accept_eq_ok haccepted with ⟨_, _, graph, hset, -, rfl⟩ | ⟨_, _, _, hfire, -⟩
    · obtain ⟨rfl, rfl⟩ := Call.set.inj hset
      exact ⟨_, rfl, (Steps.follows hsteps).past_suffix⟩
    · cases hfire
  obtain ⟨m, hwrote, before, hbefore⟩ := hleaves.of_eq_some hcall rfl
  have hmem : m ∈ since := by
    rw [hpast, List.append_cons] at hbefore
    rw [← List.append_cancel_right hbefore]
    exact List.mem_append_right _ (List.mem_singleton_self m)
  exact ⟨m, hmem, value, hwrote⟩

namespace Derivation

variable {d : Derivation} {session : Session} {level : Nat} {call : Call} {since : List Moment}
  {w w' : World}

/-- When a call in which one of the cells is written reports no failure, the signal holds what its
computation makes of the cells. -/
theorem Stands.holds_after_call (h : d.Stands w) (hcomputes : session.Computes d.compute d.result)
    (hcalm : w.Calm) (hcall : call.exec (session.hooksAt level) w = (some (.ok ()), w'))
    (hpast : w'.past = since ++ w.past) (hwritten : ∃ cell ∈ d.signals, WrittenIn since cell)
    (hid : w'.graph.contains d.id) : d.Holds w'.graph := by
  have hleaves : (call.exec (session.hooksAt level)).Leaves (fun result w' => result = .ok () →
      w'.past = since ++ w.past → w'.graph.contains d.id → d.Holds w'.graph) (fun _ => True) w := by
    refine Call.exec_leaves _ (fun failure _ hok => by cases hok) fun w₁ haccepted => ?_
    refine (Session.request_settles hcalm haccepted).imp (fun result w' hsettles hok hpast hid => ?_)
      fun _ _ => trivial
    have hroots := Call.isCell_of_accept haccepted
    obtain ⟨hsteps, hqueue, hbegun⟩ : Steps w w₁ ∧ w₁.queue = w.queue ∧
        d.Attended w.past [] { w₁ with settling := true } := by
      rcases Call.accept_eq_ok haccepted with ⟨k, value, graph, rfl, hstore, rfl⟩ |
        ⟨source, payload, found, rfl, -, rfl⟩
      · have hsteps : Steps w (World.begin { w with graph } (.wrote k value)) :=
          .head (.store hstore) (steps_begin _ _)
        refine ⟨hsteps, rfl, h.steps (hsteps.tail (.settling _ true)), rfl, [_], rfl, ?_⟩
        rintro - ⟨cell, hcell, m, hm, v, hwrote⟩
        rw [List.mem_singleton.1 hm] at hwrote
        obtain ⟨rfl, -⟩ := Activity.wrote.inj hwrote
        exact .inr (.inr ⟨k, hcell, List.mem_cons_self⟩)
      · refine ⟨.refl, rfl, h.steps (.single (.settling _ true)), rfl, [], rfl, ?_⟩
        rintro - ⟨cell, hcell, m, hm, -⟩
        exact absurd hm List.not_mem_nil
    have hcells : ∀ cell ∈ call.change.roots, w₁.graph.OnlyEver (· = .cell) cell := fun cell hcell =>
      (hroots cell hcell).onlyEver.follows hsteps.follows
    obtain ⟨last, taken, hlast, hempty, ⟨since', hspan⟩, hdone⟩ := hsettles.upheld
      (Session.upholds_attended (tracks_leads session _) hcomputes) (session.tracks_worksOn _)
      (fun hnone => (List.append_eq_nil_iff.1 (List.append_eq_nil_iff.1 hnone).1).2)
      (hqueue.trans hcalm.2) hcells hbegun
      fun failures heq => Script.settled_eq_ok.1 (heq.symm.trans hok)
    rw [hlast] at hpast hid ⊢
    obtain ⟨since'', hattended, hcurrent⟩ := hdone.current
    obtain rfl : since'' = since := List.append_cancel_right (hattended.symm.trans hpast)
    obtain rfl : since' = since'' := List.append_cancel_right (hspan.past_eq.symm.trans hpast)
    rcases hcurrent hid hwritten with htodo | hholds | ⟨cell, -, hopen⟩
    · exact absurd htodo List.not_mem_nil
    · exact hholds
    · rw [hspan.openWrites_eq_nil hempty] at hopen
      exact absurd hopen List.not_mem_nil
  exact hleaves.of_eq_some hcall rfl hpast hid

end Derivation

end EffectGraph
