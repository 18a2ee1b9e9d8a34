import EffectGraph.Proofs.Program.Calling
import EffectGraph.Proofs.Session.Derivations
import EffectGraph.Proofs.Session.Evaluations
import EffectGraph.Proofs.Session.Folds

/-!
# Signals that follow their inputs

Between batches a derived signal whose computation does nothing else and never fails holds what the
computation makes of the values that its inputs have now (`World.InStep`). The inputs may be anything:
cells, signals that are derived in any way, and watches. Within a batch the signal may lag behind, but
then it is still to be computed, or one of its inputs has been written and the pass from there is still
to come (`World.Attends`). A pass computes the signal after its inputs. Only the watches among these
may come later, and they hold unit all the time (`Graph.WatchesIdle`).

All of this is said of any set of signals. Of the empty set it says that nothing is being settled and
that watches hold unit (`World.Rests`).
-/

namespace EffectGraph

open Exec World

/-! ## Watches -/

namespace Graph

variable {graph graph' : Graph} {id : SignalId} {node : Node}

/-- All watches hold unit. -/
def WatchesIdle (graph : Graph) : Prop :=
  ∀ id node, graph.node? id = some node → node.kind.isWatch → node.value = .unit

namespace WatchesIdle

theorem settle (h : graph.WatchesIdle) {value : Value} (hstore : graph.settle id value = .ok graph')
    (hunit : ∀ node, graph.node? id = some node → node.kind.isWatch → value = .unit) :
    graph'.WatchesIdle := by
  obtain ⟨-, rfl⟩ := Graph.settle_eq_ok.1 hstore
  intro k node' hnode' hwatch
  rw [Graph.node?_modify] at hnode'
  by_cases hk : k = id
  · subst hk
    rw [if_pos rfl] at hnode'
    obtain ⟨node, hnode, rfl⟩ := Option.map_eq_some_iff.1 hnode'
    exact hunit node hnode hwatch
  · rw [if_neg hk] at hnode'
    exact h k node' hnode' hwatch

/-- Writing a cell is no matter for the watches. -/
theorem write (h : graph.WatchesIdle) {value : Value} (hcell : graph.IsCell id)
    (hstore : graph.settle id value = .ok graph') : graph'.WatchesIdle := by
  refine h.settle hstore fun node hnode hwatch => ?_
  obtain ⟨old, hold, hkind⟩ := hcell
  obtain rfl := Option.some.inj (hold.symm.trans hnode)
  rw [hkind] at hwatch
  cases hwatch

theorem grow (h : graph.WatchesIdle) (hg : Grows graph graph' id node)
    (hunit : node.kind.isWatch → node.value = .unit) : graph'.WatchesIdle := by
  intro k node' hnode' hwatch
  rcases hg.cases hnode' with ⟨rfl, rfl⟩ | ⟨old, hold, rfl⟩
  · exact hunit hwatch
  · rw [joined_kind] at hwatch
    rw [joined_value]
    exact h k old hold hwatch

theorem remove (h : graph.WatchesIdle) {removed : List SignalId}
    (hremove : graph.remove id = .ok (removed, graph')) : graph'.WatchesIdle := by
  obtain ⟨-, -, rfl⟩ := Graph.remove_eq_ok.1 hremove
  intro k node' hnode' hwatch
  obtain ⟨-, node, hnode, rfl⟩ := Graph.node?_of_erase hnode'
  exact h k node hnode hwatch

end WatchesIdle

end Graph

/-- Scripts give a watch nothing but unit. -/
theorem World.Act.watchesIdle {w w' : World} (hact : Act w w') (h : w.graph.WatchesIdle) :
    w'.graph.WatchesIdle := by
  cases hact with
  | host | evaluating | source | bind | merge | listen => exact h
  | store _ hstore _ hunit => exact h.settle hstore hunit
  | cell value => exact h.grow (Graph.grows_insertCell w.graph value) nofun
  | @insert kind _ _ _ hinsert =>
    obtain ⟨rank, -, hg⟩ := Graph.grows_insert kind.nodup_dependencies hinsert
    exact h.grow hg fun _ => rfl
  | remove hremove =>
    obtain ⟨graph, hgraph, rfl⟩ := removeSignal_eq_ok.1 hremove
    exact h.remove hgraph
  | drop _ hremove => exact h.remove hremove
  | attach => exact h.grow (Graph.grows_insertCell w.graph _) nofun

/-! ## Signals and their inputs -/

namespace Derivation

variable {session : Session} {d : Derivation} {graph graph' : Graph} {since : List Moment}
  {todo : List SignalId} {id : SignalId}

/-- The computation does nothing but give its result, and never fails on the values of the operands. -/
structure IsReliable (session : Session) (d : Derivation) : Prop where
  computes : session.Computes d.compute d.result
  succeeds : ∀ graph inputs, d.operands.mapM (Graph.resolve graph) = .ok inputs →
    ∃ value, d.result inputs = .ok value

/-- When the signal is evaluated it is given what its computation makes of its inputs, and these stay
as they are. -/
theorem IsReliable.gives (h : d.IsReliable session) {hooks : Hooks} {inputs : List Value}
    {result : Except Interrupt Value} {w w' : World}
    (hinputs : d.operands.mapM w.graph.resolve = .ok inputs)
    (heq : session.computation hooks (.derived d.operands d.compute) inputs w = (some result, w')) :
    ∃ value, result = .ok value ∧ d.result inputs = .ok value ∧
      d.operands.mapM w'.graph.resolve = .ok inputs := by
  obtain ⟨journal, hcomputed⟩ := h.computes inputs hooks w
  obtain ⟨value, hvalue⟩ := h.succeeds w.graph inputs hinputs
  obtain ⟨hresult, rfl⟩ := Prod.mk.inj (hcomputed.symm.trans heq)
  exact ⟨value, (Option.some.inj hresult).symm.trans hvalue, hvalue, hinputs⟩

/-- The inputs of the signal come before it, but for watches. -/
def Due (d : Derivation) (graph : Graph) (todo : List SignalId) : Prop :=
  ∀ front k rest, todo = front ++ k :: rest → k ∈ d.signals →
    d.id ∈ rest ∨ graph.OnlyEver (fun kind => kind.isWatch) k

/-- While some nodes are still to be evaluated: if the signal exists, then it is one of these and comes
after its inputs, or it holds what its computation makes of them, or no pass has started yet from one
of them that was written. -/
def IsAttended (d : Derivation) (graph : Graph) (since : List Moment) (todo : List SignalId) : Prop :=
  graph.contains d.id → d.Due graph todo ∧
    (d.id ∈ todo ∨ d.Holds graph ∨ ∃ k ∈ d.signals, k ∈ openWrites since)

/-- The signal and its inputs have the values of before, as far as they are still there. -/
def SameValues (d : Derivation) (graph graph' : Graph) : Prop :=
  ∀ k, k = d.id ∨ k ∈ d.signals → ∀ node node', graph.node? k = some node →
    graph'.node? k = some node' → node'.value = node.value

theorem SameValues.refl (d : Derivation) (graph : Graph) : d.SameValues graph graph := by
  intro k _ node node' hnode hnode'
  obtain rfl := Option.some.inj (hnode.symm.trans hnode')
  rfl

/-- Storing a value elsewhere, or the value that is there, changes no value that matters. -/
theorem sameValues_of_settle {value : Value} (hstore : graph.settle id value = .ok graph')
    (hself : id ≠ d.id) (hinput : id ∈ d.signals → ∀ node, graph.node? id = some node →
      node.value = value) : d.SameValues graph graph' := by
  obtain ⟨-, rfl⟩ := Graph.settle_eq_ok.1 hstore
  intro k hk node node' hnode hnode'
  rw [Graph.node?_modify] at hnode'
  by_cases heq : k = id
  · subst heq
    rw [if_pos rfl, hnode] at hnode'
    obtain rfl := Option.some.inj hnode'
    exact (hinput (hk.resolve_left hself) node hnode).symm
  · rw [if_neg heq, hnode] at hnode'
    obtain rfl := Option.some.inj hnode'
    rfl

theorem Due.tail {k : SignalId} (h : d.Due graph (k :: todo)) : d.Due graph todo :=
  fun front other rest heq => h (k :: front) other rest (by rw [heq]; rfl)

theorem due_nil : d.Due graph [] := by
  intro front k rest heq
  simp at heq

end Derivation

namespace World

/-- In the slots of the signals there is nothing else, now and later. -/
structure Carries (D : Set Derivation) (w : World) : Prop where
  wellFormed : w.toScene.WellFormed
  wired : w.graph.Wired
  signal : ∀ d ∈ D, w.graph.OnlyEver (· = .derived d.operands d.compute) d.id

variable {D : Set Derivation} {d : Derivation} {earlier since : List Moment} {todo : List SignalId}
  {id : SignalId} {w w₀ w' : World}

namespace Carries

theorem steps (h : w.Carries D) (hsteps : Steps w w') : w'.Carries D where
  wellFormed := hsteps.scene_wellFormed h.wellFormed
  wired := hsteps.wired h.wired
  signal d hd := (h.signal d hd).follows hsteps.follows

theorem kind_eq (h : w.Carries D) (hd : d ∈ D) {node : Node} (hnode : w.graph.node? d.id = some node) :
    node.kind = .derived d.operands d.compute :=
  (h.signal d hd).2 node hnode

theorem inputs_eq (h : w.Carries D) (hd : d ∈ D) {node : Node}
    (hnode : w.graph.node? d.id = some node) : node.inputs = d.signals := by
  rw [h.wired hnode, h.kind_eq hd hnode]
  rfl

/-- If the signal exists, so do its inputs, and they are older. -/
theorem inputs_older (h : w.Carries D) (hd : d ∈ D) (hlive : w.graph.contains d.id) :
    ∀ k ∈ d.signals, w.graph.contains k ∧ k.index < d.id.index := by
  intro k hk
  obtain ⟨node, hnode⟩ := Graph.contains_iff.1 hlive
  rw [← h.inputs_eq hd hnode] at hk
  exact ⟨h.wellFormed.graph.inputs_live hnode k hk, h.wellFormed.graph.inputs_older hnode k hk⟩

/-- The signal is none of its inputs. -/
theorem not_mem_signals (h : w.Carries D) (hd : d ∈ D) (hlive : w.graph.contains d.id) :
    d.id ∉ d.signals :=
  fun hmem => lt_irrefl _ (h.inputs_older hd hlive _ hmem).2

theorem contains_before (h : w.Carries D) (hd : d ∈ D) (hsteps : Steps w w')
    (hlive : w'.graph.contains d.id) : w.graph.contains d.id :=
  (h.signal d hd).contains_before hsteps.follows hlive

/-- The operands can be resolved. -/
theorem exists_inputs (h : w.Carries D) (hd : d ∈ D) (hlive : w.graph.contains d.id) :
    ∃ inputs, d.operands.mapM w.graph.resolve = .ok inputs :=
  Graph.exists_mapM_resolve_eq_ok fun k hk => (h.inputs_older hd hlive k hk).1

/-- What the signal holds stays right if the values stay that matter. -/
theorem holds (h : w.Carries D) (hd : d ∈ D) (hsteps : Steps w w') (hlive : w'.graph.contains d.id)
    (hvalues : w.graph.contains d.id → d.SameValues w.graph w'.graph) (hholds : d.Holds w.graph) :
    d.Holds w'.graph := by
  have hold := h.contains_before hd hsteps hlive
  refine hholds.congr fun k hk => ?_
  obtain ⟨hbefore, hafter⟩ : w.graph.contains k ∧ w'.graph.contains k := by
    rcases hk with rfl | hk
    · exact ⟨hold, hlive⟩
    · exact ⟨(h.inputs_older hd hold k hk).1, ((h.steps hsteps).inputs_older hd hlive k hk).1⟩
  obtain ⟨node, hnode⟩ := Graph.contains_iff.1 hbefore
  obtain ⟨node', hnode'⟩ := Graph.contains_iff.1 hafter
  exact Graph.value_eq_of_node? hnode hnode' (hvalues hold k hk node node' hnode hnode')

/-- As long as no pass starts and the values stay that matter, nothing else need be attended to. -/
theorem attended (h : w.Carries D) (hd : d ∈ D) (hsteps : Steps w w')
    (hpasses : ∀ m ∈ since, ∀ roots, m.activity ≠ .propagating roots)
    (hvalues : w.graph.contains d.id → d.SameValues w.graph w'.graph) {past : List Moment}
    (hattended : d.IsAttended w.graph past todo) : d.IsAttended w'.graph (since ++ past) todo := by
  intro hlive
  obtain ⟨hdue, hcurrent⟩ := hattended (h.contains_before hd hsteps hlive)
  refine ⟨fun front k rest heq hk => ?_, ?_⟩
  · exact (hdue front k rest heq hk).imp_right fun hwatch => hwatch.follows hsteps.follows
  · refine hcurrent.imp_right (Or.imp (h.holds hd hsteps hlive hvalues) ?_)
    rintro ⟨k, hk, hopen⟩
    exact ⟨k, hk, mem_openWrites_of_unpassed (fun m hm roots hpass => absurd hpass (hpasses m hm roots))
      hopen⟩

/-- A write of a cell waits for its pass. -/
theorem attended_write (h : w.Carries D) (hd : d ∈ D) {cell : SignalId} {value : Value} {graph : Graph}
    (hcell : w.graph.IsCell cell) (hstore : w.graph.settle cell value = .ok graph)
    {past : List Moment} (hattended : d.IsAttended w.graph past todo) {scene : Ghost Scene} :
    d.IsAttended graph (⟨.wrote cell value, scene⟩ :: past) todo := by
  have hsteps : Steps w { w with graph } := .single (.store hstore)
  by_cases hmem : cell ∈ d.signals
  · intro hlive
    obtain ⟨hdue, -⟩ := hattended (h.contains_before hd hsteps hlive)
    refine ⟨fun front k rest heq hk => ?_, .inr (.inr ⟨cell, hmem, List.mem_cons_self⟩)⟩
    exact (hdue front k rest heq hk).imp_right fun hwatch => hwatch.follows hsteps.follows
  · have hself : cell ≠ d.id := by
      rintro rfl
      obtain ⟨node, hnode, hkind⟩ := hcell
      cases (h.kind_eq hd hnode).symm.trans hkind
    have hpasses : ∀ m ∈ [(⟨.wrote cell value, scene⟩ : Moment)],
        ∀ roots, m.activity ≠ .propagating roots := by
      intro m hm
      rw [List.mem_singleton.1 hm]
      exact nofun
    exact h.attended hd hsteps hpasses
      (fun _ => Derivation.sameValues_of_settle hstore hself fun hinput => absurd hinput hmem) hattended

/-- The acts of a script leave the values of older nodes alone. -/
theorem sameValues_of_act (h : w.Carries D) (h₀ : w₀.Carries D) (hd : d ∈ D)
    (hact : (Calls.all.scope w₀.graph.slots.size).Act w w') (hlive : w.graph.contains d.id) :
    d.SameValues w.graph w'.graph := by
  intro k hk node node' hnode hnode'
  have hold : k.index < w₀.graph.slots.size := by
    rcases hk with rfl | hk
    · exact (h₀.signal d hd).1
    · exact ((h.inputs_older hd hlive k hk).2).trans (h₀.signal d hd).1
  exact (hact.sameState hnode (fun hlater => absurd hold (not_lt.2 hlater)) hnode').value_eq

end Carries

/-! ## Within a batch -/

/-- While changes are being settled, all signals are attended to. -/
structure Attends (D : Set Derivation) (earlier : List Moment) (todo : List SignalId) (w : World) :
    Prop extends w.Carries D where
  idle : w.graph.WatchesIdle
  settling : w.settling = true
  current : ∃ since, w.past = since ++ earlier ∧ ∀ d ∈ D, d.IsAttended w.graph since todo

namespace Attends

/-- As long as no pass starts and the values stay that matter, nothing else need be attended to. -/
theorem lead (h : w.Attends D earlier todo) (hsteps : Steps w w') (hidle : w'.graph.WatchesIdle)
    (hsettling : w'.settling = true) (hpast : w'.past = since ++ w.past)
    (hpasses : ∀ m ∈ since, ∀ roots, m.activity ≠ .propagating roots)
    (hvalues : ∀ d ∈ D, w.graph.contains d.id → d.SameValues w.graph w'.graph) :
    w'.Attends D earlier todo := by
  obtain ⟨past, heq, hattended⟩ := h.current
  refine ⟨h.toCarries.steps hsteps, hidle, hsettling, since ++ past, ?_, fun d hd => ?_⟩
  · rw [hpast, heq, List.append_assoc]
  · exact h.toCarries.attended hd hsteps hpasses (hvalues d hd) (hattended d hd)

/-- Nothing happens to the graph. -/
theorem of_graph (h : w.Attends D earlier todo) (hsteps : Steps w w') (hsettling : w'.settling = true)
    (hpast : w'.past = since ++ w.past)
    (hpasses : ∀ m ∈ since, ∀ roots, m.activity ≠ .propagating roots) (hgraph : w'.graph = w.graph) :
    w'.Attends D earlier todo := by
  refine h.lead hsteps (hgraph ▸ h.idle) hsettling hpast hpasses fun d _ _ => ?_
  rw [hgraph]
  exact .refl d w.graph

/-- Nothing happens that is remembered. -/
theorem of_past (h : w.Attends D earlier todo) (hsteps : Steps w w')
    (hsettling : w'.settling = w.settling) (hpast : w'.past = w.past) (hgraph : w'.graph = w.graph) :
    w'.Attends D earlier todo := by
  have hnone : w'.past = [] ++ w.past := hpast
  exact h.of_graph hsteps (hsettling.trans h.settling) hnone
    (fun _ hm => absurd hm List.not_mem_nil) hgraph

theorem begin (h : w.Attends D earlier todo) {activity : Activity}
    (hpasses : ∀ roots, activity ≠ .propagating roots) : (w.begin activity).Attends D earlier todo := by
  have hpast : (w.begin activity).past = [⟨activity, .of w.toScene⟩] ++ w.past := rfl
  refine h.of_graph (steps_begin w activity) h.settling hpast (fun m hm => ?_) rfl
  rw [List.mem_singleton.1 hm]
  exact hpasses

/-- A script does something at once. -/
theorem act (h : w.Attends D earlier todo) (h₀ : w₀.Carries D)
    (hact : (Calls.all.scope w₀.graph.slots.size).Act w w') : w'.Attends D earlier todo := by
  obtain ⟨since, hpast, hevaluations⟩ := hact.any.moments
  refine h.lead hact.any.steps (hact.any.watchesIdle h.idle)
    (hact.any.queue_eq.1.trans h.settling) hpast (fun m hm roots hpass => ?_)
    fun d hd hlive => h.toCarries.sameValues_of_act h₀ hd hact hlive
  obtain ⟨id, inputs, heq⟩ := hevaluations m hm
  cases heq.symm.trans hpass

theorem write (h : w.Attends D earlier todo) {cell : SignalId} {value : Value} {graph : Graph}
    (hcell : w.graph.IsCell cell) (hstore : w.graph.settle cell value = .ok graph) :
    (World.begin { w with graph } (.wrote cell value)).Attends D earlier todo := by
  obtain ⟨since, hpast, hattended⟩ := h.current
  exact ⟨h.toCarries.steps (.head (.store hstore) (steps_begin _ _)), h.idle.write hcell hstore,
    h.settling, _ :: since, congrArg (_ :: ·) hpast, fun d hd =>
    h.toCarries.attended_write hd hcell hstore (hattended d hd)⟩

theorem enqueue (h : w.Attends D earlier todo) (change : Change) :
    (w.enqueue change).Attends D earlier todo := by
  have hpast : (w.enqueue change).past = [⟨.queued change, _⟩] ++ w.past := rfl
  refine h.of_graph (steps_enqueue w change) h.settling hpast (fun m hm => ?_) rfl
  rw [List.mem_singleton.1 hm]
  exact nofun

/-- The next node on the list need not be evaluated. -/
theorem skip (h : w.Attends D earlier (id :: todo))
    (hid : ∀ d ∈ D, w.graph.contains d.id → d.id ≠ id) : w.Attends D earlier todo := by
  obtain ⟨since, hpast, hattended⟩ := h.current
  refine ⟨h.toCarries, h.idle, h.settling, since, hpast, fun d hd hlive => ?_⟩
  obtain ⟨hdue, hcurrent⟩ := hattended d hd hlive
  exact ⟨hdue.tail, hcurrent.imp_left fun hmem => (List.mem_cons.1 hmem).resolve_left (hid d hd hlive)⟩

/-- The next node on the list has been evaluated, and its value is stored. -/
theorem store (h : w.Attends D earlier (id :: todo)) {value : Value} {graph : Graph}
    (hstore : w.graph.settle id value = .ok graph)
    (hunit : ∀ node, w.graph.node? id = some node → node.kind.isWatch → value = .unit)
    (hself : ∀ d ∈ D, d.id = id →
      ∃ inputs, d.operands.mapM w.graph.resolve = .ok inputs ∧ d.result inputs = .ok value) :
    World.Attends D earlier todo { w with graph } := by
  have hsteps : Steps w { w with graph } := .single (.store hstore)
  obtain ⟨since, hpast, hattended⟩ := h.current
  refine ⟨h.toCarries.steps hsteps, h.idle.settle hstore hunit, h.settling, since, hpast,
    fun d hd hlive => ?_⟩
  have hold := h.contains_before hd hsteps hlive
  obtain ⟨hdue, hcurrent⟩ := hattended d hd hold
  have hlater : d.Due graph todo := fun front k rest heq hk =>
    (hdue.tail front k rest heq hk).imp_right fun hwatch => hwatch.follows hsteps.follows
  refine ⟨hlater, ?_⟩
  by_cases hid : d.id = id
  · -- The value is what the computation makes of the inputs, none of which is the signal itself.
    obtain ⟨inputs, hinputs, hresult⟩ := hself d hd hid
    refine .inr (.inl ⟨inputs, value, ?_, hresult, hid ▸ Graph.value_of_settle hstore⟩)
    rw [← hinputs]
    obtain ⟨-, rfl⟩ := Graph.settle_eq_ok.1 hstore
    exact Graph.mapM_resolve_modify (hid ▸ h.not_mem_signals hd hold) _
  by_cases hinput : id ∈ d.signals ∧ ¬ w.graph.OnlyEver (fun kind => kind.isWatch) id
  · exact .inl ((hdue [] id todo rfl hinput.1).resolve_right hinput.2)
  · -- What is stored in a watch is the value that it has.
    have hvalues : d.SameValues w.graph graph := by
      refine Derivation.sameValues_of_settle hstore (Ne.symm hid) fun hmem node hnode => ?_
      have hwatch := (not_not.1 fun hother => hinput ⟨hmem, hother⟩).2 node hnode
      rw [h.idle id node hnode hwatch, hunit node hnode hwatch]
    refine hcurrent.imp (fun hmem => (List.mem_cons.1 hmem).resolve_left hid) (Or.imp_left ?_)
    exact h.toCarries.holds hd hsteps hlive fun _ => hvalues

end Attends

/-! ## Scripts -/

/-- One state leads to another in which what is still to be attended to is the same. -/
def LeadsAttended (D : Set Derivation) (w w' : World) : Prop :=
  Steps w w' ∧ ∀ earlier todo, w.Attends D earlier todo → w'.Attends D earlier todo

theorem admits_leadsAttended (D : Set Derivation) :
    Calls.all.Admits (LeadsAttended D) fun _ _ => True where
  refl _ := ⟨.refl, fun _ _ h => h⟩
  trans h h' := ⟨h.1.trans h'.1, fun earlier todo hw => h'.2 earlier todo (h.2 earlier todo hw)⟩
  cut _ := trivial
  trans_cut _ _ := trivial
  act h hact := ⟨h.1.trans hact.any.steps, fun earlier todo hw =>
    (h.2 earlier todo hw).act hw.toCarries hact⟩
  follows h := h.1.follows

end World

namespace Session

variable {session : Session} {hooks : Hooks} {D : Set Derivation} {d : Derivation}
  {earlier : List Moment} {todo : List SignalId} {id : SignalId} {level : Nat} {w w₁ w' : World}

/-- Whatever a script does within a batch, the signals are attended to. -/
theorem tracks_leadsAttended (session : Session) (D : Set Derivation) (level : Nat) :
    Calls.all.Tracks (session.hooksAt level) (LeadsAttended D) fun _ _ => True := by
  refine Session.tracks_hooksAt session (admits_leadsAttended D) session.makes_all ?_ ?_ level
  · intro level w cell value graph hcell hstore
    have hwritten : Steps w (World.begin { w with graph } (.wrote cell value)) :=
      .head (.store hstore) (steps_begin _ _)
    refine (Session.request_while_settling session hwritten rfl
      (P := fun w' => ∀ earlier todo, w.Attends D earlier todo → w'.Attends D earlier todo)
      (fun _ _ _ h => h.write hcell hstore) fun _ _ _ h => (h.write hcell hstore).enqueue _).mono ?_
    exact fun _ w' h => ⟨h.1, fun earlier todo hw => h.2 hw.settling earlier todo hw⟩
  · intro level w source payload found _
    refine (Session.request_while_settling session .refl rfl
      (P := fun w' => ∀ earlier todo, w.Attends D earlier todo → w'.Attends D earlier todo)
      (fun _ _ _ h => h) fun _ _ _ h => h.enqueue _).mono ?_
    exact fun _ w' h => ⟨h.1, fun earlier todo hw => h.2 hw.settling earlier todo hw⟩

/-! ## Passes -/

/-- A pass computes the signal after its inputs, but for watches. -/
theorem due_inputs (h : w.Carries D) (hd : d ∈ D) (hlive : w.graph.contains d.id)
    {roots : List SignalId} (hroots : ∀ root ∈ roots, w.graph.OnlyEver (· = .cell) root) :
    d.Due w.graph (passOrder w.graph roots) := by
  intro front k rest heq hk
  obtain ⟨node, hnode⟩ := Graph.contains_iff.1 hlive
  have hself : w.graph.node? d.id = some node := hnode
  have hgraph := h.wellFormed.graph
  have hinput : k ∈ node.inputs := by rwa [h.inputs_eq hd hself]
  have horder : (passOrder w.graph roots).Pairwise _ := pairwise_order hgraph roots
  rw [heq] at horder
  rcases mem_passOrder_around hgraph hroots hself hinput heq with hfront | hrest
  · -- An input that comes later is a watch.
    have hwatch := ((List.pairwise_append.1 horder).2.2 d.id hfront k List.mem_cons_self).2 node hself hinput
    obtain ⟨old, hold⟩ := Graph.contains_iff.1 (h.inputs_older hd hlive k hk).1
    refine .inr ⟨Graph.index_lt hold, fun node' hnode' => ?_⟩
    rwa [isWatch_of_node? hnode'] at hwatch
  · exact .inl hrest

section

variable (hreliable : ∀ d ∈ D, d.IsReliable session)
  (htracks : Calls.all.Tracks hooks (LeadsAttended D) fun _ _ => True)

include hreliable htracks

/-- Evaluating a node attends to it if it is one of the signals, and to the signals that it is an input
of. -/
theorem evaluate_attends (h : w.Attends D earlier (id :: todo)) :
    (evaluate session hooks id).Leaves (fun _ w' => w'.Attends D earlier todo) (fun _ => True) w := by
  refine leaves_bind.2 (leaves_get.2 ?_)
  split
  · rename_i failure hgone
    refine leaves_pure.2 (h.skip fun d _ hlive => ?_)
    rintro rfl
    rw [Graph.contains, (Graph.node_eq_error.1 hgone).1] at hlive
    cases hlive
  rename_i node hnode
  have hself := Graph.node_eq_ok.1 hnode
  split
  · rename_i hcell
    refine leaves_pure.2 (h.skip fun d hd _ => ?_)
    rintro rfl
    rw [h.kind_eq hd hself] at hcell
    cases hcell
  refine leaves_bind.2 (evaluateOn_cases (fun failure hfailed => ?_) fun inputs hinputs => ?_)
  · refine leaves_pure.2 (h.skip fun d hd hlive => ?_)
    rintro rfl
    obtain ⟨inputs, hinputs⟩ := h.exists_inputs hd hlive
    rw [h.kind_eq hd hself] at hfailed
    cases hfailed.symm.trans hinputs
  refine (Leaves.and (computation_tracked session htracks node.kind inputs _) (leaves_self _ _)).imp
    (fun result w₁ hran => ?_) fun _ _ => trivial
  obtain ⟨hled, heq⟩ := hran
  have hdone := hled.2 earlier (id :: todo) (h.begin fun _ heq => by cases heq)
  -- If it is one of the signals, it is given what its computation makes of the inputs.
  have hgiven : ∀ d ∈ D, d.id = id → ∃ value, result = .ok value ∧ d.result inputs = .ok value ∧
      d.operands.mapM w₁.graph.resolve = .ok inputs := by
    rintro d hd rfl
    rw [h.kind_eq hd hself] at heq hinputs
    exact (hreliable d hd).gives (w := w.begin _) hinputs heq
  cases result with
  | error interrupt =>
    refine leaves_pure.2 (hdone.skip fun d hd _ hid => ?_)
    obtain ⟨value, hok, -⟩ := hgiven d hd hid
    cases hok
  | ok value =>
    refine settleNode_leaves (fun graph hstore => hdone.store hstore (fun node' hnode' hwatch => ?_)
      fun d hd hid => ?_) fun failure hgone => hdone.skip fun d _ hlive => ?_
    · have hfollows : Follows w w₁ := (Steps.follows (steps_begin w _)).trans (Steps.follows hled.1)
      rw [(hfollows.sameNode hself hnode').kind_eq] at hwatch
      exact computation_givesUnit session hwatch inputs _ _ _ heq
    · obtain ⟨_, hok, hresult, hresolve⟩ := hgiven d hd hid
      obtain rfl := Except.ok.inj hok
      exact ⟨inputs, hresolve, hresult⟩
    · rintro rfl
      rw [Graph.contains, (Graph.node_eq_error.1 hgone).1] at hlive
      cases hlive

theorem evaluateAll_attends (ids : List SignalId) (h : w.Attends D earlier ids) :
    (evaluateAll session hooks ids).Leaves (fun _ w' => w'.Attends D earlier []) (fun _ => True) w := by
  refine evaluateAll_keeps session (I := fun todo w => w.Attends D earlier todo)
    (fun h _ => evaluate_attends hreliable htracks h)
    (fun event h => h.of_past (.single (step_report _ event)) rfl rfl rfl)
    (fun h hgone => h.skip fun d _ hlive => ?_) h
  rintro rfl
  exact hgone hlive

/-- A pass that starts from a signal that was written computes what depends on it. -/
theorem propagate_attends {roots : List SignalId}
    (hroots : ∀ root ∈ roots, w.graph.OnlyEver (· = .cell) root) (h : w.Attends D earlier []) :
    (propagate session hooks roots).Leaves (fun _ w' => w'.Attends D earlier []) (fun _ => True) w := by
  refine propagate_leaves (fun _ => h) fun _ => evaluateAll_attends hreliable htracks _ ?_
  have hsteps {event : Event} : Steps w ((w.report event).begin (.propagating roots)) :=
    .head (step_report w event) (steps_begin _ _)
  obtain ⟨since, hpast, hattended⟩ := h.current
  refine ⟨h.toCarries.steps hsteps, h.idle, h.settling, _ :: since, congrArg (_ :: ·) hpast,
    fun d hd hlive => ⟨due_inputs h.toCarries hd hlive hroots, ?_⟩⟩
  rcases (hattended d hd hlive).2 with htodo | hholds | hopen
  · exact absurd htodo List.not_mem_nil
  · exact .inr (.inl hholds)
  · obtain ⟨node, hnode⟩ := Graph.contains_iff.1 hlive
    have hself : w.graph.node? d.id = some node := hnode
    exact (evaluated_or_open h.wellFormed.graph hroots hself (h.inputs_eq hd hself) hopen).imp_right .inr

/-! ## Batches -/

/-- A batch attends to the signals, whatever fails. -/
theorem upholds_attends :
    session.Upholds hooks (fun _ => True) (fun _ => True) (World.Attends D earlier []) :=
  upholds_of_past htracks (fun h => h.wellFormed) (fun h => h.settling) (fun h => h.of_past)
    (fun _ h => h.begin fun _ heq => by cases heq) (fun hled h => hled.2 earlier [] h)
    (fun _ _ _ h => h.begin fun _ heq => by cases heq) (fun _ h => h.begin fun _ heq => by cases heq)
    (fun h hcell hstore => h.write hcell hstore)
    fun h hroots hran _ => (propagate_attends hreliable htracks hroots h).of_eq_some hran

end

end Session

/-! ## Between batches -/

namespace World

variable {D : Set Derivation} {w w₀ w₁ w' : World} {session : Session} {level : Nat}

/-- Between batches: every signal that exists holds what its computation makes of its inputs. -/
structure InStep (D : Set Derivation) (w : World) : Prop extends w.Carries D where
  idle : w.graph.WatchesIdle
  calm : w.Calm
  holds : ∀ d ∈ D, w.graph.contains d.id → d.Holds w.graph

namespace InStep

theorem act (h : w.InStep D) (h₀ : w₀.Carries D)
    (hact : (Calls.all.scope w₀.graph.slots.size).Act w w') : w'.InStep D where
  toCarries := h.toCarries.steps hact.any.steps
  idle := hact.any.watchesIdle h.idle
  calm := ⟨hact.any.queue_eq.1.trans h.calm.1, hact.any.queue_eq.2.trans h.calm.2⟩
  holds d hd hlive := by
    refine h.toCarries.holds hd hact.any.steps hlive (h.toCarries.sameValues_of_act h₀ hd hact) ?_
    exact h.holds d hd (h.contains_before hd hact.any.steps hlive)

/-- The settling of an accepted call starts with all signals attended to. -/
theorem attends (h : w.InStep D) {call : Call} (haccepted : call.accept w = .ok w₁) :
    Steps w w₁ ∧ w₁.queue = [] ∧ World.Attends D w.past [] { w₁ with settling := true } := by
  have hattended : ∀ d ∈ D, d.IsAttended w.graph [] [] := fun d hd hlive =>
    ⟨Derivation.due_nil, .inr (.inl (h.holds d hd hlive))⟩
  rcases Call.accept_eq_ok haccepted with ⟨k, value, graph, rfl, hstore, rfl⟩ |
    ⟨source, payload, found, rfl, -, rfl⟩
  · have hcell := Call.isCell_of_accept haccepted k (List.mem_singleton_self k)
    have hsteps : Steps w (World.begin { w with graph } (.wrote k value)) :=
      .head (.store hstore) (steps_begin _ _)
    exact ⟨hsteps, h.calm.2, h.toCarries.steps (hsteps.tail (.settling _ true)),
      h.idle.write hcell hstore, rfl, [_], rfl, fun d hd =>
      h.toCarries.attended_write hd hcell hstore (hattended d hd)⟩
  · exact ⟨.refl, h.calm.2, h.toCarries.steps (.single (.settling _ true)), h.idle, rfl, [], rfl,
      hattended⟩

/-- When an accepted call has been settled, the signals are in step again. -/
theorem settles {call : Call} {result : Except Failure Unit} (h : w.InStep D)
    (hreliable : ∀ d ∈ D, d.IsReliable session) (haccepted : call.accept w = .ok w₁)
    (hsettles : session.Settles (session.hooksAt level) { w with queue := [call.change] } call.change w₁
      result w') : w'.InStep D := by
  obtain ⟨hsteps, hqueue, hattends⟩ := h.attends haccepted
  have hcells : ∀ cell ∈ call.change.roots, w₁.graph.OnlyEver (· = .cell) cell := fun cell hcell =>
    (Call.isCell_of_accept haccepted cell hcell).onlyEver.follows hsteps.follows
  obtain ⟨last, taken, hlast, hempty, ⟨since, hspan⟩, hdone⟩ := hsettles.upheld
    (Session.upholds_attends hreliable (session.tracks_leadsAttended D _)) (session.tracks_worksOn _)
    (fun _ => trivial) hqueue hcells hattends fun _ _ => trivial
  obtain ⟨since', hpast, hattended⟩ := hdone.current
  obtain rfl : since = since' := List.append_cancel_right (hspan.past_eq.symm.trans hpast)
  rw [hlast]
  refine ⟨hdone.toCarries.steps (.head (.settling _ false) (.single (.host _ _ _))), hdone.idle,
    ⟨rfl, hempty⟩, fun d hd hlive => ?_⟩
  rcases (hattended d hd hlive).2 with htodo | hholds | ⟨k, -, hopen⟩
  · exact absurd htodo List.not_mem_nil
  · exact hholds
  · rw [hspan.openWrites_eq_nil hempty] at hopen
    exact absurd hopen List.not_mem_nil

end InStep

/-- One state leads to another, in which the signals are in step if they were. -/
def KeepsInStep (D : Set Derivation) (w w' : World) : Prop :=
  Steps w w' ∧ (w.InStep D → w'.InStep D)

theorem admits_keepsInStep (D : Set Derivation) :
    Calls.all.Admits (KeepsInStep D) fun _ _ => True where
  refl _ := ⟨.refl, fun h => h⟩
  trans h h' := ⟨h.1.trans h'.1, fun hw => h'.2 (h.2 hw)⟩
  cut _ := trivial
  trans_cut _ _ := trivial
  act h hact := ⟨h.1.trans hact.any.steps, fun hw => (h.2 hw).act hw.toCarries hact⟩
  follows h := h.1.follows

/-- Whatever a script does, the signals are in step when it has ended. -/
theorem tracks_keepsInStep (hreliable : ∀ d ∈ D, d.IsReliable session) (level : Nat) :
    Calls.all.Tracks (session.hooksAt level) (KeepsInStep D) fun _ _ => True := by
  -- Writing a cell and firing a source are both calls, so one argument serves them.
  have hrequest {level : Nat} (call : Call) {w w₁ : World} (hsteps : Steps w w₁)
      (haccepted : call.accept w = .ok w₁) : (request (session.hooksAt level) call.change).Leaves
        (fun _ w' => KeepsInStep D w w') (fun _ => True) w₁ := by
    have htaken := stepwise_request (session.hooksAt_stepwise level) call.change w₁
    refine leaves_of_eq (fun result w' heq => ⟨hsteps.trans (htaken.of_eq_some heq), fun hw => ?_⟩)
      fun _ _ => trivial
    exact hw.settles hreliable haccepted ((Session.request_settles hw.calm haccepted).of_eq_some heq)
  refine Session.tracks_hooksAt session (admits_keepsInStep D) session.makes_all ?_ ?_ level
  · intro level w cell value graph hcell hstore
    exact hrequest _ (.head (.store hstore) (steps_begin _ _)) (Call.accept_set hcell hstore)
  · intro level w source payload found hfound
    exact hrequest (.fire source payload) .refl (Call.accept_fire hfound)

/-- The signals are in step after every script. -/
theorem InStep.run (h : w.InStep D) (hreliable : ∀ d ∈ D, d.IsReliable session) {script : Script}
    {result : Except Interrupt Value} (hexec : session.execute level script w = some (result, w')) :
    w'.InStep D := by
  have hscript := script.makes_all.exec_tracked session (tracks_keepsInStep hreliable level)
  exact ((hscript _).of_eq_some (session.advance_eq_of_execute_eq hexec)).2 h

end World

namespace Session

variable {session : Session} {w w' : World}

/-- The host executes scripts to their ends, and takes notes in the journal in between. The instructions
of a program that it runs are such scripts. -/
def Proceeds (session : Session) : World → World → Prop :=
  Relation.ReflTransGen fun w w' =>
    (∃ level script result, session.execute level script w = some (result, w')) ∨
      ∃ journal, w' = { w with journal }

/-- The host runs programs as scripts. -/
theorem proceeds_runProgram {level : Nat} {program : Program} {result : Except Failure Value}
    (hran : runProgram session.settings (dispatch session (session.hooksAt level)) program w =
      (some result, w')) : session.Proceeds w w' := by
  have hadvance : session.advance (level + 1) (.run program fun _ => .done (.ok .unit)) w =
      (some (.ok .unit), w') := bind_eq_of_eq_some hran
  exact .single (.inl ⟨level + 1, _, .ok .unit, by rw [execute, hadvance]⟩)

/-- Every instruction of a run that is answered is a script of its own. -/
theorem proceeds_of_runsTo {level : Nat} {program : Program} {calls : List Instruction}
    {answer : Except Interrupt Value}
    (h : program.RunsTo (dispatch session (session.hooksAt level)) w calls (some answer) w') :
    session.Proceeds w w' := by
  refine h.keeps (fun i v reply v' hv hcall => hv.tail (.inl ?_)) .refl
  have hadvance : session.advance (level + 1) (.dispatch i .done) v = (some reply, v') :=
    bind_eq_of_eq_some hcall
  exact ⟨level + 1, .dispatch i .done, reply, by rw [execute, hadvance]⟩

end Session

namespace World

variable {D : Set Derivation} {w w' : World} {session : Session}

/-- Whatever the host does later, the signals stay in step. -/
theorem InStep.proceeds (h : w.InStep D) (hreliable : ∀ d ∈ D, d.IsReliable session)
    (hproceeds : session.Proceeds w w') : w'.InStep D := by
  induction hproceeds with
  | refl => exact h
  | tail _ hstep ih =>
    rcases hstep with ⟨level, script, result, hexec⟩ | ⟨journal, rfl⟩
    · exact ih.run hreliable hexec
    · exact ⟨ih.toCarries.steps (.single (.host _ _ journal)), ih.idle, ih.calm, ih.holds⟩

/-- The session is between batches: nothing is being settled, and all watches hold unit. -/
def Rests (w : World) : Prop := w.InStep ∅

theorem Rests.proceeds (h : w.Rests) (hproceeds : session.Proceeds w w') : w'.Rests :=
  InStep.proceeds h (fun _ hd => absurd hd id) hproceeds

/-- **Signals follow their inputs.** Between batches let there be a signal that was derived with a
reliable computation and holds what that makes of its inputs. Then it does so after all that the host
does later, as long as it exists. -/
theorem Rests.follows (h : w.Rests) {d : Derivation} (hreliable : d.IsReliable session)
    (hsignal : w.graph.OnlyEver (· = .derived d.operands d.compute) d.id) (hholds : d.Holds w.graph)
    (hproceeds : session.Proceeds w w') (hlive : w'.graph.contains d.id) : d.Holds w'.graph := by
  have hall : ∀ d' ∈ ({d} : Set Derivation), d'.IsReliable session := fun _ hd => hd ▸ hreliable
  have hstep : w.InStep {d} :=
    ⟨⟨h.wellFormed, h.wired, fun _ hd => hd ▸ hsignal⟩, h.idle, h.calm, fun _ hd _ => hd ▸ hholds⟩
  exact (hstep.proceeds hall hproceeds).holds d rfl hlive

end World

/-- Between scripts the session rests. -/
theorem Session.Reachable.rests {session : Session} {w : World} (h : session.Reachable w) : w.Rests := by
  induction h with
  | start document journal =>
    refine ⟨⟨(World.wellFormed_start document journal).now, Graph.Wired.empty,
      fun d hd => absurd hd id⟩, fun id node hnode => ?_, ⟨rfl, rfl⟩, fun d hd => absurd hd id⟩
    simp at hnode
  | run _ hrun ih => exact ih.run (fun _ hd => absurd hd id) hrun

end EffectGraph
