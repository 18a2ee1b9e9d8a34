import Mathlib
import EffectGraph.Proofs.Session.Reachable

/-!
# Tearing down signals

Removing a signal at the request of the host takes away the signal and whatever depends on it, and
the reducers that write what is taken away. `World.Without` says what is left, field by field. A
removed signal stays unknown for good, because the slots of nodes are never used again: what is
created later has a handle larger than that of anything that existed before.
-/

namespace EffectGraph

/-- The subscriber is a fold, effectful or not, into the cell. -/
def Subscriber.foldsInto (cell : SignalId) : Subscriber → Bool
  | .fold target _ => target = cell
  | .foldProgram target _ => target = cell
  | .listener _ => false
  | .forward _ => false

/-- The source without the folds into some cells. -/
def Source.dropFolds (removed : List SignalId) (source : Source) : Source :=
  { source with
    subscribers := source.subscribers.filter fun s => removed.all fun cell => !s.foldsInto cell }

namespace Hub

theorem all_target?_eq (subscriber : Subscriber) (removed : List SignalId) :
    subscriber.target?.all (· ∉ removed) = removed.all fun cell => !subscriber.foldsInto cell := by
  rw [Bool.eq_iff_iff, List.all_eq_true]
  cases subscriber with
  | fold target reducer =>
    simp only [Subscriber.target?, Subscriber.foldsInto, Option.all_some, decide_eq_true_eq,
      Bool.not_eq_true', decide_eq_false_iff_not]
    exact ⟨fun htarget cell hcell heq => htarget (heq ▸ hcell), fun hall hmem => hall target hmem rfl⟩
  | foldProgram target reducer =>
    simp only [Subscriber.target?, Subscriber.foldsInto, Option.all_some, decide_eq_true_eq,
      Bool.not_eq_true', decide_eq_false_iff_not]
    exact ⟨fun htarget cell hcell heq => htarget (heq ▸ hcell), fun hall hmem => hall target hmem rfl⟩
  | listener react => simp [Subscriber.target?, Subscriber.foldsInto]
  | forward source => simp [Subscriber.target?, Subscriber.foldsInto]

/-- Detaching removed cells takes the folds into them from every source, and nothing else. -/
theorem get_detach (hub : Hub) (removed : List SignalId) (id : SourceId) :
    (hub.detach removed).get id = (hub.get id).map (Source.dropFolds removed) := by
  simp only [get, detach, Array.getElem?_map, all_target?_eq]
  cases hub.sources[id.index]? with
  | none => rfl
  | some source => rfl

end Hub

namespace World

/-- The second state is the first one without some nodes. -/
structure Without (removed : List SignalId) (w w' : World) : Prop where
  /-- The removed nodes, and only they, are gone. -/
  contains_iff : ∀ k, w'.graph.contains k ↔ w.graph.contains k ∧ k ∉ removed
  /-- The others stay as they are, but for the outputs that are gone. -/
  node? : ∀ k node, k ∉ removed → w.graph.node? k = some node →
    w'.graph.node? k = some { node with outputs := node.outputs.filter (· ∉ removed) }
  /-- The count of the nodes is right. -/
  live : w'.graph.live + removed.length = w.graph.live
  /-- Every source has lost the folds into removed cells, and keeps the others in their order. -/
  source : ∀ id, w'.hub.get id = (w.hub.get id).map (Source.dropFolds removed)
  bindings_eq : w'.hub.bindings = w.hub.bindings
  queue_eq : w'.queue = w.queue
  settling_eq : w'.settling = w.settling
  document_eq : w'.document = w.document

/-- A signal that exists can be torn down in a well-formed state, and then all that depends on it is
gone. -/
theorem tearDown_eq_of_contains {w : World} (hgraph : w.graph.WellFormed) {id : SignalId}
    (hid : w.graph.contains id) :
    ∃ w', w.tearDown id = (.ok (w.graph.subtree id).length, w') ∧ Steps w w' ∧
      w.Without (w.graph.subtree id) w' := by
  have hremovable := Graph.removable_subtree hgraph hid
  have hremove : w.graph.remove id = .ok (w.graph.subtree id, w.graph.erase (w.graph.subtree id)) :=
    Graph.remove_eq_ok.2 ⟨Graph.contains_iff.1 hid, rfl, rfl⟩
  have hsignal := removeSignal_eq_ok.2 ⟨_, hremove, rfl⟩
  have htear : w.tearDown id = (.ok (w.graph.subtree id).length, World.report
      { w with graph := w.graph.erase (w.graph.subtree id), hub := w.hub.detach (w.graph.subtree id) }
      (.signalTornDown id (w.graph.subtree id).length)) := by
    rw [tearDown, hsignal]
  refine ⟨_, htear, .tail (.single (.remove hsignal)) (.host _ _ _), ?_⟩
  constructor
  case contains_iff => exact fun k => Graph.contains_erase
  case node? =>
    intro k node hk hnode
    change (w.graph.erase (w.graph.subtree id)).node? k = _
    rw [hgraph.node?_erase_eq, if_neg hk, hnode]
    rfl
  case live => exact Nat.sub_add_cancel (hremovable.length_le_live hgraph)
  case source => exact fun source => w.hub.get_detach _ source
  all_goals rfl

/-! ## Handles are never used again -/

/-- What does not exist, though its slot has been taken, never exists again. -/
theorem Steps.not_contains {w w' : World} (h : Steps w w') {k : SignalId}
    (hindex : k.index < w.graph.slots.size) (hgone : ¬ w.graph.contains k) :
    ¬ w'.graph.contains k := by
  intro hcontains
  obtain ⟨node', hnode'⟩ := Graph.contains_iff.1 hcontains
  obtain ⟨node, hnode, -⟩ := h.follows.node_of_old hindex hnode'
  exact hgone (Graph.contains_iff.2 ⟨node, hnode⟩)

/-- The slot of whatever has existed has been taken. -/
theorem Steps.index_lt_of_contains {w w' : World} (h : Steps w w') {k : SignalId}
    (hcontains : w.graph.contains k) : k.index < w'.graph.slots.size := by
  obtain ⟨node, hnode⟩ := Graph.contains_iff.1 hcontains
  exact (Graph.index_lt hnode).trans_le h.follows.size_le

/-- What is created later has a larger handle than whatever has existed before. -/
theorem Steps.index_lt_of_created {u w w' : World} (hbefore : Steps u w) (hafter : Steps w w')
    {j k : SignalId} (hj : u.graph.contains j) (hk : w'.graph.contains k)
    (hnew : ¬ w.graph.contains k) : j.index < k.index := by
  have hjsize := hbefore.index_lt_of_contains hj
  by_contra hle
  have hksize : k.index < w.graph.slots.size := by omega
  exact hafter.not_contains hksize hnew hk

end World

namespace Session

open World

variable {session : Session}

/-- **Tearing down removes a signal with all that depends on it, for good.** Wherever a session gets
to, be it in the middle of a script: tearing down a signal that exists removes exactly the signal and
the nodes that depend on it, directly or not, and returns how many these are. Every other node keeps
all but the removed outputs; every source loses exactly the folds into removed cells, and keeps the
other subscribers in their order. Whatever happens later, the removed signals are unknown; and what
is created later has a larger handle than whatever existed at any time before. -/
theorem Reachable.tearDown_removes_dependents {w₀ w : World} (hreach : session.Reachable w₀)
    (hsteps : w₀.Steps w) {id : SignalId} (hid : w.graph.contains id) :
    ∃ removed w', w.tearDown id = (.ok removed.length, w') ∧
      removed.Nodup ∧ (∀ k, k ∈ removed ↔ k = id ∨ w.graph.Below [id] k) ∧
      (∀ k ∈ removed, w.graph.contains k) ∧ w.Without removed w' ∧
      (∀ v, w'.Steps v → ∀ k ∈ removed, v.graph.node k = .error (.unknownSignal k)) ∧
      ∀ (u v v' : World) (j k : SignalId), u.Steps v → v.Steps v' → u.graph.contains j →
        v'.graph.contains k → ¬ v.graph.contains k → j.index < k.index := by
  have hgraph : w.graph.WellFormed := (hsteps.wellFormed hreach.wellFormed).now.graph
  have hremovable := Graph.removable_subtree hgraph hid
  obtain ⟨w', htear, hremoval, hwithout⟩ := tearDown_eq_of_contains hgraph hid
  refine ⟨w.graph.subtree id, w', htear, hremovable.nodup, fun k => Graph.mem_subtree hgraph,
    hremovable.live, hwithout, ?_, ?_⟩
  · -- The slots of the removed nodes stay taken, and they are empty from now on.
    intro v hlater k hk
    have hslot := hremoval.index_lt_of_contains (hremovable.live k hk)
    have hgone : ¬ w'.graph.contains k := fun hcontains =>
      ((hwithout.contains_iff k).1 hcontains).2 hk
    have hunknown := hlater.not_contains hslot hgone
    exact Graph.node_eq_error.2 ⟨by simpa [Graph.contains] using hunknown, rfl⟩
  · intro u v v' j k hbefore hafter hj hk hnew
    exact hbefore.index_lt_of_created hafter hj hk hnew

/-- Two folds of the same occurrences, a signal that lists the first cell, and a listener. -/
private def foldingTwice : Script :=
  .ask (.source "clicks") fun (clicks : SourceId) =>
  .fold clicks (.bool false) (fun _ payload => .done (.ok payload)) fun _ =>
  .foldProgram clicks (.bool false) (fun _ payload => .pure payload) fun _ =>
  .derive [.signal ⟨0⟩] (fun inputs => .done (.ok (.list inputs))) fun _ =>
  .listen clicks (fun _ => .done (.ok .unit)) fun _ => .done (.ok .unit)

/-- Tearing down the first fold takes the list with it; the second fold and the listener stay. The
handle of the fold stays unknown when a cell is added. -/
theorem Reachable.tearDown_removes_dependents_folding :
    ∃ w removed w', Reachable {} w ∧ w.graph.contains ⟨0⟩ ∧
      w.tearDown ⟨0⟩ = (.ok 2, w') ∧ w.Without removed w' ∧ ⟨2⟩ ∈ removed ∧ ⟨1⟩ ∉ removed ∧
        (w.hub.get ⟨0⟩).map (·.subscribers.length) = .ok 3 ∧
        (w'.hub.get ⟨0⟩).map (·.subscribers.length) = .ok 2 ∧
          (w'.createCell .unit).2.graph.node ⟨0⟩ = .error (.unknownSignal ⟨0⟩) := by
  cases hrun : execute {} 0 foldingTwice {} with
  | none =>
    cbv at hrun
    contradiction
  | some ended =>
    obtain ⟨result, w⟩ := ended
    have hreach : Reachable {} w := .run (.start .empty #[]) hrun
    cbv at hrun
    obtain ⟨-, hw⟩ := Prod.mk.inj (Option.some.inj hrun)
    have hlive : w.graph.contains ⟨0⟩ = true := by
      rw [← hw]
      rfl
    have hsubscribers : (w.hub.get ⟨0⟩).map (·.subscribers.length) = .ok 3 := by
      rw [← hw]
      rfl
    obtain ⟨removed, w', htear, -, hmem, -, hwithout, hunknown, -⟩ :=
      hreach.tearDown_removes_dependents .refl hlive
    have hgone := hunknown _ (.single (.cell w' .unit)) ⟨0⟩ ((hmem ⟨0⟩).2 (.inl rfl))
    have hended := htear
    obtain ⟨n, hn⟩ : ∃ n, removed.length = n := ⟨_, rfl⟩
    rw [← hw, hn] at hended
    cbv at hended
    obtain ⟨hcount, hw'⟩ := Prod.mk.inj hended
    obtain rfl := Except.ok.inj hcount
    have hlisted : w.graph.contains ⟨2⟩ = true ∧ w'.graph.contains ⟨2⟩ = false := by
      rw [← hw, ← hw']
      exact ⟨rfl, rfl⟩
    have hkept : w'.graph.contains ⟨1⟩ = true := by
      rw [← hw']
      rfl
    refine ⟨w, removed, w', hreach, hlive, hn ▸ htear, hwithout, ?_,
      ((hwithout.contains_iff ⟨1⟩).1 hkept).2, hsubscribers, ?_, hgone⟩
    · by_contra hstays
      have hcontains := (hwithout.contains_iff ⟨2⟩).2 ⟨hlisted.1, hstays⟩
      rw [hlisted.2] at hcontains
      cases hcontains
    · rw [← hw']
      rfl

end Session

end EffectGraph
