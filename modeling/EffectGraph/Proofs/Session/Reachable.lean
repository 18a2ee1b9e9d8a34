import EffectGraph.Proofs.Session.Levels

/-!
# The states a session can be in

A session starts without signals and sources, and gets from state to state by executing scripts. A
script may do anything and may fail; the instructions that it hands on may be handled by any
handlers. A script that comes to no end leaves no state behind, but it does visit states.
`Visits.wellFormed_at_all_times` says what always holds nevertheless.
-/

namespace EffectGraph

namespace Session

/-- A state that a session can be in between two scripts of the host. -/
inductive Reachable (session : Session) : World → Prop where
  /-- The state of a new session. -/
  | start (document : Document) (journal : Array Entry) : Reachable session { document, journal }
  /-- The state after a script was executed. -/
  | run {w w' : World} {level : Nat} {script : Script} {result : Except Interrupt Value}
    (h : Reachable session w) (hrun : session.execute level script w = some (result, w')) :
    Reachable session w'

/-- The session gets to the state: a script ends there, or is cut off there at some level. -/
def Visits (session : Session) (w : World) : Prop :=
  ∃ w₀ level script, session.Reachable w₀ ∧ w = (session.advance level script w₀).2

variable {session : Session} {w : World}

theorem Reachable.wellFormed (h : session.Reachable w) : w.WellFormed := by
  induction h with
  | start document journal => exact World.wellFormed_start document journal
  | run _ hrun ih => exact (session.execute_steps hrun).wellFormed ih

/-- What is so at the start and is kept by every step is so at all times. -/
theorem Reachable.throughout {P : Scene → Prop}
    (hstart : ∀ document journal, P { document, journal })
    (hkeep : ∀ {w w' : World}, w.Step w' → P w.toScene → P w'.toScene) (h : session.Reachable w) :
    P w.toScene ∧ ∀ m ∈ w.past, P m.scene.value := by
  induction h with
  | start document journal => exact ⟨hstart document journal, fun m hm => absurd hm List.not_mem_nil⟩
  | run _ hrun ih => exact (session.execute_steps hrun).throughout hkeep ih.1 ih.2

/-- Nothing need be done to get to a reachable state. -/
theorem Reachable.visits (h : session.Reachable w) : session.Visits w :=
  ⟨w, 0, .done (.ok .unit), h, rfl⟩

namespace Visits

theorem wellFormed (h : session.Visits w) : w.WellFormed := by
  obtain ⟨w₀, level, script, hreach, rfl⟩ := h
  exact (session.advance_steps level script w₀).wellFormed hreach.wellFormed

theorem wellFormed_scene (h : session.Visits w) {scene : Scene}
    (hscene : scene = w.toScene ∨ ∃ m ∈ w.past, scene = m.scene.value) : scene.WellFormed := by
  rcases hscene with rfl | ⟨m, hm, rfl⟩
  · exact h.wellFormed.now
  · exact h.wellFormed.past m hm

/-- What is so at the start and is kept by every step is so wherever a session gets to, and was so at
every moment of its past. -/
theorem throughout {P : Scene → Prop} (hstart : ∀ document journal, P { document, journal })
    (hkeep : ∀ {w w' : World}, w.Step w' → P w.toScene → P w'.toScene) (h : session.Visits w)
    {scene : Scene} (hscene : scene = w.toScene ∨ ∃ m ∈ w.past, scene = m.scene.value) :
    P scene := by
  obtain ⟨w₀, level, script, hreach, rfl⟩ := h
  obtain ⟨hnow, hpast⟩ := hreach.throughout hstart hkeep
  obtain ⟨hnow', hpast'⟩ := (session.advance_steps level script w₀).throughout hkeep hnow hpast
  rcases hscene with rfl | ⟨m, hm, rfl⟩
  · exact hnow'
  · exact hpast' m hm

/-- At all times the inputs of a node are the signals that its operands depend on. -/
theorem wired (h : session.Visits w) {scene : Scene}
    (hscene : scene = w.toScene ∨ ∃ m ∈ w.past, scene = m.scene.value) : scene.graph.Wired :=
  h.throughout (P := fun scene => scene.graph.Wired) (fun _ _ => Graph.Wired.empty)
    (fun hstep hwired => hstep.wired hwired) hscene

/-- **Sessions are well-formed at all times.** Wherever a session gets to, and at every moment of its
past, edges are kept at both ends and lead from older to younger nodes that exist, ranks and the
number of nodes are right, cells have no inputs, and whoever writes a cell writes one that exists.
Removing a node never takes away more nodes than there are. -/
theorem wellFormed_at_all_times (h : session.Visits w) {scene : Scene}
    (hscene : scene = w.toScene ∨ ∃ m ∈ w.past, scene = m.scene.value) :
    scene.graph.WellFormed ∧
      (∀ subscriber target, scene.hub.Subscribed subscriber →
        subscriber.target? = some target → scene.graph.IsCell target) ∧
      ∀ id removed graph, scene.graph.remove id = .ok (removed, graph) →
        removed.length ≤ scene.graph.live := by
  have hwell : scene.WellFormed := by
    rcases hscene with rfl | ⟨m, hm, rfl⟩
    · exact h.wellFormed.now
    · exact h.wellFormed.past m hm
  refine ⟨hwell.graph, fun _ _ => hwell.targets, fun id removed graph hremove => ?_⟩
  obtain ⟨hid, rfl, -⟩ := Graph.remove_eq_ok.1 hremove
  exact (Graph.removable_subtree hwell.graph (Graph.contains_iff.2 hid)).length_le_live hwell.graph

/-- A cell that counts occurrences, and what is derived from it. -/
private def counting : Script :=
  .ask (.source "clicks") fun (clicks : SourceId) =>
  .fold clicks (.bool false) (fun _ payload => .done (.ok payload)) fun cell =>
  match cell with
  | .error failure => .done (.error (.ofFailure failure))
  | .ok cell => .derive [.signal cell] (fun inputs => .done (.ok (.list inputs))) fun result =>
    .done result

theorem wellFormed_at_all_times_counting :
    ∃ w, Reachable {} w ∧ w.graph.live = 2 ∧ w.hub.sources.size = 1 ∧ w.graph.WellFormed := by
  obtain ⟨w, result, hrun, hlive, hsources⟩ : ∃ w result,
      execute {} 0 counting {} = some (result, w) ∧ w.graph.live = 2 ∧ w.hub.sources.size = 1 :=
    ⟨_, _, rfl, rfl, rfl⟩
  have hreach : Reachable {} w := .run (.start .empty #[]) hrun
  exact ⟨w, hreach, hlive, hsources, (wellFormed_at_all_times hreach.visits (.inl rfl)).1⟩

end Visits

end Session

end EffectGraph
