import EffectGraph.Proofs.Session.Fresh
import EffectGraph.Proofs.Session.Stepping

/-!
# The invariant of settling

`Session.Sound` holds of the state of a session all the time: also within a batch, when some cells
have been written and what depends on them is not recomputed yet. It says which cells these are,
the roots of passes still to come and the cells whose write waits in the queue, and that everything
else is current. The lemmas say how each step of a session changes what is known.
-/

namespace EffectGraph

namespace Session

variable (session : Session)

/-- What holds of the state of a session while passes are still to start from some roots, and some
nodes are still to be computed. -/
structure Sound (roots todo : List SignalId) (w : World) : Prop where
  wellFormed : w.WellFormed
  regular : session.IsRegular w.graph
  /-- Nodes that have read the writes of their inputs are current. -/
  fresh : session.IsFresh w.graph w.past todo
  /-- For every open write, a pass is still to start or waits in the queue. -/
  pending : ∀ cell ∈ openWrites w.past, cell ∈ roots ∨ .written cell ∈ w.queue
  /-- Passes start from cells. -/
  roots_cells : ∀ cell, cell ∈ roots ∨ .written cell ∈ w.queue ∨ cell ∈ openWrites w.past →
    w.graph.OnlyEver (· = .cell) cell
  /-- Nothing waits while nothing is being settled. -/
  calm : w.settling = false → w.queue = []
  allGood : session.AllGood w.past

variable {session}

/-! ## Steps -/

namespace Sound

variable {roots todo : List SignalId} {id : SignalId} {w w' : World}

/-- With no roots left and nothing in the queue everything is current. -/
theorem current (h : session.Sound [] [] w) (hqueue : w.queue = []) {id : SignalId} {node : Node}
    (hnode : w.graph.node? id = some node) : session.IsCurrent w.graph node := by
  refine h.fresh id node hnode List.not_mem_nil fun cell _ hunread => ?_
  rcases h.pending cell (unread_subset_openWrites id w.past hunread) with hroot | hwaits
  · exact absurd hroot List.not_mem_nil
  · rw [hqueue] at hwaits
    exact absurd hwaits List.not_mem_nil

/-- More roots do no harm if they are cells. -/
theorem mono {roots' : List SignalId} (h : session.Sound roots todo w)
    (hsub : ∀ cell ∈ roots, cell ∈ roots')
    (hcells : ∀ cell ∈ roots', w.graph.OnlyEver (· = .cell) cell) :
    session.Sound roots' todo w where
  wellFormed := h.wellFormed
  regular := h.regular
  fresh := h.fresh
  pending cell hcell := (h.pending cell hcell).imp_left (hsub cell)
  roots_cells cell hcell := by
    rcases hcell with hroot | hrest
    · exact hcells cell hroot
    · exact h.roots_cells cell (.inr hrest)
  calm := h.calm
  allGood := h.allGood

/-- Steps that remember nothing and leave the queue alone have to be looked at for what they do to
the graph only. -/
theorem advance {todo' : List SignalId} (h : session.Sound roots todo w) (hsteps : w.Steps w')
    (hqueue : w'.queue = w.queue) (hsettling : w'.settling = w.settling)
    (hpast : w'.past = w.past) (hregular : session.IsRegular w'.graph)
    (hfresh : session.IsFresh w'.graph w.past todo') :
    session.Sound roots todo' w' where
  wellFormed := hsteps.wellFormed h.wellFormed
  regular := hregular
  fresh := by rw [hpast]; exact hfresh
  pending := by rw [hpast, hqueue]; exact h.pending
  roots_cells cell hcell := by
    rw [hqueue, hpast] at hcell
    exact (h.roots_cells cell hcell).follows hsteps.follows
  calm := by rw [hsettling, hqueue]; exact h.calm
  allGood := by rw [hpast]; exact h.allGood

/-- Steps that leave the graph alone as well change nothing. -/
theorem of_same (h : session.Sound roots todo w) (hsteps : w.Steps w')
    (hqueue : w'.queue = w.queue) (hsettling : w'.settling = w.settling)
    (hpast : w'.past = w.past) (hgraph : w'.graph = w.graph) : session.Sound roots todo w' :=
  h.advance hsteps hqueue hsettling hpast (hgraph ▸ h.regular) (hgraph ▸ h.fresh)

/-! ### Moments -/

/-- A moment that opens and closes no writes is noted. -/
theorem moment (h : session.Sound roots todo w) {activity : Activity}
    (hopen : openWrites (⟨activity, .of w.toScene⟩ :: w.past) = openWrites w.past)
    (hfresh : session.IsFresh w.graph (⟨activity, .of w.toScene⟩ :: w.past) todo)
    (hgood : session.IsGood ⟨activity, .of w.toScene⟩ w.past) :
    session.Sound roots todo (w.begin activity) where
  wellFormed := (World.steps_begin w activity).wellFormed h.wellFormed
  regular := h.regular
  fresh := hfresh
  pending := by
    change ∀ cell ∈ openWrites (⟨activity, .of w.toScene⟩ :: w.past), _
    rw [hopen]
    exact h.pending
  roots_cells := by
    change ∀ cell, cell ∈ roots ∨ .written cell ∈ w.queue ∨
      cell ∈ openWrites (⟨activity, .of w.toScene⟩ :: w.past) → _
    rw [hopen]
    exact h.roots_cells
  calm := h.calm
  allGood := ⟨hgood, h.allGood⟩

/-- A moment that is no write, no pass and no evaluation is noted. -/
theorem begin (h : session.Sound roots todo w) {activity : Activity}
    (hopen : openWrites (⟨activity, .of w.toScene⟩ :: w.past) = openWrites w.past)
    (hunread : ∀ id, unread id (⟨activity, .of w.toScene⟩ :: w.past) = unread id w.past)
    (hgood : session.IsGood ⟨activity, .of w.toScene⟩ w.past) :
    session.Sound roots todo (w.begin activity) := by
  refine h.moment hopen (fun id node hnode hid hread => h.fresh id node hnode hid ?_) hgood
  unfold HasRead at hread
  rwa [hunread] at hread

/-- When the evaluation of a node begins, its inputs are current if they have read the writes of
theirs. It counts as having read its own from now on, so it must be one that is to be computed. -/
theorem begin_evaluating (h : session.Sound roots todo w) {id : SignalId} {node : Node}
    {inputs : List Value} (hnode : w.graph.node? id = some node)
    (hinputs : w.graph.inputsOf node.kind = .ok inputs) (htodo : ∀ p ∈ node.inputs, p ∉ todo)
    (hself : id ∈ todo ∨ node.kind.isWatch) :
    session.Sound roots todo (w.begin (.evaluating id inputs)) := by
  refine h.moment rfl (fun k node' hnode' hk hread operands compute hkind => ?_) ?_
  · have hne : k ≠ id := by
      rintro rfl
      obtain rfl := Option.some.inj (hnode.symm.trans hnode')
      rw [hkind] at hself
      rcases hself with hmem | hwatch
      · exact hk hmem
      · cases hwatch
    refine h.fresh k node' hnode' hk (fun cell hcell hunread => hread cell hcell ?_) operands
      compute hkind
    rw [unread, if_neg hne]
    exact hunread
  · simp only [IsGood, Ghost.value_of]
    exact ⟨node, hnode, hinputs, fun p hp input hinput hread =>
      h.fresh p input hinput (htodo p hp) hread⟩

/-- When a reducer or a listener begins, all is current that has read the writes of its inputs. -/
theorem begin_reducing (h : session.Sound roots [] w) (target : SignalId)
    (current payload : Value) :
    session.Sound roots [] (w.begin (.reducing target current payload)) := by
  refine h.begin rfl (fun _ => rfl) ?_
  simp only [IsGood, Ghost.value_of]
  exact h.fresh

theorem begin_listening (h : session.Sound roots [] w) (payload : Value) :
    session.Sound roots [] (w.begin (.listening payload)) := by
  refine h.begin rfl (fun _ => rfl) ?_
  simp only [IsGood, Ghost.value_of]
  exact h.fresh

/-- A pass closes the writes of its roots. What is derived from these is to be computed now. -/
theorem begin_propagating {roots' : List SignalId} (h : session.Sound (roots ++ roots') [] w)
    (htodo : ∀ id node operands compute, w.graph.node? id = some node →
      node.kind = .derived operands compute → w.graph.Below roots id → id ∈ todo) :
    session.Sound roots' todo (w.begin (.propagating roots)) where
  wellFormed := (World.steps_begin w _).wellFormed h.wellFormed
  regular := h.regular
  fresh id node hnode hid hread operands compute hkind := by
    refine h.fresh id node hnode List.not_mem_nil (fun cell hcell hunread => ?_) operands compute
      hkind
    -- What reads a root is to be computed now; other cells stay unread.
    by_cases hroot : cell ∈ roots
    · have hfeeds := h.wellFormed.now.graph.feeds_of_mem_inputs hnode hcell
      exact hid (htodo id node operands compute hnode hkind ⟨cell, hroot, .single hfeeds⟩)
    · exact hread cell hcell (List.mem_filter.2 ⟨hunread, by simpa using hroot⟩)
  pending cell hcell := by
    obtain ⟨hopen, hnot⟩ := List.mem_filter.1 hcell
    refine (h.pending cell hopen).imp_left fun hmem => ?_
    exact (List.mem_append.1 hmem).resolve_left (by simpa using hnot)
  roots_cells cell hcell := by
    refine h.roots_cells cell ?_
    rcases hcell with hroot | hwaits | hopen
    · exact .inl (List.mem_append_right _ hroot)
    · exact .inr (.inl hwaits)
    · exact .inr (.inr (List.mem_filter.1 hopen).1)
  calm := h.calm
  allGood := ⟨trivial, h.allGood⟩

/-! ### Writing values -/

/-- A write of a cell opens. The nodes that read the cell are stale from now on. -/
theorem write (h : session.Sound roots [] w) {cell : SignalId} {value : Value} {graph : Graph}
    (hcell : w.graph.OnlyEver (· = .cell) cell) (hstore : w.graph.settle cell value = .ok graph) :
    session.Sound (cell :: roots) []
      (World.begin { w with graph } (.wrote cell value)) := by
  have hsteps : w.Steps (World.begin { w with graph } (.wrote cell value)) :=
    .head (.store hstore) (World.steps_begin _ _)
  have hcell' := hcell.follows hsteps.follows
  have hopens : openWrites (World.begin { w with graph } (.wrote cell value)).past =
      cell :: openWrites w.past := rfl
  refine ⟨hsteps.wellFormed h.wellFormed, ?_, ?_, ?_, ?_, h.calm, ⟨trivial, h.allGood⟩⟩
  · obtain ⟨-, rfl⟩ := Graph.settle_eq_ok.1 hstore
    refine h.regular.store fun node hnode hiswatch => ?_
    rw [hcell.2 node hnode] at hiswatch
    cases hiswatch
  · obtain ⟨-, rfl⟩ := Graph.settle_eq_ok.1 hstore
    refine h.fresh.store h.wellFormed.now.graph h.regular (fun k node _ _ _ _ _ hread _ => ?_)
      fun node hnode operands compute hkind => ?_
    · exact ⟨fun hinput => hread cell hinput List.mem_cons_self, List.not_mem_nil,
        fun c hc hunread => hread c hc (List.mem_cons_of_mem _ hunread)⟩
    · change node.kind = _ at hkind
      rw [hcell.2 node hnode] at hkind
      cases hkind
  · rw [hopens]
    intro k hk
    rcases List.mem_cons.1 hk with rfl | hk
    · exact .inl List.mem_cons_self
    · exact (h.pending k hk).imp_left (List.mem_cons_of_mem _)
  · rw [hopens]
    intro k hk
    have hold : k = cell ∨ (k ∈ roots ∨ .written k ∈ w.queue ∨ k ∈ openWrites w.past) := by
      simp only [List.mem_cons] at hk
      tauto
    rcases hold with rfl | hold
    · exact hcell'
    · exact (h.roots_cells k hold).follows hsteps.follows

/-- Storing unit in a watch changes nothing. -/
theorem store_unit (h : session.Sound roots todo w) {id : SignalId} {graph : Graph}
    (hwatch : w.graph.OnlyEver (fun kind => kind.isWatch) id)
    (hstore : w.graph.settle id .unit = .ok graph) :
    session.Sound roots todo { w with graph } := by
  have hsteps : w.Steps { w with graph } := .single (.store hstore)
  obtain ⟨⟨node, hnode⟩, rfl⟩ := Graph.settle_eq_ok.1 hstore
  have hunit : node.value = .unit := h.regular.watch_unit hnode (hwatch.2 node hnode)
  refine h.advance hsteps rfl rfl rfl (h.regular.store fun _ _ _ => rfl) ?_
  refine h.fresh.of_values (Graph.sameWiring_modify w.graph id .unit) fun k => ?_
  simp only [Graph.value, Graph.node, Graph.node?_modify]
  by_cases hk : k = id
  · subst hk
    simp [hnode, hunit, Except.map, Graph.settledNode]
  · simp [hk]

/-- Storing what a computation gives makes the node current, if all that is derived from it is still
to be computed. -/
theorem store_derived (h : session.Sound roots (id :: todo) w) {node : Node}
    {operands : List Value} {compute : List Value → Script} {inputs : List Value} {value : Value}
    {graph : Graph} (hnode : w.graph.node? id = some node)
    (hkind : node.kind = .derived operands compute)
    (hinputs : operands.mapM w.graph.resolve = .ok inputs)
    (hyields : session.Yields (compute inputs) (.ok value))
    (hclosed : ∀ k child operands compute, w.graph.node? k = some child →
      child.kind = .derived operands compute → id ∈ child.inputs → k ∈ todo)
    (hstore : w.graph.settle id value = .ok graph) :
    session.Sound roots todo { w with graph } := by
  have hsteps : w.Steps { w with graph } := .single (.store hstore)
  obtain ⟨-, rfl⟩ := Graph.settle_eq_ok.1 hstore
  refine h.advance hsteps rfl rfl rfl (h.regular.store fun node' hnode' hiswatch => ?_) ?_
  · obtain rfl := Option.some.inj (hnode.symm.trans hnode')
    rw [hkind] at hiswatch
    cases hiswatch
  · refine h.fresh.store h.wellFormed.now.graph h.regular
      (fun k child operands' compute' hchild hderived hk hread hne => ?_)
      fun node' hnode' operands' compute' hkind' => ?_
    · refine ⟨fun hinput => hk (hclosed k child operands' compute' hchild hderived hinput), ?_,
        hread⟩
      rw [List.mem_cons, not_or]
      exact ⟨hne, hk⟩
    · obtain rfl := Option.some.inj (hnode.symm.trans hnode')
      change node.kind = _ at hkind'
      obtain ⟨rfl, rfl⟩ := NodeKind.derived.inj (hkind.symm.trans hkind')
      exact ⟨inputs, hinputs, .inl hyields⟩

/-- A node whose computation fails counts as current. -/
theorem keep_failed (h : session.Sound roots (id :: todo) w) {node : Node}
    {operands : List Value} {compute : List Value → Script} {inputs : List Value}
    {interrupt : Interrupt} (hnode : w.graph.node? id = some node)
    (hkind : node.kind = .derived operands compute)
    (hinputs : operands.mapM w.graph.resolve = .ok inputs)
    (hyields : session.Yields (compute inputs) (.error interrupt)) :
    session.Sound roots todo w := by
  refine h.advance .refl rfl rfl rfl h.regular fun k node' hnode' hk hread => ?_
  by_cases heq : k = id
  · subst heq
    obtain rfl := Option.some.inj (hnode.symm.trans hnode')
    intro operands' compute' hkind'
    obtain ⟨rfl, rfl⟩ := NodeKind.derived.inj (hkind.symm.trans hkind')
    exact ⟨inputs, hinputs, .inr ⟨interrupt, hyields⟩⟩
  · refine h.fresh k node' hnode' ?_ hread
    rw [List.mem_cons, not_or]
    exact ⟨heq, hk⟩

/-! ### Adding and removing nodes -/

/-- A new node is as good as the old ones, or is still to be computed. -/
theorem grow (h : session.Sound roots todo w) {id : SignalId} {node : Node} {graph : Graph}
    {todo' : List SignalId} (hg : Graph.Grows w.graph graph id node)
    (hsteps : w.Steps { w with graph }) (hinputs : node.inputs = node.kind.dependencies)
    (hwatch : node.kind.isWatch → node.value = .unit)
    (hpure : ∀ operands compute, node.kind = .derived operands compute → session.IsPure compute)
    (htodo : ∀ k ∈ todo, k ∈ todo') (hnew : id ∈ todo' ∨ session.IsCurrent graph node) :
    session.Sound roots todo' { w with graph } :=
  h.advance hsteps rfl rfl rfl (h.regular.grow hg hinputs hwatch hpure)
    (h.fresh.grow h.wellFormed.now.graph h.regular hg htodo hnew)

/-- Removing nodes that can be removed together leaves the others as they are. -/
theorem erase (h : session.Sound roots todo w) {removed todo' : List SignalId} {hub : Hub}
    (hremoved : w.graph.Removable removed)
    (hsteps : w.Steps { w with graph := w.graph.erase removed, hub })
    (htodo : ∀ k ∈ todo, k ∈ todo' ∨ k ∈ removed) :
    session.Sound roots todo' { w with graph := w.graph.erase removed, hub } :=
  h.advance hsteps rfl rfl rfl (h.regular.erase removed)
    (h.fresh.erase h.wellFormed.now.graph h.regular hremoved htodo)

/-! ### The queue -/

/-- A change that joins the queue need not be settled by anyone else. -/
theorem enqueue {change : Change} (h : session.Sound (change.roots ++ roots) [] w)
    (hsettling : w.settling = true) :
    session.Sound roots [] { w with queue := w.queue ++ [change] } where
  wellFormed := (World.Step.enqueue w _).wellFormed h.wellFormed
  regular := h.regular
  fresh := h.fresh
  pending cell hcell := by
    rcases h.pending cell hcell with hroot | hwaits
    · rcases List.mem_append.1 hroot with hroot | hroot
      · refine .inr (List.mem_append_right _ ?_)
        cases change with
        | written id => simpa [Change.roots] using hroot
        | fired source payload => exact absurd hroot List.not_mem_nil
      · exact .inl hroot
    · exact .inr (List.mem_append_left _ hwaits)
  roots_cells cell hcell := by
    refine h.roots_cells cell ?_
    rcases hcell with hroot | hwaits | hopen
    · exact .inl (List.mem_append_right _ hroot)
    · rcases List.mem_append.1 hwaits with hwaits | hnew
      · exact .inr (.inl hwaits)
      · rw [← List.mem_singleton.1 hnew]
        exact .inl (List.mem_append_left _ List.mem_cons_self)
    · exact .inr (.inr hopen)
  calm hcalm := by rw [hsettling] at hcalm; cases hcalm
  allGood := h.allGood

/-- A write that waits already need not be settled by anyone else either. -/
theorem of_waits {change : Change} (h : session.Sound (change.roots ++ roots) [] w)
    (hwaits : change.waitsIn w.queue = true) : session.Sound roots [] w := by
  refine ⟨h.wellFormed, h.regular, h.fresh, fun cell hcell => ?_, fun cell hcell => ?_, h.calm,
    h.allGood⟩
  · rcases h.pending cell hcell with hroot | hqueued
    · rcases List.mem_append.1 hroot with hroot | hroot
      · exact .inr (Change.written_mem_of_waitsIn hwaits hroot)
      · exact .inl hroot
    · exact .inr hqueued
  · refine h.roots_cells cell (hcell.imp_left (List.mem_append_right _))

/-- A change that leaves the queue is to be settled now. -/
theorem dequeue {next : Change} {queue : List Change} (h : session.Sound roots [] w)
    (hqueue : w.queue = next :: queue) (hsettling : w.settling = true) :
    session.Sound (next.roots ++ roots) [] { w with queue } where
  wellFormed := (World.Step.enqueue w _).wellFormed h.wellFormed
  regular := h.regular
  fresh := h.fresh
  pending cell hcell := by
    rcases h.pending cell hcell with hroot | hwaits
    · exact .inl (List.mem_append_right _ hroot)
    · rw [hqueue] at hwaits
      rcases List.mem_cons.1 hwaits with rfl | hwaits
      · exact .inl (List.mem_append_left _ List.mem_cons_self)
      · exact .inr hwaits
  roots_cells cell hcell := by
    refine h.roots_cells cell ?_
    rw [hqueue]
    rcases hcell with hroot | hwaits | hopen
    · rcases List.mem_append.1 hroot with hroot | hroot
      · refine .inr (.inl ?_)
        cases next with
        | written id =>
          obtain rfl := List.mem_singleton.1 hroot
          exact List.mem_cons_self
        | fired source payload => exact absurd hroot List.not_mem_nil
      · exact .inl hroot
    · exact .inr (.inl (List.mem_cons_of_mem _ hwaits))
    · exact .inr (.inr hopen)
  calm hcalm := by rw [hsettling] at hcalm; cases hcalm
  allGood := h.allGood

/-- The settling of a change can begin at any time, and end when nothing waits. -/
theorem set_settling (h : session.Sound roots [] w) {settling : Bool}
    (hqueue : settling = false → w.queue = []) : session.Sound roots [] { w with settling } where
  wellFormed := (World.Step.settling w _).wellFormed h.wellFormed
  regular := h.regular
  fresh := h.fresh
  pending := h.pending
  roots_cells := h.roots_cells
  calm := hqueue
  allGood := h.allGood

end Sound

end Session

end EffectGraph
