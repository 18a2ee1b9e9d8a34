import EffectGraph.Proofs.Session.Spans

/-!
# What scripts do to cells while a change is being settled

While a change is being settled, a script starts no reducer, no pass and no listener: these are the
stages of an occurrence, and they are left to the change that is being settled. It changes a cell only
by writing it, and puts only writes of cells into the queue. `Works` says so of the moments that lie
between two states.
-/

namespace EffectGraph

open Exec World

/-! ## Moments -/

/-- A reducer, a pass over the graph or a listener starts. -/
def Activity.isStage : Activity → Bool
  | .reducing .. | .propagating _ | .listening _ => true
  | .queued _ | .applied _ | .wrote .. | .evaluating .. => false

/-- The reducers, passes and listeners that started, in order. The moments come latest first. -/
def stagesIn (since : List Moment) : List Activity :=
  ((since.map (·.activity)).filter (·.isStage)).reverse

theorem stagesIn_append (later earlier : List Moment) :
    stagesIn (later ++ earlier) = stagesIn earlier ++ stagesIn later := by
  simp [stagesIn]

/-- The cell is written at one of the moments. -/
def WrittenIn (since : List Moment) (cell : SignalId) : Prop :=
  ∃ m ∈ since, ∃ value, m.activity = .wrote cell value

theorem not_writtenIn_append {later earlier : List Moment} {cell : SignalId}
    (h : ¬ WrittenIn (later ++ earlier) cell) :
    ¬ WrittenIn later cell ∧ ¬ WrittenIn earlier cell := by
  refine ⟨?_, ?_⟩
  · rintro ⟨m, hm, hwrote⟩
    exact h ⟨m, List.mem_append_left _ hm, hwrote⟩
  · rintro ⟨m, hm, hwrote⟩
    exact h ⟨m, List.mem_append_right _ hm, hwrote⟩

/-! ## Cells that nobody writes -/

/-- The value of a node is the same, and it was stored as often. -/
structure Node.SameState (node node' : Node) : Prop where
  value_eq : node'.value = node.value
  settled_eq : node'.settled = node.settled
  evaluations_eq : node'.evaluations = node.evaluations

theorem Node.SameState.refl (node : Node) : node.SameState node := ⟨rfl, rfl, rfl⟩

theorem Node.SameState.trans {node node₁ node' : Node} (h : node.SameState node₁)
    (h' : node₁.SameState node') : node.SameState node' :=
  ⟨h'.value_eq.trans h.value_eq, h'.settled_eq.trans h.settled_eq,
    h'.evaluations_eq.trans h.evaluations_eq⟩

theorem Graph.sameState_joined (inputs : List SignalId) (id k : SignalId) (old : Node) :
    old.SameState (joined inputs id k old) := by
  unfold joined
  split
  · exact ⟨rfl, rfl, rfl⟩
  · exact .refl old

/-- An act leaves a node as it is, as long as the node exists, if it is a cell or not to be evaluated.
-/
theorem Scope.Act.sameState {scope : Scope} {w w' : World} (h : scope.Act w w') {id : SignalId}
    {node node' : Node} (hnode : w.graph.node? id = some node)
    (hspared : scope.evaluates id → node.kind = .cell) (hnode' : w'.graph.node? id = some node') :
    node.SameState node' := by
  have hsame {node' : Node} (hold : w.graph.node? id = some node') : node.SameState node' := by
    obtain rfl := Option.some.inj (hnode.symm.trans hold)
    exact .refl node
  have hgrown {graph : Graph} {k : SignalId} {new : Node}
      (hg : Graph.Grows w.graph graph k new) (hnode' : graph.node? id = some node') :
      node.SameState node' := by
    obtain rfl := Option.some.inj ((hg.node?_old hnode).symm.trans hnode')
    exact Graph.sameState_joined _ _ _ _
  have herased {removed : List SignalId} (hnode' : (w.graph.erase removed).node? id = some node') :
      node.SameState node' := by
    obtain ⟨-, old, hold, rfl⟩ := Graph.node?_of_erase hnode'
    exact (hsame hold).trans ⟨rfl, rfl, rfl⟩
  cases h with
  | host | evaluating | source | bind | merge | listen => exact hsame hnode'
  | @store k value graph hother hstore hevaluates =>
    obtain ⟨-, rfl⟩ := Graph.settle_eq_ok.1 hstore
    have hne : id ≠ k := by
      rintro rfl
      exact hother ⟨node, hnode, hspared hevaluates⟩
    rw [Graph.node?_modify, if_neg hne] at hnode'
    exact hsame hnode'
  | cell value => exact hgrown (Graph.grows_insertCell w.graph value) hnode'
  | @insert kind k graph _ hinsert =>
    obtain ⟨rank, -, hg⟩ := Graph.grows_insert kind.nodup_dependencies hinsert
    exact hgrown hg hnode'
  | remove hremove =>
    obtain ⟨graph, hgraph, rfl⟩ := removeSignal_eq_ok.1 hremove
    obtain ⟨-, -, rfl⟩ := Graph.remove_eq_ok.1 hgraph
    exact herased hnode'
  | drop _ hremove =>
    obtain ⟨-, -, rfl⟩ := Graph.remove_eq_ok.1 hremove
    exact herased hnode'
  | attach => exact hgrown (Graph.grows_insertCell w.graph _) hnode'

namespace World

variable {w w' : World}

/-- An act starts nothing but evaluations. -/
theorem Act.moments (h : Act w w') : ∃ since, w'.past = since ++ w.past ∧
    ∀ m ∈ since, ∃ id inputs, m.activity = .evaluating id inputs := by
  cases h with
  | host | store | cell | insert | drop | source | bind | merge | listen | attach =>
    exact ⟨[], rfl, fun m hm => absurd hm List.not_mem_nil⟩
  | evaluating id inputs =>
    refine ⟨[⟨.evaluating id inputs, .of w.toScene⟩], rfl, fun m hm => ⟨id, inputs, ?_⟩⟩
    rw [List.mem_singleton.1 hm]
  | remove hremove =>
    obtain ⟨graph, -, rfl⟩ := removeSignal_eq_ok.1 hremove
    exact ⟨[], rfl, fun m hm => absurd hm List.not_mem_nil⟩

end World

/-! ## Work -/

/-- Every write that waits is one of a cell. -/
def World.QueuesCells (w : World) : Prop :=
  ∀ cell, .written cell ∈ w.queue → w.graph.OnlyEver (· = .cell) cell

theorem World.QueuesCells.follows {w w' : World} (h : w.QueuesCells) (hfollows : Follows w w')
    (hqueue : w'.queue = w.queue) : w'.QueuesCells := by
  intro cell hcell
  rw [hqueue] at hcell
  exact (h cell hcell).follows hfollows

/-- What lies between two states while changes are being settled: these stages start, cells that
still exist have changed only if they were written, and only writes of cells join the queue. -/
structure Works (stages : List Activity) (since : List Moment) (w w' : World) : Prop where
  past_eq : w'.past = since ++ w.past
  settling_eq : w'.settling = true
  stages_eq : stagesIn since = stages
  follows : Follows w w'
  kept : ∀ {cell node node'}, w.graph.node? cell = some node → node.kind = .cell →
    ¬ WrittenIn since cell → w'.graph.node? cell = some node' → node.SameState node'
  cells : w.QueuesCells → w'.QueuesCells

namespace Works

variable {stages stages' : List Activity} {since later : List Moment} {w w₁ w' : World}

/-- Nothing happens to the graph. -/
theorem of_graph (hpast : w'.past = since ++ w.past) (hsettling : w'.settling = true)
    (hstages : stagesIn since = stages) (hgraph : w'.graph = w.graph)
    (hcells : w.QueuesCells → w'.QueuesCells) : Works stages since w w' where
  past_eq := hpast
  settling_eq := hsettling
  stages_eq := hstages
  follows := ⟨hpast ▸ List.suffix_append _ _, by rw [hgraph], fun _ hnode =>
    ⟨_, hgraph ▸ hnode, rfl, rfl, rfl⟩⟩
  kept hnode _ _ hnode' := by
    rw [hgraph, hnode] at hnode'
    obtain rfl := Option.some.inj hnode'
    exact .refl _
  cells := hcells

theorem refl (hsettling : w.settling = true) : Works [] [] w w :=
  of_graph rfl hsettling rfl rfl id

theorem start (hsettling : w.settling = true) (activity : Activity)
    (hstage : activity.isStage = true) :
    Works [activity] [⟨activity, .of w.toScene⟩] w (w.begin activity) :=
  of_graph rfl hsettling (by simp [stagesIn, hstage]) rfl id

theorem trans (h : Works stages since w w₁) (h' : Works stages' later w₁ w') :
    Works (stages ++ stages') (later ++ since) w w' where
  past_eq := by rw [h'.past_eq, h.past_eq, List.append_assoc]
  settling_eq := h'.settling_eq
  stages_eq := by rw [stagesIn_append, h.stages_eq, h'.stages_eq]
  follows := h.follows.trans h'.follows
  kept {cell node node'} hnode hkind hunwritten hnode' := by
    obtain ⟨hlater, hsince⟩ := not_writtenIn_append hunwritten
    have hslot := Graph.index_lt hnode
    obtain ⟨node₁, hnode₁, -⟩ := h'.follows.node_of_old (hslot.trans_le h.follows.size_le) hnode'
    have hsame := h.follows.sameNode hnode hnode₁
    have hfirst := h.kept hnode hkind hsince hnode₁
    exact hfirst.trans (h'.kept hnode₁ (hsame.kind_eq.trans hkind) hlater hnode')
  cells hqueued := h'.cells (h.cells hqueued)

/-- A write starts no stage. -/
theorem write {cell : SignalId} {value : Value} {graph : Graph} (hsettling : w.settling = true)
    (hstore : w.graph.settle cell value = .ok graph) :
    Works [] [⟨.wrote cell value, .of { w with graph }.toScene⟩] w
      (World.begin { w with graph } (.wrote cell value)) := by
  have hfollows : Follows w (World.begin { w with graph } (.wrote cell value)) :=
    Steps.follows (.head (.store hstore) (steps_begin _ _))
  refine ⟨rfl, hsettling, rfl, hfollows, fun {k node node'} hnode _ hunwritten hnode' => ?_,
    fun hqueued => hqueued.follows hfollows rfl⟩
  obtain ⟨-, rfl⟩ := Graph.settle_eq_ok.1 hstore
  have hne : k ≠ cell := by
    rintro rfl
    exact hunwritten ⟨_, List.mem_cons_self, value, rfl⟩
  have hstays : (w.graph.modify cell (Graph.settledNode value)).node? k = some node' := hnode'
  rw [Graph.node?_modify, if_neg hne, hnode] at hstays
  obtain rfl := Option.some.inj hstays
  exact .refl node

theorem enqueue (h : Works stages since w w₁) {change : Change}
    (hcells : ∀ cell ∈ change.roots, w₁.graph.OnlyEver (· = .cell) cell) :
    ∃ since', Works stages since' w (w₁.enqueue change) := by
  have hqueued : Works [] [⟨.queued change, .of (w₁.report .changeQueued).toScene⟩] w₁
      (w₁.enqueue change) := by
    refine of_graph rfl h.settling_eq rfl rfl fun hqueued cell hcell => ?_
    rcases List.mem_append.1 hcell with hcell | hcell
    · exact hqueued cell hcell
    · obtain rfl := List.mem_singleton.1 hcell
      exact hcells cell List.mem_cons_self
  have hboth := h.trans hqueued
  rw [List.append_nil] at hboth
  exact ⟨_, hboth⟩

theorem of_act (h : Act w w') (hsettling : w.settling = true) : ∃ since, Works [] since w w' := by
  obtain ⟨since, hpast, hevaluations⟩ := h.moments
  have hstages : stagesIn since = [] := by
    refine List.reverse_eq_nil_iff.2 (List.filter_eq_nil_iff.2 fun activity hactivity => ?_)
    obtain ⟨m, hm, rfl⟩ := List.mem_map.1 hactivity
    obtain ⟨id, inputs, heq⟩ := hevaluations m hm
    simp [heq, Activity.isStage]
  have hfollows := Steps.follows h.steps
  exact ⟨since, hpast, h.queue_eq.1.trans hsettling, hstages, hfollows,
    fun hnode hkind _ => h.sameState hnode fun _ => hkind,
    fun hqueued => hqueued.follows hfollows h.queue_eq.2⟩

end Works

/-! ## Scripts -/

/-- One state leads to another, and if changes are being settled then without starting a stage. -/
def World.WorksOn (w w' : World) : Prop :=
  Follows w w' ∧ (w.settling = true → ∃ since, Works [] since w w')

theorem composes_worksOn : Composes WorksOn fun _ _ => True where
  refl w := ⟨.refl w, fun hsettling => ⟨[], .refl hsettling⟩⟩
  trans := by
    rintro w w₁ w' ⟨hfollows, hworks⟩ ⟨hfollows', hworks'⟩
    refine ⟨hfollows.trans hfollows', fun hsettling => ?_⟩
    obtain ⟨since, hfirst⟩ := hworks hsettling
    obtain ⟨later, hsecond⟩ := hworks' hfirst.settling_eq
    exact ⟨later ++ since, hfirst.trans hsecond⟩
  cut _ := trivial
  trans_cut _ _ := trivial

theorem admits_worksOn : Admits WorksOn fun _ _ => True :=
  composes_worksOn.admits (fun hact => ⟨Steps.follows hact.steps, Works.of_act hact⟩) fun h => h.1

namespace Session

variable (session : Session)

/-- At any level a script starts no stage while changes are being settled. -/
theorem tracks_worksOn (level : Nat) :
    Tracks (session.hooksAt level) WorksOn fun _ _ => True := by
  refine ⟨tracks_hooksAt session admits_worksOn.toCalls session.makes_all ?_ ?_ level,
    admits_worksOn.every⟩
  · intro level w cell value graph hcell hstore
    have hwritten : Steps w (World.begin { w with graph } (.wrote cell value)) :=
      .head (.store hstore) (steps_begin _ _)
    refine (request_while_settling session hwritten rfl (fun hsettling => ?_)
      fun hsettling => ?_).mono fun _ w' h => ⟨Steps.follows h.1, h.2⟩
    · exact ⟨_, .write hsettling hstore⟩
    · refine (Works.write hsettling hstore).enqueue fun k hk => ?_
      rw [List.mem_singleton.1 hk]
      exact hcell.onlyEver.follows (Steps.follows hwritten)
  · intro level w source payload found _
    refine (request_while_settling session (.refl (a := w)) rfl (fun hsettling => ?_)
      fun hsettling => ?_).mono fun _ w' h => ⟨Steps.follows h.1, h.2⟩
    · exact ⟨_, .refl hsettling⟩
    · exact (Works.refl hsettling).enqueue fun k hk => absurd hk List.not_mem_nil

end Session

end EffectGraph
