import EffectGraph.Proofs.Graph.Operands
import EffectGraph.Proofs.Event.Subscriptions
import EffectGraph.Session.World

/-!
# What can happen to a session

`World.Step` lists all that a session can do to its state at once: what any script does at any level
is a sequence of such steps (see `Script.exec_stepwise`). So it is enough to look at single steps to
see what every run keeps. Here this is done for two things: a session never takes a slot or a moment
back (`World.Follows`), and it stays well-formed (`World.WellFormed`).
-/

namespace EffectGraph

namespace Graph

variable {graph graph' : Graph} {id : SignalId}

/-- The handle is that of a cell. -/
def IsCell (graph : Graph) (id : SignalId) : Prop :=
  ∃ node, graph.node? id = some node ∧ node.kind = .cell

theorem IsCell.of_wiring (h : graph.IsCell id) (hsame : SameWiring graph graph') :
    graph'.IsCell id := by
  obtain ⟨node, hnode, hkind⟩ := h
  obtain ⟨node', hnode', hkind', -⟩ := hsame.symm.node? hnode
  exact ⟨node', hnode', hkind'.symm.trans hkind⟩

theorem IsCell.grow {new : SignalId} {node : Node} (h : graph.IsCell id)
    (hg : Grows graph graph' new node) : graph'.IsCell id := by
  obtain ⟨old, hold, hkind⟩ := h
  exact ⟨_, hg.node?_old hold, by rw [joined_kind, hkind]⟩

theorem IsCell.erase {removed : List SignalId} (h : graph.IsCell id) (hid : id ∉ removed) :
    (graph.erase removed).IsCell id := by
  obtain ⟨node, hnode, hkind⟩ := h
  exact ⟨_, node?_erase_of_not_mem hid hnode, hkind⟩

/-- Below a node that is no cell there is no cell either. -/
theorem IsCell.not_mem_subtree (hgraph : graph.WellFormed) (h : graph.IsCell id) {root : SignalId}
    (hroot : ¬ graph.IsCell root) : id ∉ graph.subtree root := by
  intro hmem
  rcases (mem_subtree hgraph).1 hmem with rfl | hbelow
  · exact hroot h
  · obtain ⟨node, hnode, hkind⟩ := h
    obtain ⟨node', hnode', hkind'⟩ := hgraph.node?_of_below hbelow
    obtain rfl := Option.some.inj (hnode.symm.trans hnode')
    exact hkind' hkind

end Graph

namespace World

/-- What a session can do to its state at once. -/
inductive Step : World → World → Prop where
  /-- The host's document and the journal change. -/
  | host (w : World) (document : Document) (journal : Array Entry) :
    Step w { w with document, journal }
  /-- A moment is remembered. -/
  | remember (w : World) (activity : Activity) :
    Step w { w with past := ⟨activity, .of w.toScene⟩ :: w.past }
  /-- Changes join the queue or leave it. -/
  | enqueue (w : World) (queue : List Change) : Step w { w with queue }
  /-- The settling of a change begins or ends. -/
  | settling (w : World) (settling : Bool) : Step w { w with settling }
  /-- A value is stored in a node. -/
  | store {w : World} {id : SignalId} {value : Value} {graph : Graph}
    (h : w.graph.settle id value = .ok graph) : Step w { w with graph }
  /-- A cell is added. -/
  | cell (w : World) (value : Value) : Step w (w.createCell value).2
  /-- Another node is added below the signals that its operands depend on. -/
  | insert {w : World} {kind : NodeKind} {id : SignalId} {graph : Graph} (hkind : kind ≠ .cell)
    (h : w.graph.insert kind kind.dependencies = .ok (id, graph)) : Step w { w with graph }
  /-- A node and all below it are removed, and so are the subscribers that write them. -/
  | remove {w w' : World} {id : SignalId} {removed : List SignalId}
    (h : w.removeSignal id = .ok (removed, w')) : Step w w'
  /-- A node that is no cell and all below it are removed. -/
  | drop {w : World} {id : SignalId} {removed : List SignalId} {graph : Graph}
    (hcell : ¬ w.graph.IsCell id) (h : w.graph.remove id = .ok (removed, graph)) :
    Step w { w with graph }
  /-- A source is added. -/
  | source (w : World) (name : String) : Step w { w with hub := (w.hub.create name).2 }
  /-- An event of an element is bound to a source. -/
  | bind (w : World) (element : ElementId) (event : String) (id : SourceId) :
    Step w { w with hub := w.hub.bind element event id }
  /-- A subscriber is added; if it writes a cell, the cell exists. -/
  | subscribe {w : World} {id : SourceId} {subscriber : Subscriber} {hub : Hub}
    (htarget : ∀ target, subscriber.target? = some target → w.graph.IsCell target)
    (h : w.hub.subscribe id subscriber = .ok hub) : Step w { w with hub }
  /-- An occurrence is counted. -/
  | deliver {w : World} {id : SourceId} {subscribers : List Subscriber} {hub : Hub}
    (h : w.hub.deliver id = .ok (subscribers, hub)) : Step w { w with hub }

/-- Any number of steps. -/
abbrev Steps : World → World → Prop := Relation.ReflTransGen Step

theorem removeSignal_eq_ok {w w' : World} {id : SignalId} {removed : List SignalId} :
    w.removeSignal id = .ok (removed, w') ↔ ∃ graph, w.graph.remove id = .ok (removed, graph) ∧
      w' = { w with graph, hub := w.hub.detach removed } := by
  unfold removeSignal
  cases w.graph.remove id with
  | error failure => simp [Except.map]
  | ok result =>
    obtain ⟨removed', graph⟩ := result
    simp only [Except.map, Except.ok.injEq, Prod.mk.injEq]
    constructor
    · rintro ⟨rfl, rfl⟩
      exact ⟨graph, ⟨rfl, rfl⟩, rfl⟩
    · rintro ⟨_, ⟨rfl, rfl⟩, rfl⟩
      exact ⟨rfl, rfl⟩

/-! ## Slots and moments are never taken back -/

/-- All of a node that stays as long as it exists. -/
structure SameNode (node node' : Node) : Prop where
  kind_eq : node'.kind = node.kind
  inputs_eq : node'.inputs = node.inputs
  rank_eq : node'.rank = node.rank

/-- The second state can come after the first. -/
structure Follows (w w' : World) : Prop where
  /-- All moments of the past stay in the past. -/
  past_suffix : w.past <:+ w'.past
  /-- No slot is taken back. -/
  size_le : w.graph.slots.size ≤ w'.graph.slots.size
  /-- Whatever stands in an old slot has stood there all the time. -/
  node_of_old : ∀ {id node'}, id.index < w.graph.slots.size → w'.graph.node? id = some node' →
    ∃ node, w.graph.node? id = some node ∧ SameNode node node'

theorem Follows.refl (w : World) : Follows w w where
  past_suffix := List.suffix_refl _
  size_le := le_rfl
  node_of_old _ hnode := ⟨_, hnode, rfl, rfl, rfl⟩

theorem Follows.trans {w w' w'' : World} (h : Follows w w') (h' : Follows w' w'') :
    Follows w w'' where
  past_suffix := h.past_suffix.trans h'.past_suffix
  size_le := h.size_le.trans h'.size_le
  node_of_old hid hnode := by
    obtain ⟨node', hnode', hkind', hinputs', hrank'⟩ :=
      h'.node_of_old (hid.trans_le h.size_le) hnode
    obtain ⟨node, hnode, hkind, hinputs, hrank⟩ := h.node_of_old hid hnode'
    exact ⟨node, hnode, hkind'.trans hkind, hinputs'.trans hinputs, hrank'.trans hrank⟩

/-- Who stands under an identifier before and after is the same node. -/
theorem Follows.sameNode {w w' : World} (h : Follows w w') {id : SignalId} {node node' : Node}
    (hnode : w.graph.node? id = some node) (hnode' : w'.graph.node? id = some node') :
    SameNode node node' := by
  obtain ⟨old, hold, hsame⟩ := h.node_of_old (Graph.index_lt hnode) hnode'
  obtain rfl := Option.some.inj (hold.symm.trans hnode)
  exact hsame

/-- A node that is no cell never becomes one. -/
theorem Follows.not_isCell {w w' : World} (h : Follows w w') {id : SignalId} {node : Node}
    (hnode : w.graph.node? id = some node) (hkind : node.kind ≠ .cell) : ¬ w'.graph.IsCell id := by
  rintro ⟨node', hnode', hcell⟩
  exact hkind ((h.sameNode hnode hnode').kind_eq.symm.trans hcell)

/-- Only what happens to the graph counts. -/
private theorem Follows.of_graph {w w' : World} (hpast : w.past <:+ w'.past)
    (hgraph : w'.graph = w.graph) : Follows w w' where
  past_suffix := hpast
  size_le := by rw [hgraph]
  node_of_old _ hnode := ⟨_, hgraph ▸ hnode, rfl, rfl, rfl⟩

private theorem Follows.of_grows {w : World} {graph : Graph} {id : SignalId} {node : Node}
    (hg : Graph.Grows w.graph graph id node) : Follows w { w with graph } where
  past_suffix := List.suffix_refl _
  size_le := by rw [hg.size_eq]; omega
  node_of_old {k node'} hk hnode := by
    rcases hg.cases hnode with ⟨rfl, rfl⟩ | ⟨old, hold, rfl⟩
    · rw [hg.id_eq] at hk
      exact absurd hk (lt_irrefl _)
    · exact ⟨old, hold, by simp, by simp, by simp⟩

private theorem Follows.of_remove {w : World} {graph : Graph} {hub : Hub} {id : SignalId}
    {removed : List SignalId} (h : w.graph.remove id = .ok (removed, graph)) :
    Follows w { w with graph, hub } where
  past_suffix := List.suffix_refl _
  size_le := by
    obtain ⟨-, -, rfl⟩ := Graph.remove_eq_ok.1 h
    rw [Graph.size_erase]
  node_of_old _ hnode := by
    obtain ⟨-, -, rfl⟩ := Graph.remove_eq_ok.1 h
    obtain ⟨-, node, hold, rfl⟩ := Graph.node?_of_erase hnode
    exact ⟨node, hold, rfl, rfl, rfl⟩

theorem Step.follows {w w' : World} (h : Step w w') : Follows w w' := by
  cases h with
  | host | enqueue | settling | source | bind | subscribe | deliver =>
    exact .of_graph (List.suffix_refl _) rfl
  | remember activity => exact .of_graph (List.suffix_cons _ _) rfl
  | @store id value graph h =>
    obtain ⟨-, rfl⟩ := Graph.settle_eq_ok.1 h
    have hsame := Graph.sameWiring_modify w.graph id value
    refine ⟨List.suffix_refl _, hsame.size_eq.ge, fun _ hnode => ?_⟩
    obtain ⟨node, hnode, hkind, hrank, hinputs, -⟩ := hsame.node? hnode
    exact ⟨node, hnode, hkind, hinputs, hrank⟩
  | cell value => exact .of_grows (Graph.grows_insertCell w.graph value)
  | @insert kind _ _ _ h =>
    obtain ⟨rank, -, hg⟩ := Graph.grows_insert kind.nodup_dependencies h
    exact .of_grows hg
  | remove h =>
    obtain ⟨graph, hgraph, rfl⟩ := removeSignal_eq_ok.1 h
    exact .of_remove hgraph
  | drop _ h => exact .of_remove h

theorem Steps.follows {w w' : World} (h : Steps w w') : Follows w w' := by
  induction h with
  | refl => exact .refl w
  | tail _ hstep ih => exact ih.trans hstep.follows

/-! ## Sessions stay well-formed -/

end World

/-- The graph is well-formed, and every subscriber that writes a cell writes one that exists. -/
structure Scene.WellFormed (scene : Scene) : Prop where
  graph : scene.graph.WellFormed
  targets : ∀ {subscriber target}, scene.hub.Subscribed subscriber →
    subscriber.target? = some target → scene.graph.IsCell target

theorem Scene.WellFormed.of_same {scene scene' : Scene} (h : scene.WellFormed)
    (hgraph : scene'.graph = scene.graph) (hhub : scene'.hub = scene.hub) : scene'.WellFormed where
  graph := hgraph ▸ h.graph
  targets hs htarget := hgraph ▸ h.targets (hhub ▸ hs) htarget

/-- The session is well-formed and was so at every moment of its past. -/
structure World.WellFormed (w : World) : Prop where
  now : w.toScene.WellFormed
  past : ∀ m ∈ w.past, m.scene.value.WellFormed

namespace World

theorem wellFormed_start (document : Document) (journal : Array Entry) :
    WellFormed { document, journal } where
  now := ⟨Graph.wellFormed_empty, fun h => absurd h (Hub.not_subscribed_empty _)⟩
  past _ hm := absurd hm List.not_mem_nil

/-- A step keeps the scene well-formed. -/
theorem Step.scene_wellFormed {w w' : World} (hstep : Step w w')
    (h : w.toScene.WellFormed) : w'.toScene.WellFormed := by
  obtain ⟨hgraph, htargets⟩ := h
  cases hstep with
  | host | remember | enqueue | settling => exact ⟨hgraph, htargets⟩
  | @store id value graph hstore =>
    obtain ⟨-, rfl⟩ := Graph.settle_eq_ok.1 hstore
    have hsame := Graph.sameWiring_modify w.graph id value
    exact ⟨hgraph.of_wiring hsame, fun hs ht => (htargets hs ht).of_wiring hsame⟩
  | cell value =>
    have hg := Graph.grows_insertCell w.graph value
    exact ⟨hgraph.insertCell value, fun hs ht => (htargets hs ht).grow hg⟩
  | @insert kind _ _ hkind hinsert =>
    have hnodup := kind.nodup_dependencies
    obtain ⟨rank, -, hg⟩ := Graph.grows_insert hnodup hinsert
    exact ⟨hgraph.insert hnodup hkind hinsert, fun hs ht => (htargets hs ht).grow hg⟩
  | remove hremove =>
    obtain ⟨graph, hnodes, rfl⟩ := removeSignal_eq_ok.1 hremove
    obtain ⟨-, rfl, rfl⟩ := Graph.remove_eq_ok.1 hnodes
    refine ⟨hgraph.remove hnodes, fun hs ht => ?_⟩
    obtain ⟨hold, hkept⟩ := Hub.subscribed_detach hs
    exact (htargets hold ht).erase (hkept _ ht)
  | drop hcell hremove =>
    obtain ⟨-, rfl, rfl⟩ := Graph.remove_eq_ok.1 hremove
    refine ⟨hgraph.remove hremove, fun hs ht => ?_⟩
    have htarget := htargets hs ht
    exact htarget.erase (htarget.not_mem_subtree hgraph hcell)
  | source name => exact ⟨hgraph, fun hs ht => htargets (Hub.subscribed_create.1 hs) ht⟩
  | bind element event id => exact ⟨hgraph, fun hs ht => htargets (Hub.subscribed_bind.1 hs) ht⟩
  | subscribe htarget hsubscribe =>
    refine ⟨hgraph, fun hs ht => ?_⟩
    rcases Hub.subscribed_subscribe hsubscribe hs with hold | rfl
    · exact htargets hold ht
    · exact htarget _ ht
  | deliver hdeliver =>
    exact ⟨hgraph, fun hs ht => htargets (Hub.subscribed_deliver hdeliver hs) ht⟩

/-- What every step keeps holds at all times. -/
theorem Steps.throughout {P : Scene → Prop}
    (hkeep : ∀ {w w'}, Step w w' → P w.toScene → P w'.toScene) {w w' : World} (hsteps : Steps w w')
    (hnow : P w.toScene) (hpast : ∀ m ∈ w.past, P m.scene.value) :
    P w'.toScene ∧ ∀ m ∈ w'.past, P m.scene.value := by
  induction hsteps with
  | refl => exact ⟨hnow, hpast⟩
  | tail _ hstep ih =>
    obtain ⟨hnow, hpast⟩ := ih
    refine ⟨hkeep hstep hnow, ?_⟩
    cases hstep with
    | host | enqueue | settling | source | bind | subscribe | deliver | store | cell | insert
    | drop => exact hpast
    | remember activity =>
      intro m hm
      rcases List.mem_cons.1 hm with rfl | hm
      · rw [Ghost.value_of]
        exact hnow
      · exact hpast m hm
    | remove hremove =>
      obtain ⟨graph, -, rfl⟩ := removeSignal_eq_ok.1 hremove
      exact hpast

theorem Steps.scene_wellFormed {w w' : World} (hsteps : Steps w w') (h : w.toScene.WellFormed) :
    w'.toScene.WellFormed := by
  induction hsteps with
  | refl => exact h
  | tail _ hstep ih => exact hstep.scene_wellFormed ih

theorem Steps.wellFormed {w w' : World} (hsteps : Steps w w') (h : w.WellFormed) :
    w'.WellFormed := by
  obtain ⟨hnow, hpast⟩ := hsteps.throughout Step.scene_wellFormed h.now h.past
  exact ⟨hnow, hpast⟩

theorem Step.wellFormed {w w' : World} (hstep : Step w w') (h : w.WellFormed) : w'.WellFormed :=
  Steps.wellFormed (.single hstep) h

/-- A step keeps the inputs of nodes and their operands together. -/
theorem Step.wired {w w' : World} (hstep : Step w w') (h : w.graph.Wired) : w'.graph.Wired := by
  cases hstep with
  | host | remember | enqueue | settling | source | bind | subscribe | deliver => exact h
  | @store id value graph hstore =>
    obtain ⟨-, rfl⟩ := Graph.settle_eq_ok.1 hstore
    exact h.of_wiring (Graph.sameWiring_modify w.graph id value)
  | cell value => exact h.grow (Graph.grows_insertCell w.graph value) rfl
  | @insert kind _ _ _ hinsert =>
    obtain ⟨rank, -, hg⟩ := Graph.grows_insert kind.nodup_dependencies hinsert
    exact h.grow hg rfl
  | remove hremove =>
    obtain ⟨graph, hnodes, rfl⟩ := removeSignal_eq_ok.1 hremove
    obtain ⟨-, -, rfl⟩ := Graph.remove_eq_ok.1 hnodes
    exact h.erase _
  | drop _ hremove =>
    obtain ⟨-, -, rfl⟩ := Graph.remove_eq_ok.1 hremove
    exact h.erase _

theorem Steps.wired {w w' : World} (hsteps : Steps w w') (h : w.graph.Wired) : w'.graph.Wired := by
  induction hsteps with
  | refl => exact h
  | tail _ hstep ih => exact hstep.wired ih

end World

/-! ## What can stand in a slot -/

namespace Graph

/-- Only a node of certain kinds can stand in the slot, now and later. -/
def OnlyEver (graph : Graph) (kinds : NodeKind → Prop) (id : SignalId) : Prop :=
  id.index < graph.slots.size ∧ ∀ node, graph.node? id = some node → kinds node.kind

theorem OnlyEver.follows {w w' : World} {kinds : NodeKind → Prop} {id : SignalId}
    (h : w.graph.OnlyEver kinds id) (hfollows : World.Follows w w') :
    w'.graph.OnlyEver kinds id := by
  refine ⟨h.1.trans_le hfollows.size_le, fun node' hnode' => ?_⟩
  obtain ⟨node, hnode, hsame⟩ := hfollows.node_of_old h.1 hnode'
  rw [hsame.kind_eq]
  exact h.2 node hnode

/-- What exists now has existed since its slot was taken. -/
theorem OnlyEver.contains_before {w w' : World} {kinds : NodeKind → Prop} {id : SignalId}
    (h : w.graph.OnlyEver kinds id) (hfollows : World.Follows w w')
    (hcontains : w'.graph.contains id) : w.graph.contains id := by
  obtain ⟨node', hnode'⟩ := contains_iff.1 hcontains
  obtain ⟨node, hnode, -⟩ := hfollows.node_of_old h.1 hnode'
  exact contains_iff.2 ⟨node, hnode⟩

theorem IsCell.onlyEver {graph : Graph} {id : SignalId} (h : graph.IsCell id) :
    graph.OnlyEver (· = .cell) id := by
  obtain ⟨node, hnode, hkind⟩ := h
  refine ⟨index_lt hnode, fun node' hnode' => ?_⟩
  obtain rfl := Option.some.inj (hnode.symm.trans hnode')
  exact hkind

/-- Cells are below nothing: a plan that starts from cells lists all that is below them. -/
theorem mem_plan_of_cells {graph : Graph} (h : graph.WellFormed) {roots : List SignalId}
    (hroots : ∀ r ∈ roots, graph.OnlyEver (· = .cell) r) {id : SignalId} :
    id ∈ graph.plan roots ↔ graph.Below roots id := by
  rw [mem_plan h, and_iff_left_iff_imp]
  intro hbelow hroot
  obtain ⟨node, hnode, hkind⟩ := h.node?_of_below hbelow
  exact hkind ((hroots id hroot).2 node hnode)

/-- Whatever the subscribers write is a cell as long as it exists. -/
def TargetsCells (graph : Graph) (subscribers : List Subscriber) : Prop :=
  ∀ s ∈ subscribers, ∀ target, s.target? = some target → graph.OnlyEver (· = .cell) target

namespace TargetsCells

theorem of_cons {graph : Graph} {subscriber : Subscriber} {rest : List Subscriber}
    (h : graph.TargetsCells (subscriber :: rest)) : graph.TargetsCells rest :=
  fun s hs => h s (List.mem_cons_of_mem _ hs)

theorem follows {w w' : World} {subscribers : List Subscriber}
    (h : w.graph.TargetsCells subscribers) (hfollows : World.Follows w w') :
    w'.graph.TargetsCells subscribers :=
  fun s hs target htarget => (h s hs target htarget).follows hfollows

end TargetsCells

end Graph

/-- The subscribers that an occurrence reaches write cells. -/
theorem Scene.WellFormed.targetsCells {scene : Scene} (h : scene.WellFormed) {source : SourceId}
    {subscribers : List Subscriber} {hub : Hub}
    (hdeliver : scene.hub.deliver source = .ok (subscribers, hub)) :
    scene.graph.TargetsCells subscribers := by
  intro s hs target htarget
  rw [Hub.subscribers_deliver hdeliver] at hs
  exact (h.targets (Hub.subscribed_of_mem_reached hs htarget) htarget).onlyEver

end EffectGraph
