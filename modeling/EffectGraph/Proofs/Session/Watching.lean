import EffectGraph.Proofs.Session.Derivations
import EffectGraph.Proofs.Session.Folds

/-!
# What a watch has seen

Between batches a watch has last been given the current value of its input (`Watching.InStep`). Within
a batch it need not have been, but then it is still to be evaluated, or a signal that its input depends
on has been written and the pass from there is still to come (`Watching.Attended`). A pass evaluates the
watch after all signals that its input depends on, so it does not matter whether computations fail.
-/

namespace EffectGraph

open Exec World

/-- A signal, and the input and the effect of the watch that it stands for. -/
structure Watching where
  id : SignalId
  input : Value
  effect : Value → Script

/-- A computation starts while no change is being settled. -/
def Moment.StartsCalmly (m : Moment) : Prop :=
  m.scene.value.settling = false ∧ ∃ id inputs, m.activity = .evaluating id inputs

namespace Watching

variable {b : Watching} {before : Except Failure Value} {earlier since later : List Moment}
  {todo : List SignalId} {w w₀ w' : World}

/-- The signals that the input depends on. -/
def signals (b : Watching) : List SignalId := b.input.collectSignals []

/-- What the watch is given, if it is evaluated at the moment. -/
def given? (b : Watching) (m : Moment) : Option Value :=
  match m.activity with
  | .evaluating id inputs => if id = b.id then some (inputs.headD .unit) else none
  | _ => none

/-- All that the watch was given, the latest value first. -/
def given (b : Watching) (since : List Moment) : List Value := since.filterMap b.given?

/-- What the watch was given last, or what it was given before if it was not evaluated since. -/
def seen (b : Watching) (before : Except Failure Value) (since : List Moment) :
    Except Failure Value :=
  ((b.given since).head?.map .ok).getD before

theorem given_append (later earlier : List Moment) :
    b.given (later ++ earlier) = b.given later ++ b.given earlier := List.filterMap_append

theorem seen_append (later earlier : List Moment) :
    b.seen before (later ++ earlier) = b.seen (b.seen before earlier) later := by
  unfold seen
  rw [given_append]
  cases b.given later with
  | nil => rfl
  | cons value rest => rfl

theorem given_eq_nil (h : ∀ m ∈ since, b.given? m = none) : b.given since = [] :=
  List.filterMap_eq_nil_iff.2 h

theorem seen_of_given_eq_nil (h : b.given since = []) : b.seen before since = before := by
  rw [seen, h]
  rfl

theorem exists_seen (b : Watching) (before : Value) (since : List Moment) :
    ∃ value, b.seen (.ok before) since = .ok value := by
  unfold seen
  cases b.given since with
  | nil => exact ⟨before, rfl⟩
  | cons value rest => exact ⟨value, rfl⟩

/-- If the watch exists, it was last given the value that its input has now. -/
def Sees (b : Watching) (before : Except Failure Value) (since : List Moment) (graph : Graph) : Prop :=
  graph.contains b.id → graph.resolve b.input = b.seen before since

/-- So it was whenever a computation started between batches. -/
def SawAll (b : Watching) (before : Except Failure Value) : List Moment → Prop
  | [] => True
  | m :: earlier =>
    (m.StartsCalmly → b.Sees before earlier m.scene.value.graph) ∧ SawAll b before earlier

theorem SawAll.of_mem (h : b.SawAll before since) {m : Moment}
    (hsince : since = later ++ m :: earlier) (hm : m.StartsCalmly) :
    b.Sees before earlier m.scene.value.graph := by
  subst hsince
  induction later with
  | nil => exact h.1 hm
  | cons _ rest ih => exact ih h.2

/-- Only what starts between batches counts. -/
theorem SawAll.append (h : b.SawAll before earlier) (hlater : ∀ m ∈ later, ¬ m.StartsCalmly) :
    b.SawAll before (later ++ earlier) := by
  induction later with
  | nil => exact h
  | cons m rest ih =>
    refine ⟨fun hm => absurd hm (hlater m List.mem_cons_self), ?_⟩
    exact ih fun k hk => hlater k (List.mem_cons_of_mem _ hk)

/-- What was seen since some time was seen since an earlier time. -/
theorem SawAll.trans (h : b.SawAll before earlier) (h' : b.SawAll (b.seen before earlier) later) :
    b.SawAll before (later ++ earlier) := by
  induction later with
  | nil => exact h
  | cons m rest ih =>
    exact ⟨fun hm hlive => (h'.1 hm hlive).trans (seen_append rest earlier).symm, ih h'.2⟩

/-! ## The watch and its signals -/

/-- In its slot there is nothing but the watch, now and later. -/
structure Stands (b : Watching) (w : World) : Prop where
  wellFormed : w.toScene.WellFormed
  wired : w.graph.Wired
  watch : w.graph.OnlyEver (· = .watch b.input b.effect) b.id

namespace Stands

theorem steps (h : b.Stands w) (hsteps : Steps w w') : b.Stands w' where
  wellFormed := hsteps.scene_wellFormed h.wellFormed
  wired := hsteps.wired h.wired
  watch := h.watch.follows hsteps.follows

theorem kind_eq (h : b.Stands w) {node : Node} (hnode : w.graph.node? b.id = some node) :
    node.kind = .watch b.input b.effect :=
  h.watch.2 node hnode

theorem inputs_eq (h : b.Stands w) {node : Node} (hnode : w.graph.node? b.id = some node) :
    node.inputs = b.signals := by
  rw [h.wired hnode, h.kind_eq hnode]
  rfl

/-- If the watch exists, so do the signals, and they are older. -/
theorem signals_older (h : b.Stands w) (hlive : w.graph.contains b.id) :
    ∀ k ∈ b.signals, w.graph.contains k ∧ k.index < b.id.index := by
  intro k hk
  obtain ⟨node, hnode⟩ := Graph.contains_iff.1 hlive
  rw [← h.inputs_eq hnode] at hk
  exact ⟨h.wellFormed.graph.inputs_live hnode k hk, h.wellFormed.graph.inputs_older hnode k hk⟩

theorem not_mem_signals (h : b.Stands w) (hlive : w.graph.contains b.id) : b.id ∉ b.signals :=
  fun hmem => lt_irrefl _ (h.signals_older hlive _ hmem).2

/-- The watch can be evaluated. -/
theorem exists_resolve (h : b.Stands w) (hlive : w.graph.contains b.id) :
    ∃ value, w.graph.resolve b.input = .ok value ∧
      w.graph.inputsOf (.watch b.input b.effect) = .ok [value] := by
  obtain ⟨value, hvalue⟩ : ∃ value, w.graph.resolve b.input = .ok value := by
    refine Graph.exists_resolve_eq_ok fun k hk => ?_
    exact (h.signals_older hlive k (Value.mem_collectSignals.2 (.inr hk))).1
  refine ⟨value, hvalue, ?_⟩
  rw [Graph.inputsOf, hvalue]
  rfl

/-- The value of the input stays if those of the signals do. -/
theorem resolve_eq (h : b.Stands w) (hsteps : Steps w w') (hlive : w'.graph.contains b.id)
    (hvalues : w.graph.contains b.id → ∀ k ∈ b.signals, ∀ node node',
      w.graph.node? k = some node → w'.graph.node? k = some node' → node'.value = node.value) :
    w'.graph.resolve b.input = w.graph.resolve b.input := by
  have hold := h.watch.contains_before hsteps.follows hlive
  refine Graph.resolve_congr fun k hk => ?_
  have hmem : k ∈ b.signals := Value.mem_collectSignals.2 (.inr hk)
  obtain ⟨node, hnode⟩ := Graph.contains_iff.1 (h.signals_older hold k hmem).1
  obtain ⟨node', hnode'⟩ := Graph.contains_iff.1 ((h.steps hsteps).signals_older hlive k hmem).1
  exact Graph.value_eq_of_node? hnode hnode' (hvalues hold k hmem node node' hnode hnode')

end Stands

/-- The values of the signals stay if one is stored in another node. -/
theorem value_eq_of_settle {id : SignalId} {value : Value} {graph graph' : Graph}
    (hstore : graph.settle id value = .ok graph') (hid : id ∉ b.signals) :
    ∀ k ∈ b.signals, ∀ node node', graph.node? k = some node → graph'.node? k = some node' →
      node'.value = node.value := by
  intro k hk node node' hnode hnode'
  obtain ⟨-, rfl⟩ := Graph.settle_eq_ok.1 hstore
  have hne : k ≠ id := by
    rintro rfl
    exact hid hk
  rw [Graph.node?_modify, if_neg hne, hnode] at hnode'
  obtain rfl := Option.some.inj hnode'
  rfl

/-- What the input depends on comes before the watch. -/
def Due (b : Watching) (todo : List SignalId) : Prop :=
  ∀ front k rest, todo = front ++ k :: rest → k ∈ b.signals → b.id ∈ rest

theorem Due.tail {k : SignalId} (h : b.Due (k :: todo)) : b.Due todo :=
  fun front other rest heq => h (k :: front) other rest (by rw [heq]; rfl)

theorem due_nil : b.Due [] := by
  intro front k rest heq
  simp at heq

/-! ## Within a batch -/

/-- While changes are being settled: if the watch exists, then it is still to be evaluated, or was last
given the value that its input has now, or no pass has started yet from a signal that was written. -/
structure Attended (b : Watching) (before : Except Failure Value) (earlier : List Moment)
    (todo : List SignalId) (w : World) : Prop extends b.Stands w where
  settling : w.settling = true
  current : ∃ since, w.past = since ++ earlier ∧ b.SawAll before since ∧
    (w.graph.contains b.id → b.Due todo ∧ (b.id ∈ todo ∨
      w.graph.resolve b.input = b.seen before since ∨ ∃ k ∈ b.signals, k ∈ openWrites since))

/-- No pass starts, and the watch is not evaluated. -/
def Ignores (b : Watching) : Activity → Prop
  | .propagating _ => False
  | .evaluating id _ => id ≠ b.id
  | _ => True

theorem given?_of_ignores {m : Moment} (h : b.Ignores m.activity) : b.given? m = none := by
  obtain ⟨activity, scene⟩ := m
  cases activity with
  | evaluating id inputs => exact if_neg h
  | queued | applied | reducing | listening | wrote | propagating => rfl

namespace Attended

/-- As long as no pass starts and the signals keep their values while they exist, nothing else need be
attended to. -/
theorem lead (h : b.Attended before earlier todo w) (hsteps : Steps w w')
    (hsettling : w'.settling = true) (hpast : w'.past = since ++ w.past)
    (hignores : ∀ m ∈ since, b.Ignores m.activity ∧ ¬ m.StartsCalmly)
    (hvalues : w.graph.contains b.id → ∀ k ∈ b.signals, ∀ node node',
      w.graph.node? k = some node → w'.graph.node? k = some node' → node'.value = node.value) :
    b.Attended before earlier todo w' := by
  obtain ⟨past, heq, hsaw, hcurrent⟩ := h.current
  refine ⟨h.toStands.steps hsteps, hsettling, since ++ past, ?_,
    hsaw.append fun m hm => (hignores m hm).2, fun hlive => ?_⟩
  · rw [hpast, heq, List.append_assoc]
  obtain ⟨hdue, hattends⟩ := hcurrent (h.watch.contains_before hsteps.follows hlive)
  refine ⟨hdue, ?_⟩
  rcases hattends with htodo | hsees | ⟨k, hk, hopen⟩
  · exact .inl htodo
  · refine .inr (.inl ?_)
    have hnone : b.given since = [] := given_eq_nil fun m hm => given?_of_ignores (hignores m hm).1
    rw [h.toStands.resolve_eq hsteps hlive hvalues, seen_append, seen_of_given_eq_nil hnone, hsees]
  · refine .inr (.inr ⟨k, hk, mem_openWrites_of_unpassed (fun m hm roots hpass => ?_) hopen⟩)
    have hnever := (hignores m hm).1
    rw [hpass] at hnever
    exact hnever.elim

/-- Nothing happens to the graph. -/
theorem of_graph (h : b.Attended before earlier todo w) (hsteps : Steps w w')
    (hsettling : w'.settling = true) (hpast : w'.past = since ++ w.past)
    (hignores : ∀ m ∈ since, b.Ignores m.activity ∧ ¬ m.StartsCalmly) (hgraph : w'.graph = w.graph) :
    b.Attended before earlier todo w' := by
  refine h.lead hsteps hsettling hpast hignores fun _ k _ node node' hnode hnode' => ?_
  rw [hgraph, hnode] at hnode'
  obtain rfl := Option.some.inj hnode'
  rfl

/-- Nothing happens that is remembered. -/
theorem of_past (h : b.Attended before earlier todo w) (hsteps : Steps w w')
    (hsettling : w'.settling = w.settling) (hpast : w'.past = w.past) (hgraph : w'.graph = w.graph) :
    b.Attended before earlier todo w' := by
  have hnone : w'.past = [] ++ w.past := hpast
  exact h.of_graph hsteps (hsettling.trans h.settling) hnone
    (fun _ hm => absurd hm List.not_mem_nil) hgraph

theorem not_startsCalmly (h : b.Attended before earlier todo w) (activity : Activity) :
    ¬ Moment.StartsCalmly ⟨activity, .of w.toScene⟩ := by
  rintro ⟨hcalm, -⟩
  rw [Ghost.value_of] at hcalm
  rw [h.settling] at hcalm
  cases hcalm

theorem begin (h : b.Attended before earlier todo w) {activity : Activity}
    (hignores : b.Ignores activity) : b.Attended before earlier todo (w.begin activity) := by
  have hpast : (w.begin activity).past = [⟨activity, .of w.toScene⟩] ++ w.past := rfl
  refine h.of_graph (steps_begin w activity) h.settling hpast (fun m hm => ?_) rfl
  rw [List.mem_singleton.1 hm]
  exact ⟨hignores, h.not_startsCalmly activity⟩

/-- A value is stored in a node that the input does not depend on. -/
theorem store (h : b.Attended before earlier todo w) {id : SignalId} {value : Value} {graph : Graph}
    (hstore : w.graph.settle id value = .ok graph) (hid : id ∉ b.signals) :
    b.Attended before earlier todo { w with graph } := by
  have hpast : World.past { w with graph } = [] ++ w.past := rfl
  refine h.lead (.single (.store hstore)) h.settling hpast
    (fun m hm => absurd hm List.not_mem_nil) fun _ => value_eq_of_settle hstore hid

/-- A value that the input depends on is stored before the watch is evaluated. -/
theorem storeBefore {id : SignalId} (h : b.Attended before earlier (id :: todo) w) {value : Value}
    {graph : Graph} (hstore : w.graph.settle id value = .ok graph) (hid : id ∈ b.signals) :
    b.Attended before earlier todo { w with graph } := by
  have hsteps : Steps w { w with graph } := .single (.store hstore)
  obtain ⟨since, hpast, hsaw, hcurrent⟩ := h.current
  refine ⟨h.toStands.steps hsteps, h.settling, since, hpast, hsaw, fun hlive => ?_⟩
  obtain ⟨hdue, -⟩ := hcurrent (h.watch.contains_before hsteps.follows hlive)
  exact ⟨hdue.tail, .inl (hdue [] id todo rfl hid)⟩

/-- A write of a signal that the input depends on waits for its pass. -/
theorem write (h : b.Attended before earlier todo w) {cell : SignalId} {value : Value} {graph : Graph}
    (hstore : w.graph.settle cell value = .ok graph) :
    b.Attended before earlier todo (World.begin { w with graph } (.wrote cell value)) := by
  by_cases hmem : cell ∈ b.signals
  · have hsteps : Steps w (World.begin { w with graph } (.wrote cell value)) :=
      .head (.store hstore) (steps_begin _ _)
    obtain ⟨since, hpast, hsaw, hcurrent⟩ := h.current
    refine ⟨h.toStands.steps hsteps, h.settling, _ :: since, congrArg (_ :: ·) hpast, ⟨?_, hsaw⟩,
      fun hlive => ?_⟩
    · rintro ⟨-, id, inputs, heq⟩
      cases heq
    obtain ⟨hdue, -⟩ := hcurrent (h.watch.contains_before hsteps.follows hlive)
    exact ⟨hdue, .inr (.inr ⟨cell, hmem, List.mem_cons_self⟩)⟩
  · exact (h.store hstore hmem).begin trivial

theorem enqueue (h : b.Attended before earlier todo w) (change : Change) :
    b.Attended before earlier todo (w.enqueue change) := by
  have hlogged : b.Attended before earlier todo (w.report .changeQueued) :=
    h.of_past (.single (step_report w _)) rfl rfl rfl
  have hbegun : b.Attended before earlier todo ((w.report .changeQueued).begin (.queued change)) :=
    hlogged.begin trivial
  exact hbegun.of_past (.single (.enqueue _ _)) rfl rfl rfl

/-- The next node on the list need not be evaluated. -/
theorem skip {id : SignalId} (h : b.Attended before earlier (id :: todo) w)
    (hid : w.graph.contains b.id → b.id ≠ id) : b.Attended before earlier todo w := by
  obtain ⟨since, hpast, hsaw, hcurrent⟩ := h.current
  refine ⟨h.toStands, h.settling, since, hpast, hsaw, fun hlive => ?_⟩
  obtain ⟨hdue, hattends⟩ := hcurrent hlive
  exact ⟨hdue.tail, hattends.imp_left fun hmem => (List.mem_cons.1 hmem).resolve_left (hid hlive)⟩

/-- The watch is evaluated on the value that its input has now. -/
theorem evaluated {id : SignalId} (h : b.Attended before earlier (id :: todo) w) {value : Value}
    (hvalue : w.graph.resolve b.input = .ok value) :
    b.Attended before earlier todo (w.begin (.evaluating b.id [value])) := by
  obtain ⟨since, hpast, hsaw, hcurrent⟩ := h.current
  refine ⟨h.toStands.steps (steps_begin _ _), h.settling, _ :: since, congrArg (_ :: ·) hpast,
    ⟨fun hcalm => absurd hcalm (h.not_startsCalmly _), hsaw⟩, fun hlive => ?_⟩
  obtain ⟨hdue, -⟩ := hcurrent hlive
  have hgiven : b.given? ⟨.evaluating b.id [value], .of w.toScene⟩ = some value := if_pos rfl
  refine ⟨hdue.tail, .inr (.inl ?_)⟩
  rw [seen, given, List.filterMap_cons_some hgiven]
  exact hvalue

end Attended

/-! ## Scripts within a batch -/

end Watching

/-- An act is remembered only if an evaluation begins. -/
theorem Scope.Act.past_cases {scope : Scope} {w w' : World} (h : scope.Act w w') :
    w'.past = w.past ∨ ∃ id inputs, scope.evaluates id ∧ w' = w.begin (.evaluating id inputs) := by
  cases h with
  | host | store | cell | insert | drop | source | bind | merge | listen | attach => exact .inl rfl
  | evaluating id inputs hid => exact .inr ⟨id, inputs, hid, rfl⟩
  | remove hremove =>
    obtain ⟨graph, -, rfl⟩ := removeSignal_eq_ok.1 hremove
    exact .inl rfl

namespace Watching

variable {b : Watching} {before : Except Failure Value} {earlier since : List Moment}
  {todo : List SignalId} {w w₀ w' : World}

namespace Stands

/-- The acts of a script do not evaluate what is older than its start. -/
theorem ne_of_scope (h₀ : b.Stands w₀) {id : SignalId}
    (hid : (Calls.all.scope w₀.graph.slots.size).evaluates id) : id ≠ b.id := by
  rintro rfl
  exact absurd h₀.watch.1 (not_lt.2 hid)

/-- The acts of a script leave the values of the signals alone. -/
theorem value_eq_of_act (h : b.Stands w) (h₀ : b.Stands w₀) (hlive : w.graph.contains b.id)
    (hact : (Calls.all.scope w₀.graph.slots.size).Act w w') :
    ∀ k ∈ b.signals, ∀ node node', w.graph.node? k = some node → w'.graph.node? k = some node' →
      node'.value = node.value := by
  intro k hk node node' hnode hnode'
  have hold : k.index < w₀.graph.slots.size := ((h.signals_older hlive k hk).2).trans h₀.watch.1
  exact (hact.sameState hnode (fun hlater => absurd hold (not_lt.2 hlater)) hnode').value_eq

end Stands

theorem Attended.act (h : b.Attended before earlier todo w) (h₀ : b.Stands w₀)
    (hact : (Calls.all.scope w₀.graph.slots.size).Act w w') : b.Attended before earlier todo w' := by
  rcases hact.past_cases with hpast | ⟨id, inputs, hid, rfl⟩
  · have hnone : w'.past = [] ++ w.past := hpast
    exact h.lead hact.any.steps (hact.any.queue_eq.1.trans h.settling) hnone
      (fun _ hm => absurd hm List.not_mem_nil)
      fun hlive => h.toStands.value_eq_of_act h₀ hlive hact
  · exact h.begin (h₀.ne_of_scope hid)

/-- One state leads to another in which what is still to be attended to is the same. -/
def Leads (b : Watching) (w w' : World) : Prop :=
  Steps w w' ∧ ∀ before earlier todo, b.Attended before earlier todo w →
    b.Attended before earlier todo w'

theorem admits_leads : Calls.all.Admits b.Leads fun _ _ => True where
  refl _ := ⟨.refl, fun _ _ _ h => h⟩
  trans h h' := ⟨h.1.trans h'.1, fun before earlier todo hw =>
    h'.2 before earlier todo (h.2 before earlier todo hw)⟩
  cut _ := trivial
  trans_cut _ _ := trivial
  act h hact := ⟨h.1.trans hact.any.steps, fun before earlier todo hw =>
    (h.2 before earlier todo hw).act hw.toStands hact⟩
  follows h := h.1.follows

/-- Whatever a script does within a batch, it attends to the watch. -/
theorem tracks_leads (session : Session) (level : Nat) :
    Calls.all.Tracks (session.hooksAt level) b.Leads fun _ _ => True := by
  refine Session.tracks_hooksAt session admits_leads session.makes_all ?_ ?_ level
  · intro level w cell value graph _ hstore
    have hwritten : Steps w (World.begin { w with graph } (.wrote cell value)) :=
      .head (.store hstore) (steps_begin _ _)
    refine (Session.request_while_settling session hwritten rfl
      (P := fun w' => ∀ before earlier todo, b.Attended before earlier todo w →
        b.Attended before earlier todo w')
      (fun _ _ _ _ h => h.write hstore) fun _ _ _ _ h => (h.write hstore).enqueue _).mono ?_
    exact fun _ w' h => ⟨h.1, fun before earlier todo hw => h.2 hw.settling before earlier todo hw⟩
  · intro level w source payload found _
    refine (Session.request_while_settling session .refl rfl
      (P := fun w' => ∀ before earlier todo, b.Attended before earlier todo w →
        b.Attended before earlier todo w')
      (fun _ _ _ _ h => h) fun _ _ _ _ h => h.enqueue _).mono ?_
    exact fun _ w' h => ⟨h.1, fun before earlier todo hw => h.2 hw.settling before earlier todo hw⟩

end Watching

namespace Session

variable {session : Session} {hooks : Hooks} {b : Watching} {before : Except Failure Value}
  {earlier : List Moment} {todo : List SignalId} {w w' : World}

/-! ## Passes -/

/-- A pass evaluates the watch after what its input depends on. -/
theorem due_passOrder (h : b.Stands w) (hlive : w.graph.contains b.id) {roots : List SignalId}
    (hroots : ∀ root ∈ roots, w.graph.OnlyEver (· = .cell) root) :
    b.Due (passOrder w.graph roots) := by
  intro front k rest heq hk
  obtain ⟨node, hnode⟩ := Graph.contains_iff.1 hlive
  have hgraph := h.wellFormed.graph
  have hinput : k ∈ node.inputs := by rwa [h.inputs_eq hnode]
  have hrank := hgraph.rank_lt_of_feeds (hgraph.feeds_of_mem_inputs hnode hinput)
  have hwatch : isWatch w.graph b.id = true := by
    simp [isWatch, hnode, h.kind_eq hnode, NodeKind.isWatch]
  -- No watch comes before a node of lower rank.
  have hsorted : (passOrder w.graph roots).Pairwise
      fun a c => isWatch w.graph a = true → w.graph.rank a ≤ w.graph.rank c := by
    have hplan : (w.graph.plan roots).Pairwise
        fun a c => isWatch w.graph a = true → w.graph.rank a ≤ w.graph.rank c :=
      List.Pairwise.imp (S := fun a c => isWatch w.graph a = true → w.graph.rank a ≤ w.graph.rank c)
        (fun hle _ => hle) (Graph.plan_pairwise w.graph roots)
    refine List.pairwise_append.2 ⟨hplan.filter _, hplan.filter _, fun a ha _ _ hwatched => ?_⟩
    have hother := (List.mem_filter.1 ha).2
    rw [hwatched] at hother
    cases hother
  rw [heq] at hsorted
  refine (mem_passOrder_around hgraph hroots hnode hinput heq).resolve_left fun hfront => ?_
  have hle := (List.pairwise_append.1 hsorted).2.2 b.id hfront k List.mem_cons_self hwatch
  omega

section

variable (htracks : Calls.all.Tracks hooks b.Leads fun _ _ => True)

include htracks

/-- When the watch is evaluated, it is given the value that its input has now. -/
theorem evaluate_watch_self (h : b.Attended before earlier (b.id :: todo) w) :
    (evaluate session hooks b.id).Leaves (fun _ w' => b.Attended before earlier todo w')
      (fun _ => True) w := by
  refine leaves_bind.2 (leaves_get.2 ?_)
  split
  · rename_i failure hgone
    refine leaves_pure.2 (h.skip fun hlive => ?_)
    rw [Graph.contains, (Graph.node_eq_error.1 hgone).1] at hlive
    cases hlive
  rename_i node hnode
  have hself := Graph.node_eq_ok.1 hnode
  obtain ⟨value, hvalue, hinputs⟩ := h.exists_resolve (Graph.contains_iff.2 ⟨node, hself⟩)
  rw [h.kind_eq hself]
  refine leaves_bind.2 (evaluateOn_cases (fun failure hfailed => ?_) fun inputs hgiven => ?_)
  · rw [hinputs] at hfailed
    cases hfailed
  obtain rfl := Except.ok.inj (hinputs.symm.trans hgiven)
  refine (computation_tracked session htracks _ _ _).mono fun result w₁ hran => ?_
  have hdone := hran.2 before earlier todo (h.evaluated hvalue)
  cases result with
  | error interrupt => exact leaves_pure.2 hdone
  | ok value =>
    refine settleNode_leaves (fun graph hstore => hdone.store hstore ?_) fun _ _ => hdone
    exact hdone.not_mem_signals (Graph.contains_iff.2 (Graph.settle_eq_ok.1 hstore).1)

/-- If another node is evaluated that the input depends on, the watch still is to be. -/
theorem evaluate_watch_other {id : SignalId} (hid : id ≠ b.id)
    (h : b.Attended before earlier (id :: todo) w) :
    (evaluate session hooks id).Leaves (fun _ w' => b.Attended before earlier todo w')
      (fun _ => True) w := by
  have hskip {v : World} (hv : b.Attended before earlier (id :: todo) v) :
      b.Attended before earlier todo v := hv.skip fun _ => hid.symm
  refine leaves_bind.2 (leaves_get.2 ?_)
  split
  · exact leaves_pure.2 (hskip h)
  rename_i node hnode
  split
  · exact leaves_pure.2 (hskip h)
  refine leaves_bind.2 (evaluateOn_cases (fun failure _ => leaves_pure.2 (hskip h)) fun inputs _ => ?_)
  refine (computation_tracked session htracks node.kind inputs _).mono fun result w₁ hran => ?_
  have hdone := hran.2 before earlier (id :: todo) (h.begin hid)
  cases result with
  | error interrupt => exact leaves_pure.2 (hskip hdone)
  | ok value =>
    refine settleNode_leaves (fun graph hstore => ?_) fun _ _ => hskip hdone
    by_cases hsignal : id ∈ b.signals
    · exact hdone.storeBefore hstore hsignal
    · exact (hskip hdone).store hstore hsignal

theorem evaluateAll_watch (ids : List SignalId) (h : b.Attended before earlier ids w) :
    (evaluateAll session hooks ids).Leaves (fun _ w' => b.Attended before earlier [] w')
      (fun _ => True) w := by
  refine evaluateAll_keeps session (I := fun todo w => b.Attended before earlier todo w)
    (fun {id rest w} h _ => ?_)
    (fun event h => h.of_past (.single (step_report _ event)) rfl rfl rfl)
    (fun h hgone => h.skip fun hlive heq => hgone (heq ▸ hlive)) h
  by_cases hid : id = b.id
  · subst hid
    exact evaluate_watch_self htracks h
  · exact evaluate_watch_other htracks hid h

/-- A pass that starts from a signal that was written evaluates the watch. -/
theorem propagate_watch {roots : List SignalId}
    (hroots : ∀ root ∈ roots, w.graph.OnlyEver (· = .cell) root) (h : b.Attended before earlier [] w) :
    (propagate session hooks roots).Leaves (fun _ w' => b.Attended before earlier [] w')
      (fun _ => True) w := by
  refine propagate_leaves (fun _ => h) fun _ => evaluateAll_watch htracks _ ?_
  have hsteps {event : Event} : Steps w ((w.report event).begin (.propagating roots)) :=
    .head (step_report w event) (steps_begin _ _)
  obtain ⟨since, hpast, hsaw, hcurrent⟩ := h.current
  refine ⟨h.toStands.steps hsteps, h.settling, _ :: since, congrArg (_ :: ·) hpast, ⟨?_, hsaw⟩,
    fun hlive => ?_⟩
  · rintro ⟨-, id, inputs, heq⟩
    cases heq
  refine ⟨due_passOrder h.toStands hlive hroots, ?_⟩
  rcases (hcurrent hlive).2 with htodo | hsees | hopen
  · exact absurd htodo List.not_mem_nil
  · exact .inr (.inl hsees)
  · obtain ⟨node, hnode⟩ := Graph.contains_iff.1 hlive
    have hself : w.graph.node? b.id = some node := hnode
    exact (evaluated_or_open h.wellFormed.graph hroots hself (h.inputs_eq hself) hopen).imp_right .inr

/-! ## Batches -/

/-- A batch attends to the watch, whatever fails. -/
theorem upholds_watch :
    session.Upholds hooks (fun _ => True) (fun _ => True) (b.Attended before earlier []) :=
  upholds_of_past htracks (fun h => h.wellFormed) (fun h => h.settling) (fun h => h.of_past)
    (fun _ h => h.begin trivial) (fun hled h => hled.2 before earlier [] h)
    (fun _ _ _ h => h.begin trivial) (fun _ h => h.begin trivial) (fun h _ hstore => h.write hstore)
    fun h hroots hran _ => (propagate_watch htracks hroots h).of_eq_some hran

end

end Session

/-! ## Between batches -/

namespace Watching

variable {b : Watching} {before : Except Failure Value} {earlier since : List Moment}
  {w w₀ w₁ w' : World} {session : Session} {level : Nat}

/-- Between batches: if the watch exists, it was last given the value that its input has now, and so it
was whenever a computation started between batches. -/
structure InStep (b : Watching) (before : Except Failure Value) (earlier : List Moment) (w : World) :
    Prop extends b.Stands w where
  calm : w.Calm
  current : ∃ since, w.past = since ++ earlier ∧ b.SawAll before since ∧ b.Sees before since w.graph

theorem Stands.inStep (h : b.Stands w) (hcalm : w.Calm) :
    b.InStep (w.graph.resolve b.input) w.past w :=
  ⟨h, hcalm, [], rfl, trivial, fun _ => rfl⟩

namespace InStep

theorem act (h : b.InStep before earlier w) (h₀ : b.Stands w₀)
    (hact : (Calls.all.scope w₀.graph.slots.size).Act w w') : b.InStep before earlier w' := by
  have hsteps := hact.any.steps
  have hcalm : w'.Calm :=
    ⟨hact.any.queue_eq.1.trans h.calm.1, hact.any.queue_eq.2.trans h.calm.2⟩
  obtain ⟨since, heq, hsaw, hsees⟩ := h.current
  refine ⟨h.toStands.steps hsteps, hcalm, ?_⟩
  rcases hact.past_cases with hpast | ⟨id, inputs, hid, rfl⟩
  · refine ⟨since, hpast.trans heq, hsaw, fun hlive => ?_⟩
    rw [h.toStands.resolve_eq hsteps hlive fun hlive => h.toStands.value_eq_of_act h₀ hlive hact]
    exact hsees (h.watch.contains_before hsteps.follows hlive)
  · have hother : b.given? ⟨.evaluating id inputs, .of w.toScene⟩ = none :=
      if_neg (h₀.ne_of_scope hid)
    refine ⟨⟨.evaluating id inputs, .of w.toScene⟩ :: since, congrArg (_ :: ·) heq, ⟨fun _ => ?_, hsaw⟩,
      fun hlive => ?_⟩
    · rw [Ghost.value_of]
      exact hsees
    · rw [seen, given, List.filterMap_cons_none hother]
      exact hsees hlive

/-- When an accepted call has been settled, the watch is in step again. -/
theorem settles {call : Call} {result : Except Failure Unit} (h : b.InStep before earlier w)
    (haccepted : call.accept w = .ok w₁)
    (hsettles : session.Settles (session.hooksAt level) { w with queue := [call.change] } call.change w₁
      result w') : b.InStep before earlier w' := by
  obtain ⟨since, heq, hsaw, hsees⟩ := h.current
  have hroots := Call.isCell_of_accept haccepted
  obtain ⟨hsteps, hqueue, hbegun⟩ : Steps w w₁ ∧ w₁.queue = w.queue ∧
      b.Attended (b.seen before since) w.past [] { w₁ with settling := true } := by
    rcases Call.accept_eq_ok haccepted with ⟨k, value, graph, rfl, hstore, rfl⟩ |
      ⟨source, payload, found, rfl, -, rfl⟩
    · have hsteps : Steps w (World.begin { w with graph } (.wrote k value)) :=
        .head (.store hstore) (steps_begin _ _)
      refine ⟨hsteps, rfl, h.toStands.steps (hsteps.tail (.settling _ true)), rfl, [_], rfl,
        ⟨?_, trivial⟩, fun hlive => ⟨due_nil, .inr ?_⟩⟩
      · rintro ⟨-, id, inputs, heq⟩
        cases heq
      by_cases hsignal : k ∈ b.signals
      · exact .inr ⟨k, hsignal, List.mem_cons_self⟩
      · refine .inl ((h.toStands.resolve_eq hsteps hlive fun _ =>
          value_eq_of_settle hstore hsignal).trans ?_)
        exact hsees (h.watch.contains_before hsteps.follows hlive)
    · exact ⟨.refl, rfl, h.toStands.steps (.single (.settling _ true)), rfl, [], rfl, trivial,
        fun hlive => ⟨due_nil, .inr (.inl (hsees hlive))⟩⟩
  have hcells : ∀ cell ∈ call.change.roots, w₁.graph.OnlyEver (· = .cell) cell := fun cell hcell =>
    (hroots cell hcell).onlyEver.follows hsteps.follows
  obtain ⟨last, taken, hlast, hempty, ⟨since', hspan⟩, hdone⟩ := hsettles.upheld
    (Session.upholds_watch (tracks_leads session _)) (session.tracks_worksOn _)
    (fun _ => trivial) (hqueue.trans h.calm.2) hcells hbegun fun _ _ => trivial
  obtain ⟨since'', hattended, hsaw', hcurrent⟩ := hdone.current
  obtain rfl : since' = since'' := List.append_cancel_right (hspan.past_eq.symm.trans hattended)
  rw [hlast]
  refine ⟨hdone.toStands.steps (.head (.settling _ false) (.single (.host _ _ _))), ⟨rfl, hempty⟩,
    since' ++ since, ?_, hsaw.trans hsaw', fun hlive => ?_⟩
  · rw [List.append_assoc, ← heq]
    exact hattended
  · rw [seen_append]
    rcases (hcurrent hlive).2 with htodo | hsees | ⟨k, -, hopen⟩
    · exact absurd htodo List.not_mem_nil
    · exact hsees
    · rw [hspan.openWrites_eq_nil hempty] at hopen
      exact absurd hopen List.not_mem_nil

end InStep

/-- One state leads to another, in which the watch is in step if it was. -/
def Keeps (b : Watching) (w w' : World) : Prop :=
  Steps w w' ∧ ∀ before earlier, b.InStep before earlier w → b.InStep before earlier w'

theorem admits_keeps : Calls.all.Admits b.Keeps fun _ _ => True where
  refl _ := ⟨.refl, fun _ _ h => h⟩
  trans h h' := ⟨h.1.trans h'.1, fun before earlier hw => h'.2 before earlier (h.2 before earlier hw)⟩
  cut _ := trivial
  trans_cut _ _ := trivial
  act h hact := ⟨h.1.trans hact.any.steps, fun before earlier hw =>
    (h.2 before earlier hw).act hw.toStands hact⟩
  follows h := h.1.follows

/-- Whatever a script does, the watch is in step when it has ended. -/
theorem tracks_keeps (session : Session) (level : Nat) :
    Calls.all.Tracks (session.hooksAt level) b.Keeps fun _ _ => True := by
  -- Writing a cell and firing a source are both calls, so one argument serves them.
  have hrequest {level : Nat} (call : Call) {w w₁ : World} (hsteps : Steps w w₁)
      (haccepted : call.accept w = .ok w₁) : (request (session.hooksAt level) call.change).Leaves
        (fun _ w' => b.Keeps w w') (fun _ => True) w₁ := by
    have htaken := stepwise_request (session.hooksAt_stepwise level) call.change w₁
    refine leaves_of_eq (fun result w' heq => ⟨hsteps.trans (htaken.of_eq_some heq), ?_⟩)
      fun _ _ => trivial
    exact fun before earlier hw =>
      hw.settles haccepted ((Session.request_settles hw.calm haccepted).of_eq_some heq)
  refine Session.tracks_hooksAt session admits_keeps session.makes_all ?_ ?_ level
  · intro level w cell value graph hcell hstore
    exact hrequest _ (.head (.store hstore) (steps_begin _ _)) (Call.accept_set hcell hstore)
  · intro level w source payload found hfound
    exact hrequest (.fire source payload) .refl (Call.accept_fire hfound)

/-- Whatever the host does later, the watch stays in step. -/
theorem InStep.later (h : b.InStep before earlier w) (hlater : session.Later w w') :
    b.InStep before earlier w' := by
  induction hlater with
  | refl => exact h
  | tail _ hrun ih =>
    obtain ⟨level, script, result, hexec⟩ := hrun
    have hscript := script.makes_all.exec_tracked session (tracks_keeps (b := b) session level)
    exact ((hscript _).of_eq_some (session.advance_eq_of_execute_eq hexec)).2 before earlier ih

end Watching

end EffectGraph
