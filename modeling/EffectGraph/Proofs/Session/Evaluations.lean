import Mathlib
import EffectGraph.Proofs.Session.Attempts
import EffectGraph.Proofs.Session.Passes
import EffectGraph.Proofs.Session.Reachable

/-!
# What a pass evaluates

If computations and effects leave the session alone, then a pass over any graph that a session can
have is an orderly affair (`Visits.pass_evaluates_all_below`): every node below the roots is
evaluated exactly once, derived nodes after their derived inputs and watches after all of them, and a
node that fails stays as it was. A pass is taken apart into evaluations, each of which leads from one
state to the next.
-/

namespace EffectGraph

open Exec World

/-! ## Computations that leave the session alone -/

/-- The action ends, and changes nothing but the host's document and the journal. -/
def Exec.Quiet {α : Type} (x : Exec α) : Prop :=
  ∀ w, ∃ a document journal, x w = (some a, { w with document, journal })

namespace Exec

variable {α β : Type} {x : Exec α} {f : α → Exec β}

theorem quiet_pure (a : α) : Quiet (pure a) := fun w => ⟨a, w.document, w.journal, rfl⟩

theorem Quiet.bind (hx : x.Quiet) (hf : ∀ a, (f a).Quiet) : (x >>= f).Quiet := by
  intro w
  obtain ⟨a, document, journal, hfirst⟩ := hx w
  obtain ⟨b, document', journal', hsecond⟩ := hf a { w with document, journal }
  refine ⟨b, document', journal', ?_⟩
  rw [bind_eq_of_eq_some hfirst, hsecond]

theorem Quiet.leaves {Q : α → World → Prop} {E : World → Prop} (hx : x.Quiet) {w : World}
    (h : ∀ a document journal, x w = (some a, { w with document, journal }) →
      Q a { w with document, journal }) : x.Leaves Q E w := by
  obtain ⟨a, document, journal, heq⟩ := hx w
  unfold Leaves
  rw [heq]
  exact h a document journal heq

end Exec

/-- The request is about the host, and not about signals or sources. -/
def Request.IsHost : Request → Prop
  | .record _ | .createElement .. | .elementById _ | .element _ | .property .. | .setProperty ..
  | .textContent _ | .tags | .settings => True
  | _ => False

/-- The script makes no call to the session: it asks nobody but the host. -/
inductive Script.AsksHostOnly : Script → Prop where
  | done (result : Except Interrupt Value) : AsksHostOnly (.done result)
  | ask {request : Request} {next : request.Reply → Script} (hrequest : request.IsHost)
    (hnext : ∀ reply, AsksHostOnly (next reply)) : AsksHostOnly (.ask request next)

theorem Request.IsHost.quiet {request : Request} (h : request.IsHost) (session : Session) :
    (modifyGet (World.answer session request) : Exec request.Reply).Quiet := by
  intro w
  cases request with
  | setProperty id name value =>
    have hanswer : (modifyGet (World.answer session (.setProperty id name value)) : Exec _) w =
        (some (w.setProperty id name value).1, (w.setProperty id name value).2) := rfl
    rw [hanswer]
    unfold World.setProperty
    cases w.document.setProperty id name value with
    | error failure => exact ⟨_, _, _, rfl⟩
    | ok document => exact ⟨_, _, _, rfl⟩
  | record | createElement | elementById | element | property | textContent | tags | settings =>
    exact ⟨_, _, _, rfl⟩
  | _ => exact h.elim

/-- A script that makes no call to the session leaves it alone. -/
theorem Script.AsksHostOnly.quiet {script : Script} (h : script.AsksHostOnly) (session : Session)
    (hooks : Hooks) : (script.exec session hooks).Quiet := by
  induction h with
  | done result => exact quiet_pure _
  | ask hrequest _ ih => exact (hrequest.quiet session).bind fun reply => ih reply

namespace Session

variable {session : Session} {hooks : Hooks}

/-- Evaluating a node of the kind leaves the session alone. -/
def IsQuiet (session : Session) (hooks : Hooks) (kind : NodeKind) : Prop :=
  ∀ inputs, (computation session hooks kind inputs).Quiet

theorem isQuiet_derived {operands : List Value} {compute : List Value → Script}
    (h : ∀ inputs, (compute inputs).AsksHostOnly) :
    session.IsQuiet hooks (.derived operands compute) :=
  fun inputs => (h inputs).quiet session hooks

theorem isQuiet_watch {input : Value} {effect : Value → Script}
    (h : ∀ value, (effect value).AsksHostOnly) : session.IsQuiet hooks (.watch input effect) :=
  fun _ => ((h _).quiet session hooks).bind fun _ => quiet_pure _

end Session

/-! ## Evaluations -/

/-- From one state to another, the computation that a node has of its own gives the value of the node
for these inputs, or fails to; a watch has an effect instead, and its value is unit. -/
inductive NodeKind.Runs (session : Session) (hooks : Hooks) :
    NodeKind → List Value → World → Except Interrupt Value → World → Prop where
  | derived {operands inputs : List Value} {compute : List Value → Script} {w w' : World}
    {result : Except Interrupt Value}
    (hrun : (compute inputs).exec session hooks w = (some result, w')) :
    Runs session hooks (.derived operands compute) inputs w result w'
  | watch {input value : Value} {effect : Value → Script} {w w' : World}
    {result : Except Interrupt Value}
    (hrun : (effect value).exec session hooks w = (some result, w')) :
    Runs session hooks (.watch input effect) [value] w (result.map fun _ => .unit) w'

/-- What a node does with its inputs is what its own computation or effect does with them. -/
theorem NodeKind.runs_of_computation {session : Session} {hooks : Hooks} {graph : Graph}
    {kind : NodeKind} {inputs : List Value} {w w' : World} {result : Except Interrupt Value}
    (hcell : kind ≠ .cell) (hinputs : graph.inputsOf kind = .ok inputs)
    (h : Session.computation session hooks kind inputs w = (some result, w')) :
    kind.Runs session hooks inputs w result w' := by
  cases kind with
  | cell => exact absurd rfl hcell
  | derived operands compute => exact .derived h
  | watch input effect =>
    obtain ⟨value, -, rfl⟩ : ∃ value, graph.resolve input = .ok value ∧ [value] = inputs := by
      cases hvalue : graph.resolve input with
      | error failure => simp [Graph.inputsOf, hvalue, Except.map] at hinputs
      | ok value => exact ⟨value, rfl, by simpa [Graph.inputsOf, hvalue, Except.map] using hinputs⟩
    rcases hrun : (effect value).exec session hooks w with ⟨_ | given, ended⟩
    · have hnone : Session.computation session hooks (.watch input effect) [value] w =
          (none, ended) := bind_eq_of_eq_none hrun
      rw [hnone] at h
      cases h
    · have hsome : Session.computation session hooks (.watch input effect) [value] w =
          (some (given.map fun _ => .unit), ended) := bind_eq_of_eq_some hrun
      obtain ⟨hresult, rfl⟩ := Prod.mk.inj (hsome.symm.trans h)
      obtain rfl := Option.some.inj hresult
      exact .watch hrun

/-- The evaluation of a node. -/
structure Evaluation where
  id : SignalId
  /-- The node before it. -/
  node : Node
  /-- The state in which the computation of the node was started. -/
  start : World
  /-- What the computation was given. -/
  inputs : List Value
  /-- What the computation ended with. -/
  result : Except Interrupt Value
  /-- The state that the computation left. -/
  ended : World

namespace Evaluation

/-- The moment at which the computation was started. -/
def moment (e : Evaluation) : Moment := ⟨.evaluating e.id e.inputs, .of e.start.toScene⟩

/-- The node after it: a failed computation leaves it alone. -/
def after (e : Evaluation) : Node :=
  match e.result with
  | .ok value => Graph.settledNode value e.node
  | .error _ => e.node

/-- The failure that it is reported with. -/
def failure? (e : Evaluation) : Option Failure :=
  match e.result with
  | .ok _ => none
  | .error interrupt => some interrupt.toFailure

/-- What is reported of it: its failure, if it fails. -/
def reports (e : Evaluation) : List Entry :=
  e.failure?.toList.map fun failure => .event (.recomputationFailed e.id failure)

/-- What becomes of a graph. -/
def applied (e : Evaluation) (graph : Graph) : Graph :=
  match e.result with
  | .ok value => graph.modify e.id (Graph.settledNode value)
  | .error _ => graph

theorem sameWiring_applied (e : Evaluation) (graph : Graph) :
    Graph.SameWiring graph (e.applied graph) := by
  unfold applied
  split
  · exact Graph.sameWiring_modify graph e.id _
  · exact .refl graph

theorem node?_applied (e : Evaluation) {graph : Graph} (hnode : graph.node? e.id = some e.node)
    (k : SignalId) : (e.applied graph).node? k = if k = e.id then some e.after else graph.node? k := by
  unfold applied after
  by_cases hk : k = e.id
  · subst hk
    rw [if_pos rfl]
    split
    · rw [Graph.node?_modify, if_pos rfl, hnode]
      rfl
    · exact hnode
  · rw [if_neg hk]
    split
    · rw [Graph.node?_modify, if_neg hk]
    · rfl

/-- The evaluation took place as the session has it: the computation or effect that the node has was
started on the values of its inputs, it changed nothing but the host's document and the journal, and
its result was stored or reported. -/
structure Leads (session : Session) (hooks : Hooks) (e : Evaluation) (w w' : World) : Prop where
  start_eq : e.start = w
  node_eq : w.graph.node? e.id = some e.node
  inputs_eq : w.graph.inputsOf e.node.kind = .ok e.inputs
  ran : e.node.kind.Runs session hooks e.inputs (w.begin (.evaluating e.id e.inputs)) e.result e.ended
  past_eq : w'.past = e.moment :: w.past
  graph_eq : w'.graph = e.applied w.graph
  hub_eq : w'.hub = w.hub
  queue_eq : w'.queue = w.queue
  settling_eq : w'.settling = w.settling
  document_eq : w'.document = e.ended.document
  journal_eq : w'.journal = e.ended.journal ++ e.reports

end Evaluation

namespace Session

/-- Evaluations one after another lead from one state to another. -/
inductive Evaluates (session : Session) (hooks : Hooks) : World → List Evaluation → World → Prop where
  | nil (w : World) : Evaluates session hooks w [] w
  | cons {w w₁ w' : World} {e : Evaluation} {rest : List Evaluation}
    (first : e.Leads session hooks w w₁) (others : Evaluates session hooks w₁ rest w') :
    Evaluates session hooks w (e :: rest) w'

namespace Evaluates

variable {session : Session} {hooks : Hooks} {w w' : World} {es es' : List Evaluation}

theorem past_eq (h : session.Evaluates hooks w es w') :
    w'.past = (es.map (·.moment)).reverse ++ w.past := by
  induction h with
  | nil => rfl
  | cons first _ ih => simp [ih, first.past_eq]

theorem frame (h : session.Evaluates hooks w es w') :
    w'.hub = w.hub ∧ w'.queue = w.queue ∧ w'.settling = w.settling := by
  induction h with
  | nil => exact ⟨rfl, rfl, rfl⟩
  | cons first _ ih =>
    obtain ⟨hhub, hqueue, hsettling⟩ := ih
    exact ⟨hhub.trans first.hub_eq, hqueue.trans first.queue_eq,
      hsettling.trans first.settling_eq⟩

/-- Nodes that are not evaluated stay as they are. -/
theorem node?_of_notMem (h : session.Evaluates hooks w es w') {k : SignalId}
    (hk : k ∉ es.map (·.id)) : w'.graph.node? k = w.graph.node? k := by
  induction h with
  | nil => rfl
  | cons first _ ih =>
    rw [List.map_cons, List.mem_cons, not_or] at hk
    rw [ih hk.2, first.graph_eq, Evaluation.node?_applied _ first.node_eq, if_neg hk.1]

/-- What is known of one of the evaluations, if no node is evaluated twice. -/
theorem of_mem (h : session.Evaluates hooks w es w') (hnodup : (es.map (·.id)).Nodup)
    {e : Evaluation} (he : e ∈ es) :
    w.graph.node? e.id = some e.node ∧ w'.graph.node? e.id = some e.after ∧
      ∃ w₁, e.Leads session hooks e.start w₁ := by
  induction h with
  | nil => exact absurd he List.not_mem_nil
  | @cons w w₁ w' first' rest first others ih =>
    rw [List.map_cons, List.nodup_cons] at hnodup
    rcases List.mem_cons.1 he with rfl | he
    · have hafter := others.node?_of_notMem hnodup.1
      rw [first.graph_eq, Evaluation.node?_applied _ first.node_eq, if_pos rfl] at hafter
      refine ⟨first.node_eq, hafter, w₁, ?_⟩
      rw [first.start_eq]
      exact first
    · obtain ⟨hnode, hafter, hleads⟩ := ih hnodup.2 he
      have hne : e.id ≠ first'.id := fun heq =>
        hnodup.1 (heq ▸ List.mem_map_of_mem he)
      rw [first.graph_eq, Evaluation.node?_applied _ first.node_eq, if_neg hne] at hnode
      exact ⟨hnode, hafter, hleads⟩

/-- An evaluation finds the final state of all nodes that are evaluated neither by it nor later. -/
theorem node?_start (h : session.Evaluates hooks w es w') {before after : List Evaluation}
    {e : Evaluation} (hes : es = before ++ e :: after) {k : SignalId}
    (hk : k ∉ (e :: after).map (·.id)) : e.start.graph.node? k = w'.graph.node? k := by
  induction h generalizing before with
  | nil => simp at hes
  | @cons w w₁ w' first' rest first others ih =>
    cases before with
    | nil =>
      obtain ⟨rfl, rfl⟩ := List.cons.inj hes
      rw [first.start_eq]
      exact ((Evaluates.cons first others).node?_of_notMem hk).symm
    | cons _ before =>
      obtain ⟨-, rfl⟩ := List.cons.inj hes
      exact ih rfl

/-- Where derived nodes come after their inputs, an evaluation finds the final state of each of its
inputs that is no watch. -/
theorem node?_input (h : session.Evaluates hooks w es w') (hgraph : w.graph.WellFormed)
    (hnodup : (es.map (·.id)).Nodup)
    (hfirst : es.Pairwise fun a b => b.id ∈ a.node.inputs → b.node.kind.isWatch) {e : Evaluation}
    (he : e ∈ es) {p : SignalId} (hp : p ∈ e.node.inputs) {input : Node}
    (hinput : w.graph.node? p = some input) (hwatch : input.kind.isWatch = false) :
    e.start.graph.node? p = w'.graph.node? p := by
  have hnode {e : Evaluation} (he : e ∈ es) : w.graph.node? e.id = some e.node :=
    (h.of_mem hnodup he).1
  obtain ⟨before, after, rfl⟩ := List.append_of_mem he
  refine h.node?_start rfl fun hlate => ?_
  rw [List.map_cons, List.mem_cons] at hlate
  -- An input that is evaluated no earlier would be the node itself or a watch.
  rcases hlate with rfl | hlate
  · exact lt_irrefl _ (hgraph.inputs_older (hnode he) _ hp)
  · obtain ⟨e', he', rfl⟩ := List.mem_map.1 hlate
    have hfirst' := (List.pairwise_append.1 hfirst).2.1
    have hiswatch := (List.pairwise_cons.1 hfirst').1 e' he' hp
    obtain rfl := Option.some.inj
      (hinput.symm.trans (hnode (List.mem_append_right _ (List.mem_cons_of_mem _ he'))))
    rw [hwatch] at hiswatch
    cases hiswatch

end Evaluates

/-- Evaluating a node whose computation is quiet is an evaluation, and fails if that does. A failure
still has to be reported. -/
theorem evaluate_quiet {session : Session} {hooks : Hooks} {w : World} {id : SignalId} {node : Node}
    (hgraph : w.graph.WellFormed) (hwired : w.graph.Wired) (hnode : w.graph.node? id = some node)
    (hcell : node.kind ≠ .cell) (hquiet : session.IsQuiet hooks node.kind) :
    (evaluate session hooks id).Leaves (fun result w' => ∃ e : Evaluation, e.id = id ∧
      match result with
      | .ok () => e.failure? = none ∧ e.Leads session hooks w w'
      | .error failure => e.failure? = some failure ∧
        e.Leads session hooks w (w'.report (.recomputationFailed id failure)))
      (fun _ => False) w := by
  have hcomputed : node.kind.isCell = false := by
    cases hkind : node.kind with
    | cell => exact absurd hkind hcell
    | derived | watch => rfl
  refine evaluate_leaves hgraph hwired hnode hcomputed fun inputs hinputs => ?_
  refine (hquiet inputs).leaves fun result document journal hresult => ?_
  have hran := NodeKind.runs_of_computation hcell hinputs hresult
  let ended : World := { w.begin (.evaluating id inputs) with document, journal }
  cases result with
  | error interrupt =>
    refine leaves_pure.2 ⟨⟨id, node, w, inputs, .error interrupt, ended⟩, rfl, rfl, ?_⟩
    exact ⟨rfl, hnode, hinputs, hran, rfl, rfl, rfl, rfl, rfl, rfl, rfl⟩
  | ok value =>
    refine settleNode_leaves (fun graph hstore => ?_) fun failure hgone => ?_
    · obtain ⟨-, rfl⟩ := Graph.settle_eq_ok.1 hstore
      refine ⟨⟨id, node, w, inputs, .ok value, ended⟩, rfl, rfl, ?_⟩
      exact ⟨rfl, hnode, hinputs, hran, rfl, rfl, rfl, rfl, rfl, rfl, rfl⟩
    · exact absurd hgone (Graph.node_ne_error hnode)

/-- Evaluating nodes whose computations are quiet is one evaluation after another. -/
theorem evaluateAll_quiet {session : Session} {hooks : Hooks} {ids : List SignalId} {w : World}
    (hgraph : w.graph.WellFormed) (hwired : w.graph.Wired)
    (hids : ∀ id ∈ ids, ∃ node, w.graph.node? id = some node ∧ node.kind ≠ .cell ∧
      session.IsQuiet hooks node.kind) :
    (evaluateAll session hooks ids).Leaves (fun failures w' => ∃ es : List Evaluation,
      es.map (·.id) = ids ∧ session.Evaluates hooks w es w' ∧
        failures = es.filterMap (·.failure?)) (fun _ => False) w := by
  induction ids generalizing w with
  | nil => exact leaves_pure.2 ⟨[], rfl, .nil w, rfl⟩
  | cons id rest ih =>
    obtain ⟨node, hnode, hcell, hquiet⟩ := hids id List.mem_cons_self
    refine leaves_bind.2 (leaves_get.2 ?_)
    rw [if_pos (Graph.contains_iff.2 ⟨node, hnode⟩)]
    refine leaves_bind.2 ((evaluate_quiet hgraph hwired hnode hcell hquiet).mono ?_)
    rintro result w₁ ⟨e, rfl, hevaluated⟩
    have hrest {w₂ : World} (hfirst : e.Leads session hooks w w₂) :
        (evaluateAll session hooks rest).Leaves (fun failures w' => ∃ es : List Evaluation,
          es.map (·.id) = rest ∧ session.Evaluates hooks w (e :: es) w' ∧
            failures = es.filterMap (·.failure?)) (fun _ => False) w₂ := by
      have hsame : Graph.SameWiring w.graph w₂.graph := by
        rw [hfirst.graph_eq]
        exact e.sameWiring_applied w.graph
      refine (ih (hgraph.of_wiring hsame) (hwired.of_wiring hsame) fun k hk => ?_).mono ?_
      · obtain ⟨old, hold, hcell, hquiet⟩ := hids k (List.mem_cons_of_mem _ hk)
        obtain ⟨new, hnew, hkind, -⟩ := hsame.symm.node? hold
        exact ⟨new, hnew, hkind ▸ hcell, hkind ▸ hquiet⟩
      · rintro failures w' ⟨es, hes, hothers, hfailures⟩
        exact ⟨es, hes, .cons hfirst hothers, hfailures⟩
    cases result with
    | ok _ =>
      obtain ⟨hfailure, hleads⟩ := hevaluated
      refine (hrest hleads).mono ?_
      rintro failures w' ⟨es, rfl, hall, rfl⟩
      exact ⟨e :: es, rfl, hall, by simp [hfailure]⟩
    | error failure =>
      obtain ⟨hfailure, hleads⟩ := hevaluated
      refine leaves_bind.2 (leaves_modify.2 (leaves_bind.2 ((hrest hleads).mono ?_)))
      rintro failures w' ⟨es, rfl, hall, rfl⟩
      exact leaves_pure.2 ⟨e :: es, rfl, hall, by simp [hfailure]⟩

/-! ## Passes -/

theorem isWatch_of_node? {graph : Graph} {id : SignalId} {node : Node}
    (hnode : graph.node? id = some node) : isWatch graph id = node.kind.isWatch := by
  simp [isWatch, hnode]

/-- In the order of a pass watches come last, and no derived node comes after a node that it is an
input of. -/
theorem pairwise_order {graph : Graph} (hgraph : graph.WellFormed) (roots : List SignalId) :
    (passOrder graph roots).Pairwise fun a b => (isWatch graph a → isWatch graph b) ∧
      ∀ node, graph.node? a = some node → b ∈ node.inputs → isWatch graph b := by
  have hplan := Graph.plan_pairwise graph roots
  rw [passOrder, List.pairwise_append]
  refine ⟨?_, ?_, ?_⟩
  · refine (hplan.filter _).imp_of_mem fun {a b} ha _ hrank => ⟨fun hwatch => ?_, ?_⟩
    · have hderived := (List.mem_filter.1 ha).2
      rw [hwatch] at hderived
      cases hderived
    · intro node hnode hinput
      have hlt := hgraph.rank_lt_of_feeds (hgraph.feeds_of_mem_inputs hnode hinput)
      omega
  · refine (hplan.filter _).imp_of_mem fun {a b} _ hb _ => ?_
    have hwatch := (List.mem_filter.1 hb).2
    exact ⟨fun _ => hwatch, fun _ _ _ => hwatch⟩
  · intro a _ b hb
    have hwatch := (List.mem_filter.1 hb).2
    exact ⟨fun _ => hwatch, fun _ _ _ => hwatch⟩

/-- What a pass from some cells amounts to. -/
structure IsPass (session : Session) (hooks : Hooks) (roots : List SignalId) (w : World)
    (evaluations : List Evaluation) (w' : World) : Prop where
  /-- No node is evaluated twice. -/
  once : (evaluations.map (·.id)).Nodup
  /-- The nodes below the roots are evaluated, and no others. -/
  all : ∀ id, id ∈ evaluations.map (·.id) ↔ w.graph.Below roots id
  /-- The pass is reported and begins, and each evaluation starts where the one before it has ended. -/
  ran : session.Evaluates hooks ((w.report (passEvent w.graph roots)).begin (.propagating roots))
    evaluations w'
  /-- Nothing else happens once the pass has begun. -/
  noted : ∃ scene, w'.past =
    (evaluations.map (·.moment)).reverse ++ ⟨.propagating roots, scene⟩ :: w.past
  /-- Watches come after derived nodes. -/
  watches_last : evaluations.Pairwise fun a b => a.node.kind.isWatch → b.node.kind.isWatch
  /-- No derived node comes after a node that it is an input of. -/
  inputs_first : evaluations.Pairwise fun a b => b.id ∈ a.node.inputs → b.node.kind.isWatch
  /-- A computation starts when its inputs, but for watches, are as the pass leaves them. -/
  inputs_final : ∀ e ∈ evaluations, ∀ p ∈ e.node.inputs, ∀ input, w.graph.node? p = some input →
    input.kind.isWatch = false → e.start.graph.node? p = w'.graph.node? p
  /-- A computed node has its new value and counts one more evaluation; a failed one is as it was. -/
  evaluated : ∀ e ∈ evaluations, w.graph.node? e.id = some e.node ∧
    w'.graph.node? e.id = some e.after
  /-- All other nodes stay as they are. -/
  kept : ∀ id, ¬ w.graph.Below roots id → w'.graph.node? id = w.graph.node? id
  /-- So does the rest of the session. -/
  frame : w'.hub = w.hub ∧ w'.queue = w.queue ∧ w'.settling = w.settling

/-- A pass of quiet computations over a well-formed graph ends, and is what a pass should be. -/
theorem propagate_quiet {session : Session} {hooks : Hooks} {roots : List SignalId} {w : World}
    (hgraph : w.graph.WellFormed) (hwired : w.graph.Wired) (hne : roots ≠ [])
    (hroots : ∀ r ∈ roots, w.graph.IsCell r)
    (hquiet : ∀ id node, w.graph.Below roots id → w.graph.node? id = some node →
      session.IsQuiet hooks node.kind) :
    (propagate session hooks roots).Leaves (fun failures w' => ∃ evaluations : List Evaluation,
      failures = evaluations.filterMap (·.failure?) ∧
        session.IsPass hooks roots w evaluations w') (fun _ => False) w := by
  have hplan (id : SignalId) : id ∈ w.graph.plan roots ↔ w.graph.Below roots id :=
    Graph.mem_plan_of_cells hgraph fun r hr => (hroots r hr).onlyEver
  have hpartition : (passOrder w.graph roots).Perm (w.graph.plan roots) :=
    List.perm_append_comm.trans (List.filter_append_perm _ _)
  have hmem (id : SignalId) : id ∈ passOrder w.graph roots ↔ w.graph.Below roots id := by
    rw [hpartition.mem_iff, hplan]
  have hids : ∀ id ∈ passOrder w.graph roots, ∃ node, w.graph.node? id = some node ∧
      node.kind ≠ .cell ∧ session.IsQuiet hooks node.kind := by
    intro id hid
    have hbelow := (hmem id).1 hid
    obtain ⟨node, hnode, hkind⟩ := hgraph.node?_of_below hbelow
    exact ⟨node, hnode, hkind, hquiet id node hbelow hnode⟩
  refine propagate_leaves (fun h => absurd h hne) fun _ => ?_
  have hrun : (evaluateAll session hooks (passOrder w.graph roots)).Leaves _ _
      ((w.report (passEvent w.graph roots)).begin (.propagating roots)) :=
    evaluateAll_quiet hgraph hwired hids
  refine hrun.mono ?_
  rintro failures w' ⟨es, hids, hran, hfailures⟩
  have hnodup : (es.map (·.id)).Nodup := by
    rw [hids]
    exact hpartition.nodup_iff.2 (Graph.plan_nodup w.graph roots)
  have hnode {e : Evaluation} (he : e ∈ es) : w.graph.node? e.id = some e.node :=
    (hran.of_mem hnodup he).1
  -- The evaluations come in the order of the pass.
  have horder := pairwise_order hgraph roots
  rw [← hids, List.pairwise_map] at horder
  have hlast : es.Pairwise fun a b => a.node.kind.isWatch → b.node.kind.isWatch := by
    refine horder.imp_of_mem fun ha hb hab => ?_
    rw [isWatch_of_node? (hnode ha), isWatch_of_node? (hnode hb)] at hab
    exact hab.1
  have hfirst : es.Pairwise fun a b => b.id ∈ a.node.inputs → b.node.kind.isWatch := by
    refine horder.imp_of_mem fun ha hb hab hinput => ?_
    rw [isWatch_of_node? (hnode hb)] at hab
    exact hab.2 _ (hnode ha) hinput
  refine ⟨es, hfailures, hnodup, fun id => by rw [hids, hmem], hran, ⟨_, hran.past_eq⟩, hlast,
    hfirst, ?_, ?_, ?_, hran.frame⟩
  · intro e he p hp input hinput hwatch
    exact hran.node?_input hgraph hnodup hfirst he hp hinput hwatch
  · intro e he
    obtain ⟨hbefore, hafter, -⟩ := hran.of_mem hnodup he
    exact ⟨hbefore, hafter⟩
  · intro id hid
    refine hran.node?_of_notMem ?_
    rw [hids, hmem]
    exact hid

/-- **A pass evaluates all below its roots once.** Take any graph that a session can have, now or at
any moment of its past, and some of its cells. If the computations and effects below them leave the
session alone, a pass from the cells ends. It has then evaluated each of the nodes below them exactly
once and no other, in an order in which derived nodes come after their derived inputs and watches
come last. It reports the failures in the order of the evaluations. -/
theorem Visits.pass_evaluates_all_below {session : Session} {visited : World}
    (h : session.Visits visited) {scene : Scene}
    (hscene : scene = visited.toScene ∨ ∃ m ∈ visited.past, scene = m.scene.value)
    {hooks : Hooks} {roots : List SignalId} {w : World} (hgraph : w.graph = scene.graph)
    (hne : roots ≠ []) (hroots : ∀ r ∈ roots, w.graph.IsCell r)
    (hquiet : ∀ id node, w.graph.Below roots id → w.graph.node? id = some node →
      session.IsQuiet hooks node.kind) :
    ∃ evaluations w', propagate session hooks roots w =
        (some (evaluations.filterMap (·.failure?)), w') ∧
      session.IsPass hooks roots w evaluations w' := by
  have hwell : w.graph.WellFormed := by
    rw [hgraph]
    exact (h.wellFormed_scene hscene).graph
  have hwired : w.graph.Wired := by
    rw [hgraph]
    exact h.wired hscene
  obtain ⟨failures, w', hrun, evaluations, rfl, hpass⟩ :=
    (propagate_quiet hwell hwired hne hroots hquiet).exists
  exact ⟨evaluations, w', hrun, hpass⟩

/-- Two signals derived from a cell, and a watch of both. The second one fails on the value that the
cell is set to in the end. -/
private def diamond : Script :=
  .ask (.cell (.bool false)) fun (cell : SignalId) =>
  .derive [.signal cell] (fun inputs => .done (.ok (.list inputs))) fun left =>
  .derive [.signal cell] (fun
    | [.bool true] => .done (.error (.raised .unit))
    | inputs => .done (.ok (.list inputs))) fun right =>
  match left, right with
  | .ok left, .ok right =>
    .watch (.list [left, right]) (fun _ => .done (.ok .unit)) fun _ =>
    .set cell (.bool true) fun _ => .done (.ok .unit)
  | _, _ => .done (.ok .unit)

/-- What the script has got to when it sets the cell. -/
private theorem diamond_run : ∃ w, advance {} 0 diamond {} = (none, w) ∧
    w.graph.value ⟨0⟩ = .ok (.bool true) ∧ w.graph.IsCell ⟨0⟩ ∧ w.graph.Below [⟨0⟩] ⟨3⟩ ∧
      ∀ id node, w.graph.node? id = some node → IsQuiet {} (hooksAt {} 0) node.kind := by
  rcases hrun : advance {} 0 diamond {} with ⟨result, w⟩
  cbv at hrun
  obtain ⟨rfl, rfl⟩ := Prod.mk.inj hrun
  refine ⟨_, rfl, rfl, ⟨_, rfl, rfl⟩, ⟨⟨0⟩, List.mem_cons_self, ?_⟩, fun id node hnode => ?_⟩
  · refine .tail (b := ⟨1⟩) (.single ?_) ?_
    · exact Graph.feeds_iff.2 ⟨_, rfl, .head _⟩
    · exact Graph.feeds_iff.2 ⟨_, rfl, .head _⟩
  · have hslot := Graph.mem_slots_of_node? hnode
    simp only [List.mem_cons, List.not_mem_nil, or_false, Option.some.injEq] at hslot
    rcases hslot with rfl | rfl | rfl | rfl
    · exact fun _ => quiet_pure _
    · exact isQuiet_derived fun inputs => .done _
    · refine isQuiet_derived fun inputs => ?_
      split
      · exact .done _
      · exact .done _
    · exact isQuiet_watch fun value => .done _

theorem Visits.pass_evaluates_all_below_diamond : ∃ visited evaluations w', Visits {} visited ∧
    visited.graph.value ⟨0⟩ = .ok (.bool true) ∧
    propagate {} (hooksAt {} 0) [⟨0⟩] visited = (some (evaluations.filterMap (·.failure?)), w') ∧
      IsPass {} (hooksAt {} 0) [⟨0⟩] visited evaluations w' ∧ ⟨3⟩ ∈ evaluations.map (·.id) := by
  obtain ⟨w, hrun, hvalue, hcell, hbelow, hquiet⟩ := diamond_run
  have hvisits : Visits {} w := ⟨{}, 0, diamond, .start .empty #[], by rw [hrun]⟩
  have hroots : ∀ r ∈ [SignalId.mk 0], w.graph.IsCell r :=
    fun r hr => List.mem_singleton.1 hr ▸ hcell
  obtain ⟨evaluations, w', hpass, his⟩ := Visits.pass_evaluates_all_below hvisits (.inl rfl)
    rfl (List.cons_ne_nil _ _) hroots fun id node _ hnode => hquiet id node hnode
  exact ⟨w, evaluations, w', hvisits, hvalue, hpass, his, (his.all _).2 hbelow⟩

end Session

end EffectGraph
