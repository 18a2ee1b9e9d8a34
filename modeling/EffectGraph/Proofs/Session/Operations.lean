import Mathlib
import EffectGraph.Proofs.Session.Batches
import EffectGraph.Proofs.Session.Dispatching
import EffectGraph.Proofs.Session.Evaluations

/-!
# Calls that come to nothing

A call may name a signal or a source that is not there, or ask for a signal to be written that is no
cell. Such a call is refused before anything has happened. A call that adds a node may fail later
than that: the node is there already, and tied to its inputs, when its first evaluation fails. Then
the node goes again, and nothing is left of it. `Reachable.failed_operation_undone` says both of every
state that a session can be in, also of those in the middle of a batch.
-/

namespace EffectGraph

open Exec World

/-! ## Operations -/

/-- What host code can ask of a session. -/
inductive Operation where
  | set (cell : SignalId) (value : Value)
  | tearDown (id : SignalId)
  | derive (operands : List Value) (compute : List Value → Script)
  | watch (input : Value) (effect : Value → Script)
  | fire (source : SourceId) (payload : Value)
  | fold (source : SourceId) (initial : Value) (reducer : Value → Value → Script)
  | foldM (source : SourceId) (initial : Program) (reducer : Value → Value → Program)
  | listen (source : SourceId) (listener : Value → Script)
  | merge (left right : SourceId)

namespace Operation

/-- The script ends with what a call has replied. -/
def ending {α : Type} (value : α → Value) (reply : Except Failure α) : Script :=
  .done ((reply.map value).mapError .ofFailure)

/-- The script that makes the call and ends with its reply. -/
def script : Operation → Script
  | .set cell value => .set cell value (ending fun () => .unit)
  | .tearDown id => .ask (.tearDown id) (ending fun _ => .unit)
  | .derive operands compute => .derive operands compute .done
  | .watch input effect =>
    .watch input effect fun reply => .done (reply.map fun id => (id.map .signal).getD .unit)
  | .fire source payload => .fire source payload (ending fun () => .unit)
  | .fold source initial reducer => .fold source initial reducer (ending .signal)
  | .foldM source initial reducer => .foldM source initial reducer (ending .signal)
  | .listen source listener => .listen source listener (ending fun () => .unit)
  | .merge left right => .ask (.merge left right) (ending .source)

/-- The signals that the call names, in the order in which they are looked up. -/
def signals : Operation → List SignalId
  | .set cell _ => [cell]
  | .tearDown id => [id]
  | .derive operands _ => Value.dependencies operands
  | .watch input _ => input.collectSignals []
  | _ => []

/-- The sources that the call names, in the order in which they are looked up. -/
def sources : Operation → List SourceId
  | .fire source _ | .fold source .. | .foldM source .. | .listen source _ => [source]
  | .merge left right => [left, right]
  | _ => []

/-- The signals that the call is to write. -/
def written : Operation → List SignalId
  | .set cell _ => [cell]
  | _ => []

/-- What the call asks for that cannot be had: a signal that is not there, a source that is not there,
or a cell where there is none. -/
def refusal? (op : Operation) (scene : Scene) : Option Failure :=
  ((op.signals.find? fun id => !scene.graph.contains id).map .unknownSignal).or <|
  ((op.sources.find? fun id => scene.hub.sources.size ≤ id.index).map .unknownSource).or <|
  (op.written.find? fun id => !(scene.graph.node? id).any (·.kind.isCell)).map .notWritable

/-- The call evaluates something at once, and on the values of now the evaluation asks nobody but the
host. -/
def EvaluatesAside (graph : Graph) : Operation → Prop
  | .derive operands compute =>
    ∀ inputs, operands.mapM graph.resolve = .ok inputs → (compute inputs).AsksHostOnly
  | .watch input effect => ∀ value, graph.resolve input = .ok value → (effect value).AsksHostOnly
  | _ => False

end Operation

/-! ## Refusals -/

namespace Graph

/-- The first input that does not exist is what a node cannot be added for. -/
theorem insert_eq_error {graph : Graph} {inputs : List SignalId} {id : SignalId}
    (hmissing : inputs.find? (fun id => !graph.contains id) = some id) (kind : NodeKind) :
    graph.insert kind inputs = .error (.unknownSignal id) := by
  have hrank (start : Nat) : inputs.foldlM (fun rank id =>
      (graph.node id).map fun node => max rank (node.rank + 1)) start =
        .error (.unknownSignal id) := by
    induction inputs generalizing start with
    | nil => cases hmissing
    | cons input rest ih =>
      rw [List.foldlM_cons]
      cases hnode : graph.node? input with
      | none =>
        have hfirst : input = id := by
          simpa [List.find?_cons, contains, hnode] using hmissing
        rw [node_eq_error.2 ⟨hnode, rfl⟩, hfirst]
        rfl
      | some node =>
        rw [node_eq_ok.2 hnode]
        refine ih ?_ (max start (node.rank + 1))
        simpa [List.find?_cons, contains, hnode] using hmissing
  have habove : graph.rankAbove inputs = .error (.unknownSignal id) := hrank 0
  unfold insert
  rw [habove]
  rfl

end Graph

theorem Hub.exists_get {hub : Hub} {id : SourceId} (h : ¬ hub.sources.size ≤ id.index) :
    ∃ source, hub.get id = .ok source :=
  ⟨hub.sources[id.index], Hub.get_eq_ok.2 (Array.getElem?_eq_getElem (by omega))⟩

namespace Operation

variable {w : World} {failure : Failure}

/-- A source that a call names alone is there, or the call is refused. -/
private theorem get_of_refused {source : SourceId}
    (h : ([source].find? fun id => w.hub.sources.size ≤ id.index).map Failure.unknownSource =
      some failure) : w.hub.get source = .error failure := by
  by_cases hsource : w.hub.sources.size ≤ source.index
  · obtain rfl : Failure.unknownSource source = failure := by simpa [hsource] using h
    exact Hub.get_eq_error hsource
  · simp [hsource] at h

/-- A signal that a call names alone is there, or the call is refused. -/
private theorem node_of_refused {id : SignalId}
    (h : ([id].find? fun id => !w.graph.contains id).map Failure.unknownSignal = some failure) :
    w.graph.node id = .error failure := by
  by_cases hid : w.graph.contains id
  · simp [hid] at h
  · obtain rfl : Failure.unknownSignal id = failure := by simpa [hid] using h
    exact Graph.node_eq_error.2 ⟨by simpa [Graph.contains] using hid, rfl⟩

/-- No node is added below a signal that is not there. -/
private theorem create_of_refused {inputs : List SignalId} {kind : NodeKind}
    {compute : List Value → Exec (Except Interrupt Value)}
    {Q : Except Interrupt SignalId → World → Prop} {E : World → Prop}
    (h : (inputs.find? fun id => !w.graph.contains id).map Failure.unknownSignal = some failure)
    (hQ : Q (.error (.ofFailure failure)) w) : (create kind inputs compute).Leaves Q E w := by
  obtain ⟨id, hmissing, rfl⟩ := Option.map_eq_some_iff.1 h
  have hrefused := Graph.insert_eq_error hmissing kind
  refine create_leaves (fun failure hfailed => ?_) fun id' graph hinsert => ?_
  · obtain rfl := Except.error.inj (hrefused.symm.trans hfailed)
    exact hQ
  · cases hrefused.symm.trans hinsert

/-- Two sources are merged if both are there. -/
private theorem merge_of_refused {left right : SourceId}
    (h : ([left, right].find? fun id => w.hub.sources.size ≤ id.index).map Failure.unknownSource =
      some failure) : w.merge left right = (.error failure, w) := by
  have hmerge : w.hub.merge left right = .error failure := by
    by_cases hleft : w.hub.sources.size ≤ left.index
    · obtain rfl : Failure.unknownSource left = failure := by simpa [hleft] using h
      simp only [Hub.merge, Hub.get_eq_error hleft]
      rfl
    · obtain ⟨leftSource, hget⟩ := Hub.exists_get hleft
      rw [List.find?_cons_of_neg (by simpa using hleft)] at h
      simp only [Hub.merge, hget, get_of_refused h]
      rfl
  simp only [World.merge, hmerge]

/-- A signal is written if it is there and is a cell. -/
private theorem accept_of_refused {cell : SignalId} {value : Value}
    (h : (Operation.set cell value).refusal? w.toScene = some failure) :
    (Call.set cell value).accept w = .error failure := by
  cases hnode : w.graph.node cell with
  | error other =>
    obtain ⟨hnone, rfl⟩ := Graph.node_eq_error.1 hnode
    obtain rfl : Failure.unknownSignal cell = failure := by
      simpa [refusal?, signals, Graph.contains, hnone] using h
    simp only [Call.accept, hnode]
  | ok node =>
    have hsome := Graph.node_eq_ok.1 hnode
    by_cases hcell : node.kind.isCell = true
    · simp [refusal?, signals, sources, written, Graph.contains, hsome, hcell] at h
    · obtain rfl : Failure.notWritable cell = failure := by
        simpa [refusal?, signals, sources, written, Graph.contains, hsome, hcell] using h
      simp only [Call.accept, hnode, if_neg hcell]

/-- What runs from here ends with the failure, and the state is what it was. -/
private def Refuses {α : Type} (x : Exec (Except Interrupt α)) (failure : Failure) (w : World) :
    Prop :=
  x.Leaves (fun outcome w' => outcome = .error (.ofFailure failure) ∧ w' = w) (fun _ => False) w

/-- A call that only looks up one source is refused for that source. -/
private theorem source_of_refused {op : Operation} {source : SourceId}
    (hsignals : op.signals = []) (hsources : op.sources = [source]) (hwritten : op.written = [])
    (h : op.refusal? w.toScene = some failure) : w.hub.get source = .error failure :=
  get_of_refused (by simpa [refusal?, hsignals, hsources, hwritten] using h)

/-- A call that only reads signals is refused for the first of them that is not there. -/
private theorem signals_of_refused {op : Operation} (hsources : op.sources = [])
    (hwritten : op.written = []) (h : op.refusal? w.toScene = some failure) :
    (op.signals.find? fun id => !w.graph.contains id).map Failure.unknownSignal = some failure := by
  simpa [refusal?, hsources, hwritten] using h

private theorem set_refuses {session : Session} {hooks : Hooks} {cell : SignalId} {value : Value}
    (h : (Operation.set cell value).refusal? w.toScene = some failure) :
    Refuses ((Operation.set cell value).script.exec session hooks) failure w := by
  have haccept := accept_of_refused h
  refine leaves_bind.2 (Call.exec_leaves (.set cell value) (fun other hrefused => ?_)
    fun w₁ haccepted => ?_)
  · obtain rfl := Except.error.inj (hrefused.symm.trans haccept)
    exact leaves_pure.2 ⟨rfl, rfl⟩
  · cases haccept.symm.trans haccepted

private theorem tearDown_refuses {session : Session} {hooks : Hooks} {id : SignalId}
    (h : (Operation.tearDown id).refusal? w.toScene = some failure) :
    Refuses ((Operation.tearDown id).script.exec session hooks) failure w := by
  have hnode : w.graph.node id = .error failure := node_of_refused (signals_of_refused rfl rfl h)
  have hanswer : w.tearDown id = (.error failure, w) := by
    simp only [World.tearDown, World.removeSignal, Graph.remove, hnode]
    rfl
  refine leaves_bind.2 (leaves_modifyGet.2 ?_)
  change ((ending _ (w.tearDown id).1).exec session hooks).Leaves _ _ (w.tearDown id).2
  rw [hanswer]
  exact leaves_pure.2 ⟨rfl, rfl⟩

private theorem derive_refuses {session : Session} {hooks : Hooks} {operands : List Value}
    {compute : List Value → Script}
    (h : (Operation.derive operands compute).refusal? w.toScene = some failure) :
    Refuses ((Operation.derive operands compute).script.exec session hooks) failure w := by
  have hmissing : ((Value.dependencies operands).find? fun id => !w.graph.contains id).map
      Failure.unknownSignal = some failure := signals_of_refused rfl rfl h
  refine leaves_bind.2 ?_
  unfold Exec.derive
  split
  · rename_i hnone
    simp [hnone] at hmissing
  · refine leaves_bind.2 (create_of_refused hmissing ?_)
    exact leaves_pure.2 (leaves_pure.2 ⟨rfl, rfl⟩)

private theorem watch_refuses {session : Session} {hooks : Hooks} {input : Value}
    {effect : Value → Script}
    (h : (Operation.watch input effect).refusal? w.toScene = some failure) :
    Refuses ((Operation.watch input effect).script.exec session hooks) failure w := by
  have hmissing : ((input.collectSignals []).find? fun id => !w.graph.contains id).map
      Failure.unknownSignal = some failure := signals_of_refused rfl rfl h
  have hreactive : input.isReactive = true := by
    by_contra hplain
    have hnone : input.handles = [] :=
      Value.isReactive_eq_false_iff.1 (Bool.eq_false_iff.2 hplain)
    simp [Value.collectSignals, hnone] at hmissing
  refine leaves_bind.2 ?_
  unfold Exec.watch
  rw [if_pos hreactive]
  refine leaves_bind.2 (create_of_refused hmissing ?_)
  exact leaves_pure.2 (leaves_pure.2 ⟨rfl, rfl⟩)

private theorem merge_refuses {session : Session} {hooks : Hooks} {left right : SourceId}
    (h : (Operation.merge left right).refusal? w.toScene = some failure) :
    Refuses ((Operation.merge left right).script.exec session hooks) failure w := by
  have hanswer := merge_of_refused (by simpa [refusal?, signals, sources, written] using h)
  refine leaves_bind.2 (leaves_modifyGet.2 ?_)
  change ((ending _ (w.merge left right).1).exec session hooks).Leaves _ _ (w.merge left right).2
  rw [hanswer]
  exact leaves_pure.2 ⟨rfl, rfl⟩

/-- A refused call ends with the refusal, whatever it carries, and the state is what it was. -/
theorem exec_of_refused (op : Operation) (session : Session) (hooks : Hooks)
    (h : op.refusal? w.toScene = some failure) :
    op.script.exec session hooks w = (some (.error (.ofFailure failure)), w) := by
  have hleaves : Refuses (op.script.exec session hooks) failure w := by
    cases op with
    | set cell value => exact set_refuses h
    | tearDown id => exact tearDown_refuses h
    | derive operands compute => exact derive_refuses h
    | watch input effect => exact watch_refuses h
    | fire source payload =>
      refine leaves_bind.2 (leaves_bind.2 (leaves_get.2 ?_))
      rw [source_of_refused rfl rfl rfl h]
      exact leaves_pure.2 (leaves_pure.2 ⟨rfl, rfl⟩)
    | fold source initial reducer =>
      refine leaves_bind.2 (leaves_bind.2 (leaves_get.2 ?_))
      rw [source_of_refused rfl rfl rfl h]
      exact leaves_pure.2 (leaves_pure.2 ⟨rfl, rfl⟩)
    | foldM source initial reducer =>
      refine leaves_bind.2 (leaves_modifyGet.2 ?_)
      simp only [World.answer, source_of_refused rfl rfl rfl h]
      exact leaves_pure.2 ⟨rfl, rfl⟩
    | listen source listener =>
      have hget : w.hub.get source = .error failure := source_of_refused rfl rfl rfl h
      have hsubscribe : w.hub.subscribe source (.listener listener) = .error failure := by
        simp [Hub.subscribe, hget, Except.map]
      refine leaves_bind.2 (subscribe_leaves (fun hub hsubscribed => ?_) fun other hfailed => ?_)
      · cases hsubscribe.symm.trans hsubscribed
      · obtain rfl := Except.error.inj (hsubscribe.symm.trans hfailed)
        exact leaves_pure.2 ⟨rfl, rfl⟩
    | merge left right => exact merge_refuses h
  obtain ⟨outcome, w', hexec, rfl, rfl⟩ := hleaves.exists
  exact hexec

end Operation

/-! ## First evaluations that fail -/

/-- Of the session nothing is different but its past, the journal and the host's document, and a slot
may have been used up. At most one thing has begun since: the first evaluation of the node that would
have taken the next slot. -/
structure World.Undone (w w' : World) : Prop where
  nodes : ∀ id, w'.graph.node? id = w.graph.node? id
  live_eq : w'.graph.live = w.graph.live
  hub_eq : w'.hub = w.hub
  queue_eq : w'.queue = w.queue
  settling_eq : w'.settling = w.settling
  past_eq : w'.past = w.past ∨ ∃ inputs scene,
    w'.past = ⟨.evaluating ⟨w.graph.mark⟩ inputs, scene⟩ :: w.past

theorem World.undone_host (w : World) (document : Document) (journal : Array Entry) :
    w.Undone { w with document, journal } := ⟨fun _ => rfl, rfl, rfl, rfl, rfl, .inl rfl⟩

namespace Graph

variable {graph graph' : Graph} {id : SignalId} {node : Node}

/-- When a node that was just added is removed, no other node goes. -/
theorem Grows.length_subtree (hg : Grows graph graph' id node) (h' : graph'.WellFormed) :
    (graph'.subtree id).length = 1 := by
  have hlength := (removable_subtree h' hg.contains_self).length_liveIds
  rw [hg.liveIds_erase_subtree h', hg.liveIds_eq, List.length_append, List.length_singleton]
    at hlength
  omega

/-- When a node that was just added is removed, all others are as they were. -/
theorem Grows.node?_erase_subtree (hg : Grows graph graph' id node) (h : graph.WellFormed)
    (h' : graph'.WellFormed) (k : SignalId) :
    (graph'.erase (graph'.subtree id)).node? k = graph.node? k := by
  have hself : id ∈ graph'.subtree id := (mem_subtree h').2 (.inl rfl)
  have hstays {p : SignalId} {old : Node} (hold : graph.node? p = some old) :
      p ∉ graph'.subtree id := by
    intro hmem
    have hlater := h'.le_of_mem_subtree hmem
    rw [hg.id_eq] at hlater
    exact (index_lt hold).not_ge hlater
  cases hk : graph.node? k with
  | none =>
    rw [node?_erase, hg.node?_eq, hk]
    by_cases hid : k = id
    · rw [if_pos (hid ▸ hself)]
    · simp [hid]
  | some old =>
    have houtputs : old.outputs.filter (· ∉ graph'.subtree id) = old.outputs := by
      refine List.filter_eq_self.2 fun c hc => ?_
      obtain ⟨child, hchild⟩ := contains_iff.1 (h.outputs_live hk c hc)
      simpa using hstays hchild
    have hnew : [id].filter (· ∉ graph'.subtree id) = [] := by simp [hself]
    rw [node?_erase_of_not_mem (hstays hk) (hg.node?_old hk), h'.pruned_eq (hg.node?_old hk)]
    unfold joined
    split
    · simp only [dropOutputs, addOutput, List.filter_append, houtputs, hnew, List.append_nil]
    · simp only [dropOutputs, houtputs]

/-- A node can be evaluated on the same values when another one is added. -/
theorem Grows.inputsOf_eq (hg : Grows graph graph' id node) {kind : NodeKind}
    (hlive : ∀ p ∈ kind.dependencies, graph.contains p) :
    graph'.inputsOf kind = graph.inputsOf kind := by
  have hvalue (p : SignalId) (hp : p ∈ kind.dependencies) : graph'.value p = graph.value p := by
    obtain ⟨old, hold⟩ := contains_iff.1 (hlive p hp)
    exact value_eq_of_node? hold (hg.node?_old hold) (joined_value ..)
  cases kind with
  | cell => rfl
  | derived operands compute => exact mapM_resolve_congr hvalue
  | watch input effect =>
    have hresolve : graph'.resolve input = graph.resolve input :=
      resolve_congr fun p hp => hvalue p (Value.mem_collectSignals.2 (.inr hp))
    simp only [inputsOf, hresolve]

end Graph

namespace Operation

variable {w : World}

/-- If a node is added and nothing else happens in the meantime, then nothing is left of it when its
first evaluation fails. -/
theorem create_undone (kind : NodeKind) {compute : List Value → Exec (Except Interrupt Value)}
    (hgraph : w.graph.WellFormed) (hkind : kind ≠ .cell)
    (hquiet : ∀ inputs, w.graph.inputsOf kind = .ok inputs → (compute inputs).Quiet) :
    (create kind kind.dependencies compute).Leaves (fun reply w' =>
      ∀ interrupt, reply = .error interrupt → w.Undone w') (fun _ => False) w := by
  refine create_leaves (fun failure hfailed => ?_) fun id graph hinsert => ?_
  · exact fun _ _ => w.undone_host w.document w.journal
  obtain ⟨rank, hrank, hg⟩ := Graph.grows_insert kind.nodup_dependencies hinsert
  have hgrown : graph.WellFormed := hgraph.insert kind.nodup_dependencies hkind hinsert
  -- Whatever has been noted meanwhile, the removal of the node restores the graph.
  have hfinish (w₁ : World) (hgraph₁ : w₁.graph = graph) (hhub : w₁.hub = w.hub)
      (hqueue : w₁.queue = w.queue) (hsettling : w₁.settling = w.settling)
      (hpast : w₁.past = w.past ∨ ∃ inputs scene,
        w₁.past = ⟨.evaluating ⟨w.graph.mark⟩ inputs, scene⟩ :: w.past)
      (result : Except Interrupt Value) : (finishFirst id result).Leaves (fun finished w' =>
        ∀ interrupt, finished.map (fun () => id) = .error interrupt → w.Undone w')
        (fun _ => False) w₁ := by
    refine finishFirst_leaves (fun hgone => ?_) (fun value graph' _ hstore => ?_)
      fun interrupt removed graph' _ hremove => ?_
    · rw [hgraph₁, hg.node?_self] at hgone
      cases hgone
    · intro interrupt hfinished
      cases hfinished
    · intro _ _
      rw [hgraph₁] at hremove
      obtain ⟨-, rfl, rfl⟩ := Graph.remove_eq_ok.1 hremove
      refine ⟨hg.node?_erase_subtree hgraph hgrown, ?_, hhub, hqueue, hsettling, hpast⟩
      change graph.live - (graph.subtree id).length = w.graph.live
      rw [hg.length_subtree hgrown, hg.live_eq, Nat.add_sub_cancel]
  refine evaluateOn_cases (fun failure _ => ?_) fun inputs hinputs => ?_
  · exact hfinish { w with graph } rfl rfl rfl rfl (.inl rfl) _
  · have hbefore := (hg.inputsOf_eq (Graph.rankAbove_eq_ok hrank).1).symm.trans hinputs
    refine (hquiet inputs hbefore).leaves fun result document journal _ => ?_
    refine hfinish { World.begin { w with graph } (.evaluating id inputs) with document, journal }
      rfl rfl rfl rfl (.inr ⟨inputs, .of { w.toScene with graph }, ?_⟩) _
    rw [hg.id_eq]
    rfl

/-- A call that evaluates something aside ends, and if it fails nothing is left of it. -/
theorem leaves_of_evaluatesAside (op : Operation) (session : Session) (hooks : Hooks)
    (hgraph : w.graph.WellFormed) (h : op.EvaluatesAside w.graph) :
    (op.script.exec session hooks).Leaves (fun outcome w' =>
      ∀ interrupt, outcome = .error interrupt → w.Undone w') (fun _ => False) w := by
  cases op with
  | derive operands compute =>
    have hquiet (inputs : List Value) (hinputs : operands.mapM w.graph.resolve = .ok inputs) :=
      Script.AsksHostOnly.quiet (h inputs hinputs) session hooks
    refine leaves_bind.2 ?_
    unfold Exec.derive
    split
    · rename_i hplain
      have hinputs : operands.mapM w.graph.resolve = .ok operands :=
        Graph.mapM_resolve_of_dependencies_eq_nil hplain
      refine (hquiet operands hinputs).leaves fun outcome document journal _ => leaves_pure.2 ?_
      exact fun _ _ => w.undone_host document journal
    · refine leaves_bind.2 ((create_undone (.derived operands compute) hgraph (by simp)
        hquiet).mono fun reply w' hundone => ?_)
      cases reply with
      | error interrupt =>
        exact leaves_pure.2 (leaves_pure.2 fun _ _ => hundone interrupt rfl)
      | ok id =>
        refine leaves_bind.2 (leaves_modify.2 (leaves_pure.2 (leaves_pure.2 fun _ houtcome => ?_)))
        cases houtcome
  | watch input effect =>
    have hquiet (value : Value) (hvalue : w.graph.resolve input = .ok value) :=
      Script.AsksHostOnly.quiet (h value hvalue) session hooks
    refine leaves_bind.2 ?_
    unfold Exec.watch
    split
    · have heffect (inputs : List Value)
          (hinputs : w.graph.inputsOf (.watch input effect) = .ok inputs) : (effectOn (fun value =>
            (effect value).exec session hooks) inputs).Quiet := by
        cases hvalue : w.graph.resolve input with
        | error failure => simp [Graph.inputsOf, hvalue, Except.map] at hinputs
        | ok value =>
          obtain rfl : [value] = inputs := by simpa [Graph.inputsOf, hvalue, Except.map] using hinputs
          exact (hquiet value hvalue).bind fun _ => quiet_pure _
      refine leaves_bind.2 ((create_undone (.watch input effect) hgraph (by simp)
        heffect).mono fun reply w' hundone => leaves_pure.2 (leaves_pure.2 ?_))
      rintro interrupt houtcome
      cases reply with
      | error interrupt => exact hundone interrupt rfl
      | ok id => cases houtcome
    · rename_i hplain
      have hvalue : w.graph.resolve input = .ok input :=
        Value.resolveWith_of_not_isReactive (Bool.eq_false_iff.2 hplain)
      refine leaves_bind.2 ((hquiet input hvalue).leaves fun result document journal _ => ?_)
      exact leaves_pure.2 (leaves_pure.2 fun _ _ => w.undone_host document journal)
  | _ => exact h.elim

end Operation

namespace Session

variable {session : Session}

/-- **A call that fails leaves nothing behind.** Take any state that a session can be in, between two
scripts or in the middle of one. A call that names a signal or a source that is not there, or a signal
to be written that is no cell, is refused: nothing has happened then, and nothing that the call carries
was run. A call that evaluates something aside ends; if it fails, all signals and sources are as they
were, and nothing was run but that evaluation. -/
theorem Reachable.failed_operation_undone {start w : World} (h : session.Reachable start)
    (hsteps : start.Steps w) (hooks : Hooks) (op : Operation) :
    (∀ failure, op.refusal? w.toScene = some failure →
      op.script.exec session hooks w = (some (.error (.ofFailure failure)), w)) ∧
    (op.EvaluatesAside w.graph → ∃ outcome w', op.script.exec session hooks w = (some outcome, w') ∧
      ∀ interrupt, outcome = .error interrupt → w.Undone w') := by
  refine ⟨fun failure hrefused => op.exec_of_refused session hooks hrefused, fun haside => ?_⟩
  exact (op.leaves_of_evaluatesAside session hooks
    (hsteps.wellFormed h.wellFormed).now.graph haside).exists

/-- A cell, and a signal derived from it. -/
private def copying : Script :=
  .ask (.cell (.bool true)) fun (cell : SignalId) =>
  .derive [.signal cell] (fun inputs => .done (.ok (.list inputs))) .done

/-- The signal that would be derived from a copy by a computation that raises what it is given. -/
private def raising : Operation :=
  .derive [.signal ⟨1⟩] fun inputs => .done (.error (.raised (.list inputs)))

/-- The derived signal cannot be written, and no signal is derived by a computation that raises. -/
theorem Reachable.failed_operation_undone_copying : ∃ w, Reachable {} w ∧ w.graph.live = 2 ∧
    (Operation.set ⟨1⟩ .unit).script.exec {} (hooksAt {} 0) w =
      (some (.error (.aborted (.notWritable ⟨1⟩))), w) ∧
    ∃ w', raising.script.exec {} (hooksAt {} 0) w =
      (some (.error (.raised (.list [.list [.bool true]]))), w') ∧ w.Undone w' := by
  obtain ⟨w, result, hrun, hlive, hrefused, hraised⟩ : ∃ w result,
      execute {} 0 copying {} = some (result, w) ∧ w.graph.live = 2 ∧
      (Operation.set ⟨1⟩ .unit).refusal? w.toScene = some (.notWritable ⟨1⟩) ∧
      (raising.script.exec {} (hooksAt {} 0) w).1 =
        some (.error (.raised (.list [.list [.bool true]]))) := ⟨_, _, rfl, rfl, rfl, rfl⟩
  have hreach : Reachable {} w := .run (.start .empty #[]) hrun
  refine ⟨w, hreach, hlive, (hreach.failed_operation_undone .refl _ _).1 _ hrefused, ?_⟩
  obtain ⟨outcome, w', hexec, hundone⟩ :=
    (hreach.failed_operation_undone .refl (hooksAt {} 0) raising).2 fun _ _ => .done _
  rw [hexec] at hraised
  obtain rfl := Option.some.inj hraised
  exact ⟨w', hexec, hundone _ rfl⟩

end Session

end EffectGraph
