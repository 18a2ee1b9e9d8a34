import EffectGraph.Proofs.Failures
import EffectGraph.Proofs.Session.Acts

/-!
# Why requests fail

A request fails because a signal, a source or an element is not there, or because the host refuses. So
no request is answered with a failure that blames an instruction (`Request.failsWith_answer`).
-/

namespace EffectGraph

/-- A reply that is none has one of these reasons. -/
def Request.FailsWith (P : Failure → Prop) : (request : Request) → request.Reply → Prop
  | .sample _, reply | .read _, reply | .property .., reply => Fails P (α := Value) reply
  | .tearDown _, reply | .occurrences _, reply | .subscriberCount _, reply => Fails P (α := Nat) reply
  | .inspect _, reply => Fails P (α := NodeInfo) reply
  | .discardSince _, reply | .setProperty .., reply => Fails P (α := Unit) reply
  | .sourceName _, reply | .textContent _, reply => Fails P (α := String) reply
  | .merge .., reply => Fails P (α := SourceId) reply
  | .element _, reply => Fails P (α := Element) reply
  | _, _ => True

section

variable {ε : Type} {P : ε → Prop} {lookup : SignalId → Except ε Value}

mutual

/-- A value is not resolved if one of its handles is not. -/
theorem fails_resolveWith (h : ∀ id, Fails P (lookup id)) : ∀ value : Value,
    Fails P (value.resolveWith lookup)
  | .signal id => h id
  | .list items => by
    simp only [Value.resolveWith]
    exact (fails_resolveItems h items).map _
  | .record fields => by
    simp only [Value.resolveWith]
    exact (fails_resolveFields h fields).map _
  | .unit | .bool _ | .number _ | .text _ | .element _ | .source _ => fails_ok _

theorem fails_resolveItems (h : ∀ id, Fails P (lookup id)) : ∀ items : List Value,
    Fails P (Value.resolveItems lookup items)
  | [] => fails_ok _
  | item :: rest => by
    have hitem := fails_resolveWith h item
    unfold Value.resolveItems
    cases hresolved : item.resolveWith lookup with
    | error e => exact fails_error (hitem e hresolved)
    | ok v => exact (fails_resolveItems h rest).map _

theorem fails_resolveFields (h : ∀ id, Fails P (lookup id)) : ∀ fields : List (String × Value),
    Fails P (Value.resolveFields lookup fields)
  | [] => fails_ok _
  | (key, value) :: rest => by
    have hvalue := fails_resolveWith h value
    unfold Value.resolveFields
    cases hresolved : value.resolveWith lookup with
    | error e => exact fails_error (hvalue e hresolved)
    | ok v => exact (fails_resolveFields h rest).map _

end

end

theorem Graph.fails_node (graph : Graph) (id : SignalId) :
    Fails Failure.IsOrdinary (graph.node id) := by
  intro failure hfailed
  obtain ⟨-, rfl⟩ := Graph.node_eq_error.1 hfailed
  trivial

theorem Graph.fails_value (graph : Graph) (id : SignalId) :
    Fails Failure.IsOrdinary (graph.value id) := (graph.fails_node id).map _

theorem Graph.fails_resolve (graph : Graph) (value : Value) :
    Fails Failure.IsOrdinary (graph.resolve value) := fails_resolveWith graph.fails_value value

theorem Graph.fails_remove (graph : Graph) (id : SignalId) :
    Fails Failure.IsOrdinary (graph.remove id) := (graph.fails_node id).map _

/-- The inputs of a node are not found if one of the signals is not. -/
theorem Graph.fails_inputsOf_of {P : Failure → Prop} {graph : Graph}
    (h : ∀ id, Fails P (graph.value id)) (kind : NodeKind) : Fails P (graph.inputsOf kind) := by
  cases kind with
  | cell => exact fails_ok _
  | watch input effect => exact (fails_resolveWith h input).map _
  | derived operands compute =>
    change Fails P (operands.mapM graph.resolve)
    induction operands with
    | nil => exact fails_ok _
    | cons operand rest ih =>
      rw [List.mapM_cons]
      exact (fails_resolveWith h operand).bind fun _ _ => ih.bind fun _ _ => fails_ok _

theorem Graph.fails_inputsOf (graph : Graph) (kind : NodeKind) :
    Fails Failure.IsOrdinary (graph.inputsOf kind) := fails_inputsOf_of graph.fails_value kind

theorem Graph.fails_insert (graph : Graph) (kind : NodeKind) (inputs : List SignalId) :
    Fails Failure.IsOrdinary (graph.insert kind inputs) := by
  have hrank (start : Nat) : Fails Failure.IsOrdinary (inputs.foldlM (fun rank id =>
      (graph.node id).map fun node => max rank (node.rank + 1)) start) := by
    induction inputs generalizing start with
    | nil => exact fails_ok _
    | cons input rest ih =>
      rw [List.foldlM_cons]
      exact ((graph.fails_node input).map _).bind fun rank _ => ih rank
  exact Fails.map (hrank 0) _

theorem Hub.fails_get (hub : Hub) (id : SourceId) : Fails Failure.IsOrdinary (hub.get id) := by
  intro failure hfailed
  unfold Hub.get at hfailed
  split at hfailed
  · cases hfailed
  · obtain rfl := Except.error.inj hfailed
    trivial

theorem Hub.fails_subscribe (hub : Hub) (id : SourceId) (subscriber : Subscriber) :
    Fails Failure.IsOrdinary (hub.subscribe id subscriber) := (hub.fails_get id).map _

theorem Hub.fails_merge (hub : Hub) (left right : SourceId) :
    Fails Failure.IsOrdinary (hub.merge left right) := by
  refine (hub.fails_get left).bind fun _ _ => (hub.fails_get right).bind fun _ _ => ?_
  refine Fails.bind (Hub.fails_subscribe _ left _) fun between _ => ?_
  exact Fails.bind (between.fails_subscribe right _) fun _ _ => fails_ok _

theorem Document.fails_get (document : Document) (id : ElementId) :
    Fails Failure.IsOrdinary (document.get id) := by
  intro failure hfailed
  unfold Document.get at hfailed
  split at hfailed
  · cases hfailed
  · obtain rfl := Except.error.inj hfailed
    trivial

theorem World.fails_removeSignal (w : World) (id : SignalId) :
    Fails Failure.IsOrdinary (w.removeSignal id) := (w.graph.fails_remove id).map _

theorem World.fails_tearDown (w : World) (id : SignalId) :
    Fails Failure.IsOrdinary (w.tearDown id).1 := by
  unfold World.tearDown
  cases hremove : w.removeSignal id with
  | error failure => exact fails_error (w.fails_removeSignal id failure hremove)
  | ok result => exact fails_ok _

theorem World.fails_discard (w : World) (ids : List SignalId) :
    Fails Failure.IsOrdinary (w.discard ids).1 := by
  induction ids generalizing w with
  | nil => exact fails_ok _
  | cons id rest ih =>
    unfold World.discard
    split
    · cases hremove : w.removeSignal id with
      | error failure => exact fails_error (w.fails_removeSignal id failure hremove)
      | ok result => exact ih _
    · exact ih w

theorem World.fails_merge (w : World) (left right : SourceId) :
    Fails Failure.IsOrdinary (w.merge left right).1 := by
  unfold World.merge
  cases hmerge : w.hub.merge left right with
  | error failure => exact fails_error (w.hub.fails_merge left right failure hmerge)
  | ok result => exact fails_ok _

theorem World.fails_setProperty (w : World) (id : ElementId) (name : String) (value : Value) :
    Fails Failure.IsOrdinary (w.setProperty id name value).1 := by
  have hset : Fails Failure.IsOrdinary (w.document.setProperty id name value) :=
    (w.document.fails_get id).map _
  unfold World.setProperty
  cases hwritten : w.document.setProperty id name value with
  | error failure => exact fails_error (hset failure hwritten)
  | ok document => exact fails_ok _

/-- No request is answered with the failure of a malformed instruction. -/
theorem Request.failsWith_answer (session : Session) (request : Request) (w : World) :
    request.FailsWith Failure.IsOrdinary (World.answer session request w).1 := by
  cases request with
  | sample id => exact w.graph.fails_value id
  | read value => exact w.graph.fails_resolve value
  | tearDown id => exact w.fails_tearDown id
  | inspect id => exact (w.graph.fails_node id).map _
  | discardSince mark => exact w.fails_discard _
  | sourceName source | occurrences source | subscriberCount source =>
    exact (w.hub.fails_get source).map _
  | merge left right => exact w.fails_merge left right
  | element id => exact w.document.fails_get id
  | property id name => exact (w.document.fails_get id).map _
  | setProperty id name value => exact w.fails_setProperty id name value
  | textContent id => exact ((w.document.fails_get id).map _).map _
  | _ => trivial

theorem Request.FailsWith.mono {P Q : Failure → Prop} (hsub : ∀ failure, P failure → Q failure)
    {request : Request} {reply : request.Reply} (h : request.FailsWith P reply) :
    request.FailsWith Q reply := by
  cases request
  all_goals first
    | exact Fails.mono h hsub
    | trivial

end EffectGraph
