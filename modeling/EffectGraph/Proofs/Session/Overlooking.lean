import EffectGraph.Proofs.Catalog.Reactions
import EffectGraph.Proofs.Document
import EffectGraph.Proofs.Graph.Spare
import EffectGraph.Proofs.Program.Performing
import EffectGraph.Proofs.Session.Evaluations
import EffectGraph.Proofs.Session.Reasons

/-!
# Who does not see a node

An `Observer` is a derived node or a watch whose computation asks nobody but the host. The other
computations, reducers and listeners of a session overlook it if they are not given its handle, use the
session only to read signals, write cells and fire sources, and see nothing of the document that the
observer writes: they see a view of it that the observer leaves as it is. Programs that they run
perform instructions whose handlers overlook it in turn.
-/

namespace EffectGraph

open Exec World

/-- A node that others do not see. -/
structure Observer (α : Type) where
  id : SignalId
  kind : NodeKind
  /-- What others see of the document. -/
  view : Document → α
  /-- The instructions that programs of others perform. -/
  performed : Instruction → Prop

/-! ## What is reported of a signal -/

/-- The failure of a signal that an entry reports. -/
def Entry.failureOf? (x : SignalId) : Entry → Option Failure
  | .event (.recomputationFailed id failure) => if id = x then some failure else none
  | _ => none

/-- All failures of a signal that are reported, the first one first. -/
def World.failuresOf (w : World) (x : SignalId) : List Failure :=
  w.journal.toList.filterMap (Entry.failureOf? x)

theorem World.failuresOf_log (w : World) (entry : Entry) (x : SignalId) :
    (w.log entry).failuresOf x = w.failuresOf x ++ (entry.failureOf? x).toList := by
  cases hentry : entry.failureOf? x <;> simp [failuresOf, log, hentry]

/-- The request claims that the signal has failed. -/
def Request.Blames (x : SignalId) (request : Request) : Prop :=
  ∃ failure, request = .record (.event (.recomputationFailed x failure))

theorem Request.IsHost.failuresOf_answer {request : Request} {x : SignalId} (h : request.IsHost)
    (hblames : ¬ request.Blames x) (session : Session) (w : World) :
    (World.answer session request w).2.failuresOf x = w.failuresOf x := by
  cases request with
  | record entry =>
    have hentry : entry.failureOf? x = none := by
      unfold Entry.failureOf?
      split
      · rename_i id failure
        refine if_neg fun heq => hblames ⟨failure, ?_⟩
        rw [heq]
      · rfl
    change (w.log entry).failuresOf x = w.failuresOf x
    rw [w.failuresOf_log, hentry, Option.toList_none, List.append_nil]
  | setProperty id name value =>
    change (w.setProperty id name value).2.failuresOf x = w.failuresOf x
    unfold World.setProperty
    cases w.document.setProperty id name value with
    | error failure => rfl
    | ok document => exact (w.failuresOf_log _ x).trans (List.append_nil _)
  | createElement | elementById | element | property | textContent | tags | settings => rfl
  | _ => exact h.elim

/-! ## What does not mention a signal -/

/-- The failure is not that of a payload that mentions the signal. -/
def Failure.Avoids (x : SignalId) (failure : Failure) : Prop :=
  ∀ payload, failure = .uncaught payload → payload.Avoids x

/-- Neither the value nor the failure mentions the signal. -/
def ReplyAvoids (x : SignalId) (reply : Except Failure Value) : Prop :=
  (∀ value, reply = .ok value → value.Avoids x) ∧ Fails (Failure.Avoids x) reply

/-- Neither the value nor the interrupt mentions the signal. -/
def ResultAvoids (x : SignalId) (result : Except Interrupt Value) : Prop :=
  ReplyAvoids x (result.mapError Interrupt.toFailure)

/-- No property has a value that mentions the signal. -/
def Document.Avoids (x : SignalId) (document : Document) : Prop :=
  ∀ id element, document.get id = .ok element → ∀ p ∈ element.properties, p.2.Avoids x

/-- The change does not mention the signal. -/
def Change.Avoids (x : SignalId) : Change → Prop
  | .written cell => cell ≠ x
  | .fired _ payload => payload.Avoids x

/-- The reply to a request does not mention the signal. -/
def Request.Avoids (x : SignalId) : (request : Request) → request.Reply → Prop
  | .sample _, reply | .read _, reply | .property .., reply => ReplyAvoids x reply
  | .element _, reply => ∀ element, reply = .ok element → ∀ p ∈ element.properties, p.2.Avoids x
  | _, _ => True

section

variable {x : SignalId} {value : Value} {failure : Failure} {document document' : Document}

theorem replyAvoids_ok (h : value.Avoids x) : ReplyAvoids x (.ok value) :=
  ⟨fun _ heq => Except.ok.inj heq ▸ h, fails_ok _⟩

theorem replyAvoids_error (h : failure.Avoids x) : ReplyAvoids x (.error failure) :=
  ⟨fun _ heq => (by cases heq), fails_error h⟩

theorem Value.avoids_unit : Value.unit.Avoids x := List.not_mem_nil

theorem Value.avoids_headD {values : List Value} (h : ∀ v ∈ values, v.Avoids x) :
    (values.headD .unit).Avoids x := by
  cases values with
  | nil => exact avoids_unit
  | cons first rest => exact h first List.mem_cons_self

theorem Document.Avoids.property (h : document.Avoids x) (id : ElementId) (name : String) :
    ReplyAvoids x (document.property id name) := by
  unfold Document.property
  cases hget : document.get id with
  | error failure =>
    refine replyAvoids_error fun payload heq => ?_
    subst heq
    unfold Document.get at hget
    split at hget <;> cases hget
  | ok element =>
    refine replyAvoids_ok ?_
    dsimp only
    cases hfound : Keyed.get? name element.properties with
    | none => exact Value.avoids_unit
    | some value => exact h id element hget (name, value) (Keyed.mem_of_get?_eq_some hfound)

theorem Document.Avoids.setProperty (h : document.Avoids x) {id : ElementId} {name : String}
    (hvalue : value.Avoids x) (hset : document.setProperty id name value = .ok document') :
    document'.Avoids x := by
  unfold Document.setProperty at hset
  cases hget : document.get id with
  | error failure => simp [hget, Except.map] at hset
  | ok element =>
    simp only [hget, Except.map, Except.ok.injEq] at hset
    subst hset
    intro other found hfound p hp
    rw [Document.get_eq_ok, Array.getElem?_setIfInBounds] at hfound
    split at hfound
    · split at hfound
      · obtain rfl := Option.some.inj hfound
        rcases Keyed.mem_of_mem_insert hp with heq | hold
        · obtain rfl : p = (name, value) := heq
          exact hvalue
        · exact h id element hget p hold
      · cases hfound
    · exact h other found (Document.get_eq_ok.2 hfound) p hp

theorem Document.Avoids.create (h : document.Avoids x) (tagName domId : String) :
    (document.create tagName domId).2.Avoids x := by
  intro id element hget p hp
  rw [Document.get_eq_ok, Document.create, Array.getElem?_push] at hget
  split at hget
  · obtain rfl := Option.some.inj hget
    exact absurd hp List.not_mem_nil
  · exact h id element (Document.get_eq_ok.2 hget) p hp

/-- The values of nodes do not mention the signal if those that are stored do not. -/
theorem Graph.replyAvoids_value {graph : Graph}
    (h : ∀ k node, graph.node? k = some node → node.value.Avoids x) (k : SignalId) :
    ReplyAvoids x (graph.value k) := by
  cases hnode : graph.node? k with
  | none =>
    rw [value_of_node?_eq_none hnode]
    exact replyAvoids_error fun _ heq => by cases heq
  | some node =>
    rw [value_of_node? hnode]
    exact replyAvoids_ok (h k node hnode)

/-- Nor does what is resolved to them. -/
theorem Graph.replyAvoids_resolve {graph : Graph}
    (h : ∀ k node, graph.node? k = some node → node.value.Avoids x) (value : Value) :
    ReplyAvoids x (graph.resolve value) := by
  have hvalue := replyAvoids_value h
  refine ⟨fun resolved hresolved hmem => ?_, fails_resolveWith (fun k => (hvalue k).2) value⟩
  rw [Value.handles_resolveWith hresolved] at hmem
  obtain ⟨k, -, hk⟩ := List.mem_flatMap.1 hmem
  cases hfound : graph.value k with
  | error failure =>
    rw [hfound] at hk
    exact absurd hk List.not_mem_nil
  | ok found =>
    rw [hfound] at hk
    exact (hvalue k).1 found hfound hk

/-- So the nodes of a graph are evaluated on values that do not mention it. -/
theorem Graph.avoids_of_inputsOf {graph : Graph} {kind : NodeKind} {inputs : List Value}
    (h : ∀ k node, graph.node? k = some node → node.value.Avoids x)
    (hinputs : graph.inputsOf kind = .ok inputs) : ∀ input ∈ inputs, input.Avoids x := by
  cases kind with
  | cell =>
    obtain rfl := Except.ok.inj hinputs
    exact fun _ hmem => absurd hmem List.not_mem_nil
  | watch input effect =>
    unfold inputsOf at hinputs
    cases hresolve : graph.resolve input with
    | error failure => simp [hresolve, Except.map] at hinputs
    | ok resolved =>
      simp only [hresolve, Except.map, Except.ok.injEq] at hinputs
      subst hinputs
      intro other hmem
      rw [List.mem_singleton.1 hmem]
      exact (replyAvoids_resolve h input).1 resolved hresolve
  | derived operands compute =>
    have hresolved := forall₂_of_mapM_resolve hinputs
    clear hinputs
    induction hresolved with
    | nil => exact fun _ hmem => absurd hmem List.not_mem_nil
    | @cons operand input rest others hfirst _ ih =>
      exact List.forall_mem_cons.2 ⟨(replyAvoids_resolve h operand).1 input hfirst, ih⟩

end

/-! ## What overlooks an observer -/

variable {α : Type}

/-- The reply and what is seen of the document depend only on what was seen of it before. -/
def Request.SeesOnly (view : Document → α) (request : Request) : Prop :=
  ∀ session w w', view w'.document = view w.document →
    (World.answer session request w').1 = (World.answer session request w).1 ∧
      view (World.answer session request w').2.document =
        view (World.answer session request w).2.document

/-- The request is for the value of another signal, or is about what is seen of the host. -/
def Request.Overlooks (o : Observer α) : Request → Prop
  | .sample id => id ≠ o.id
  | .read value => value.Avoids o.id
  | .setProperty id name value =>
    value.Avoids o.id ∧ Request.SeesOnly o.view (.setProperty id name value)
  | request => request.IsHost ∧ ¬ request.Blames o.id ∧ request.SeesOnly o.view

/-- The script uses the session only to read other signals, to write other cells, to fire sources and
to run programs that perform what is allowed. As long as no reply mentions the observer, the script
does not. -/
inductive Script.Overlooks (o : Observer α) : Script → Prop where
  | done {result : Except Interrupt Value} (hresult : ResultAvoids o.id result) :
    Overlooks o (.done result)
  | ask {request : Request} {next : request.Reply → Script} (hrequest : request.Overlooks o)
    (hnext : ∀ reply, request.Avoids o.id reply → Overlooks o (next reply)) :
    Overlooks o (.ask request next)
  | set {cell : SignalId} {value : Value} {next : Except Failure Unit → Script} (hcell : cell ≠ o.id)
    (hvalue : value.Avoids o.id)
    (hnext : ∀ reply, Fails (Failure.Avoids o.id) reply → Overlooks o (next reply)) :
    Overlooks o (.set cell value next)
  | fire {source : SourceId} {payload : Value} {next : Except Failure Unit → Script}
    (hpayload : payload.Avoids o.id)
    (hnext : ∀ reply, Fails (Failure.Avoids o.id) reply → Overlooks o (next reply)) :
    Overlooks o (.fire source payload next)
  | run {program : Program} {next : Except Failure Value → Script}
    (hprogram : program.Confined (ResultAvoids o.id) o.performed)
    (hnext : ∀ reply, ReplyAvoids o.id reply → Overlooks o (next reply)) :
    Overlooks o (.run program next)
  | runWith {ok : Instruction → Prop} {settings : Settings} {program : Program}
    {interpreter : Instruction → Script} {next : Except Failure Value → Script}
    (hprogram : program.Confined (ResultAvoids o.id) ok)
    (hinterpreter : ∀ i, ok i → Overlooks o (interpreter i))
    (hnext : ∀ reply, ReplyAvoids o.id reply → Overlooks o (next reply)) :
    Overlooks o (.runWith settings program interpreter next)
  | dispatch {i : Instruction} {next : Except Interrupt Value → Script} (hi : o.performed i)
    (hnext : ∀ reply, ResultAvoids o.id reply → Overlooks o (next reply)) :
    Overlooks o (.dispatch i next)

/-- The node runs a script that overlooks the observer. -/
def NodeKind.Overlooks (o : Observer α) : NodeKind → Prop
  | .cell => True
  | .derived _ compute =>
    ∀ inputs, (∀ input ∈ inputs, input.Avoids o.id) → (compute inputs).Overlooks o
  | .watch _ effect => ∀ value, value.Avoids o.id → (effect value).Overlooks o

/-- The subscriber runs a script that overlooks the observer, or a program that performs what is
allowed. -/
def Subscriber.Overlooks (o : Observer α) : Subscriber → Prop
  | .fold target reducer => target ≠ o.id ∧ ∀ current payload, current.Avoids o.id →
    payload.Avoids o.id → (reducer current payload).Overlooks o
  | .foldProgram target reducer => target ≠ o.id ∧ ∀ current payload, current.Avoids o.id →
    payload.Avoids o.id → (reducer current payload).Confined (ResultAvoids o.id) o.performed
  | .listener react => ∀ payload, payload.Avoids o.id → (react payload).Overlooks o
  | .forward _ => True

/-- The handlers of all instructions that are performed overlook the observer. -/
def Session.Overlooks (session : Session) (o : Observer α) : Prop :=
  ∀ i handler, o.performed i → Keyed.get? i.tag session.handlers = some handler →
    (handler i).Overlooks o

/-- Nothing in the state mentions the observer, and whatever the nodes and subscribers run overlooks
it. -/
structure World.Overlooks (o : Observer α) (w : World) : Prop where
  values : ∀ k node, w.graph.node? k = some node → node.value.Avoids o.id
  kinds : ∀ k node, w.graph.node? k = some node → node.kind.Overlooks o
  subscribers : ∀ subscriber, w.hub.Subscribed subscriber → subscriber.Overlooks o
  queue : ∀ change ∈ w.queue, change.Avoids o.id
  document : w.document.Avoids o.id

/-! ## What stays aside -/

/-- The script asks nobody but the host, and leaves what others see of the document as it is. -/
inductive Script.StaysAside (o : Observer α) : Script → Prop where
  | done (result : Except Interrupt Value) : StaysAside o (.done result)
  | ask {request : Request} {next : request.Reply → Script} (hrequest : request.IsHost)
    (hblames : ¬ request.Blames o.id)
    (hview : ∀ session w, o.view (World.answer session request w).2.document = o.view w.document)
    (hnext : ∀ reply, StaysAside o (next reply)) : StaysAside o (.ask request next)

/-- The node is derived or a watch, and what it runs stays aside. -/
def NodeKind.StaysAside (o : Observer α) : NodeKind → Prop
  | .cell => False
  | .derived _ compute => ∀ inputs, (compute inputs).StaysAside o
  | .watch _ effect => ∀ value, (effect value).StaysAside o

/-- The second state differs from the first one in what others do not see of the document, and in
entries of the journal that report no failure of the observer. -/
def Observer.Unseen (o : Observer α) (w v : World) : Prop :=
  ∃ document journal, v = { w with document, journal } ∧ o.view document = o.view w.document ∧
    v.failuresOf o.id = w.failuresOf o.id

variable {o : Observer α}

/-- Such a script ends, and does nothing that is seen. -/
theorem Script.StaysAside.leaves {script : Script} (h : script.StaysAside o) (session : Session)
    (hooks : Hooks) (w : World) :
    (script.exec session hooks).Leaves (fun _ v => o.Unseen w v) (fun _ => False) w := by
  induction h generalizing w with
  | done result => exact leaves_pure.2 ⟨w.document, w.journal, rfl, rfl, rfl⟩
  | @ask request next hrequest hblames hview _ ih =>
    have hanswered := hrequest.quiet session
    obtain ⟨reply, document, journal, heq⟩ := hanswered w
    have hasked : (World.answer session request w).2 = { w with document, journal } :=
      congrArg Prod.snd heq
    have hsame := hview session w
    have hreports := hrequest.failuresOf_answer hblames session w
    rw [hasked] at hsame hreports
    refine leaves_bind.2 (leaves_modifyGet.2 ?_)
    rw [hasked]
    refine (ih _ { w with document, journal }).mono ?_
    rintro _ _ ⟨document', journal', rfl, hlast, hlastReports⟩
    exact ⟨document', journal', rfl, hlast.trans hsame, hlastReports.trans hreports⟩

theorem NodeKind.StaysAside.leaves {kind : NodeKind} (h : kind.StaysAside o) (session : Session)
    (hooks : Hooks) (inputs : List Value) (w : World) :
    (Session.computation session hooks kind inputs).Leaves (fun _ v => o.Unseen w v)
      (fun _ => False) w := by
  cases kind with
  | cell => exact h.elim
  | derived operands compute => exact (h inputs).leaves session hooks w
  | watch input effect =>
    exact leaves_bind.2 (((h (inputs.headD .unit)).leaves session hooks w).mono
      fun _ _ hdone => leaves_pure.2 hdone)

/-! ## Two states -/

/-- The second state has the observer in addition. Otherwise the states are the same, apart from what
others do not see of the document; and in the first state nothing sees the observer. -/
structure Observer.Beside (o : Observer α) (w w' : World) : Prop where
  graph : Graph.Spares o.id w.graph w'.graph
  present : ∃ node, w'.graph.node? o.id = some node ∧ node.kind = o.kind
  hub_eq : w'.hub = w.hub
  queue_eq : w'.queue = w.queue
  settling_eq : w'.settling = w.settling
  view_eq : o.view w'.document = o.view w.document
  overlooks : w.Overlooks o

end EffectGraph
