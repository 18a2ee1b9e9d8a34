import EffectGraph.Proofs.Catalog.Forms
import EffectGraph.Proofs.Session.Reasons

/-!
# Keeping to the catalog

A script keeps to the catalog if it does not look at the settings, and whatever instructions it hands
on or has a program perform are instructions of the catalog; the same is asked of all scripts that it
stores or runs. `Script.Yields` says this, and what the script ends with: if its calls fail for certain
reasons only, so does the script, and its value has a certain shape. A session keeps to the catalog if
all that its nodes and subscribers run does (`World.Keeps`).
-/

namespace EffectGraph

open Exec World

/-- The program performs instructions of the catalog only. -/
def Program.Keeps (program : Program) : Prop := program.Performs Catalog.Forms

/-- The script keeps to the catalog. If its calls fail for these reasons only, it ends with a value of
the shape or is aborted for one of these reasons. -/
inductive Script.Yields : (Failure → Prop) → Shape → Script → Prop where
  | done {P : Failure → Prop} {shape : Shape} {result : Except Interrupt Value}
    (hvalue : shape.Covers result) (hfails : Fails (Interrupt.AbortsWith P) result) :
    Yields P shape (.done result)
  | ask {P : Failure → Prop} {shape : Shape} {request : Request} {next : request.Reply → Script}
    (hrequest : request ≠ .settings)
    (hnext : ∀ reply, request.FailsWith P reply → Yields P shape (next reply)) :
    Yields P shape (.ask request next)
  | derive {P : Failure → Prop} {shape : Shape} {operands : List Value}
    {compute : List Value → Script} {next : Except Interrupt Value → Script}
    (hcompute : ∀ inputs, Yields (fun _ => True) .any (compute inputs))
    (hnext : ∀ reply, Yields P shape (next reply)) : Yields P shape (.derive operands compute next)
  | watch {P : Failure → Prop} {shape : Shape} {input : Value} {effect : Value → Script}
    {next : Except Interrupt (Option SignalId) → Script}
    (heffect : ∀ value, Yields (fun _ => True) .any (effect value))
    (hfails : ∀ value, Yields P .any (effect value))
    (hnext : ∀ reply, Fails (Interrupt.AbortsWith P) reply → Yields P shape (next reply)) :
    Yields P shape (.watch input effect next)
  | set {P : Failure → Prop} {shape : Shape} {cell : SignalId} {value : Value}
    {next : Except Failure Unit → Script}
    (hnext : ∀ reply, Fails P reply → Yields P shape (next reply)) :
    Yields P shape (.set cell value next)
  | fire {P : Failure → Prop} {shape : Shape} {source : SourceId} {payload : Value}
    {next : Except Failure Unit → Script}
    (hnext : ∀ reply, Fails P reply → Yields P shape (next reply)) :
    Yields P shape (.fire source payload next)
  | fold {P : Failure → Prop} {shape : Shape} {source : SourceId} {initial : Value}
    {reducer : Value → Value → Script} {next : Except Failure SignalId → Script}
    (hreducer : ∀ current payload, Yields (fun _ => True) .any (reducer current payload))
    (hnext : ∀ reply, Fails P reply → Yields P shape (next reply)) :
    Yields P shape (.fold source initial reducer next)
  | foldProgram {P : Failure → Prop} {shape : Shape} {source : SourceId} {initial : Value}
    {reducer : Value → Value → Program} {next : Except Failure SignalId → Script}
    (hreducer : ∀ current payload, (reducer current payload).Keeps)
    (hnext : ∀ reply, Fails P reply → Yields P shape (next reply)) :
    Yields P shape (.foldProgram source initial reducer next)
  | listen {P : Failure → Prop} {shape : Shape} {source : SourceId} {listener : Value → Script}
    {next : Except Failure Unit → Script}
    (hlistener : ∀ payload, Yields (fun _ => True) .any (listener payload))
    (hnext : ∀ reply, Fails P reply → Yields P shape (next reply)) :
    Yields P shape (.listen source listener next)
  | run {P : Failure → Prop} {shape : Shape} {program : Program}
    {next : Except Failure Value → Script} (hprogram : program.Keeps)
    (hnext : ∀ reply, Fails P reply → Yields P shape (next reply)) :
    Yields P shape (.run program next)
  | runWith {P : Failure → Prop} {shape : Shape} {ok : Instruction → Prop} {settings : Settings}
    {program : Program} {interpreter : Instruction → Script} {next : Except Failure Value → Script}
    (hfills : Instruction.Fills ok) (hprogram : program.Performs ok)
    (hinterpreter : ∀ i, i.Performs ok → Yields (fun _ => True) .any (interpreter i))
    (hnext : ∀ reply, Yields P shape (next reply)) :
    Yields P shape (.runWith settings program interpreter next)
  | dispatch {P : Failure → Prop} {shape : Shape} {i : Instruction}
    {next : Except Interrupt Value → Script} (hi : i.Performs Catalog.Forms)
    (hnext : ∀ reply, Yields P shape (next reply)) : Yields P shape (.dispatch i next)

/-- The script keeps to the catalog. -/
def Script.Keeps (script : Script) : Prop := script.Yields (fun _ => True) .any

/-- Running a program in reaction to an occurrence keeps to the catalog if the program does. -/
theorem Script.Yields.react {P : Failure → Prop} {shape : Shape} {program : Program}
    {next : Except Failure Value → Script} (hprogram : program.Keeps)
    (hnext : ∀ reply, Fails P reply → (next reply).Yields P shape) :
    (Script.react program next).Yields P shape := by
  refine .ask (by simp) fun mark _ => .run hprogram fun result hresult => ?_
  have hfinish {mark : Nat} {outcome : Except Failure Value} {after : Except Failure Unit → Script}
      (houtcome : Fails P outcome) (hok : after (.ok ()) = next outcome)
      (herror : ∀ failure, after (.error failure) = next (.error failure)) :
      Script.Yields P shape (.ask (.discardSince mark) after) := by
    refine .ask (by simp) fun discarded hdiscarded => ?_
    cases discarded with
    | ok _ => exact hok ▸ hnext outcome houtcome
    | error failure => exact herror failure ▸ hnext _ (fails_error (hdiscarded failure rfl))
  cases result with
  | ok value => exact .ask (by simp) fun reply hreply => hfinish hreply rfl fun _ => rfl
  | error failure => exact hfinish hresult rfl fun _ => rfl

/-- Whatever the node runs keeps to the catalog. -/
def NodeKind.Keeps : NodeKind → Prop
  | .cell => True
  | .derived _ compute => ∀ inputs, (compute inputs).Keeps
  | .watch _ effect => ∀ value, (effect value).Keeps

/-- Whatever the subscriber runs keeps to the catalog. -/
def Subscriber.Keeps : Subscriber → Prop
  | .fold _ reducer => ∀ current payload, (reducer current payload).Keeps
  | .foldProgram _ reducer => ∀ current payload, (reducer current payload).Keeps
  | .listener react => ∀ payload, (react payload).Keeps
  | .forward _ => True

/-- Who is reached by an occurrence is subscribed, or leads on to another source. -/
theorem Subscriber.keeps_of_mem_reached {hub : Hub} {source : SourceId} {subscriber : Subscriber}
    (hsubscribers : ∀ s, hub.Subscribed s → s.Keeps) (hs : subscriber ∈ (hub.reached source).2) :
    subscriber.Keeps := by
  cases subscriber with
  | forward => trivial
  | fold | foldProgram | listener => exact hsubscribers _ (Hub.subscribed_of_reached hs rfl)

/-- Whatever the session has stored keeps to the catalog. -/
structure World.Keeps (w : World) : Prop where
  nodes : ∀ id node, w.graph.node? id = some node → node.kind.Keeps
  subscribers : ∀ subscriber, w.hub.Subscribed subscriber → subscriber.Keeps

namespace World.Keeps

variable {w : World} {graph : Graph} {hub : Hub} {id : SignalId}

theorem of_wiring (h : w.Keeps) (hsame : Graph.SameWiring w.graph graph) :
    World.Keeps { w with graph } where
  nodes id node hnode := by
    obtain ⟨old, hold, hkind, -⟩ := hsame.node? hnode
    exact hkind ▸ h.nodes id old hold
  subscribers := h.subscribers

theorem settle (h : w.Keeps) {value : Value} (hstore : w.graph.settle id value = .ok graph) :
    World.Keeps { w with graph } := by
  obtain ⟨-, rfl⟩ := Graph.settle_eq_ok.1 hstore
  exact h.of_wiring (Graph.sameWiring_modify w.graph id value)

theorem grow (h : w.Keeps) {node : Node} (hgrows : Graph.Grows w.graph graph id node)
    (hkind : node.kind.Keeps) : World.Keeps { w with graph } where
  nodes k node' hnode := by
    rcases hgrows.cases hnode with ⟨rfl, rfl⟩ | ⟨old, hold, rfl⟩
    · exact hkind
    · rw [Graph.joined_kind]
      exact h.nodes k old hold
  subscribers := h.subscribers

theorem createCell (h : w.Keeps) (value : Value) : (w.createCell value).2.Keeps :=
  h.grow (Graph.grows_insertCell w.graph value) trivial

theorem remove (h : w.Keeps) {removed : List SignalId}
    (hremove : w.graph.remove id = .ok (removed, graph)) : World.Keeps { w with graph } where
  nodes k node' hnode := by
    obtain ⟨-, -, rfl⟩ := Graph.remove_eq_ok.1 hremove
    obtain ⟨-, node, hold, rfl⟩ := Graph.node?_of_erase hnode
    exact h.nodes k node hold
  subscribers := h.subscribers

theorem of_hub (h : w.Keeps) (hsub : ∀ subscriber, hub.Subscribed subscriber →
    w.hub.Subscribed subscriber ∨ subscriber.Keeps) : World.Keeps { w with hub } where
  nodes := h.nodes
  subscribers subscriber hs := (hsub subscriber hs).elim (h.subscribers subscriber) id

theorem removeSignal (h : w.Keeps) {removed : List SignalId} {w' : World}
    (hremove : w.removeSignal id = .ok (removed, w')) : w'.Keeps := by
  obtain ⟨graph, hgraph, rfl⟩ := removeSignal_eq_ok.1 hremove
  exact (h.remove hgraph).of_hub (w := { w with graph }) fun _ hs => .inl (Hub.subscribed_detach hs).1

theorem subscribe (h : w.Keeps) {source : SourceId} {subscriber : Subscriber}
    (hkeeps : subscriber.Keeps) (hsubscribe : w.hub.subscribe source subscriber = .ok hub) :
    World.Keeps { w with hub } := by
  refine h.of_hub fun _ hs => ?_
  rcases Hub.subscribed_subscribe hsubscribe hs with hs | rfl
  · exact .inl hs
  · exact .inr hkeeps

theorem tearDown (h : w.Keeps) (id : SignalId) : (w.tearDown id).2.Keeps := by
  unfold World.tearDown
  cases hremove : w.removeSignal id with
  | error failure => exact h
  | ok result => exact ⟨(h.removeSignal hremove).nodes, (h.removeSignal hremove).subscribers⟩

theorem discard {ids : List SignalId} (h : w.Keeps) : (w.discard ids).2.Keeps := by
  induction ids generalizing w with
  | nil => exact h
  | cons id rest ih =>
    unfold World.discard
    split
    · cases hremove : w.removeSignal id with
      | error failure => exact h
      | ok result =>
        have hrest := h.removeSignal hremove
        exact ih (w := result.2.report _) ⟨hrest.nodes, hrest.subscribers⟩
    · exact ih h

theorem merge (h : w.Keeps) (left right : SourceId) : (w.merge left right).2.Keeps := by
  unfold World.merge
  cases hmerge : w.hub.merge left right with
  | error failure => exact h
  | ok result =>
    obtain ⟨merged, hub⟩ := result
    obtain ⟨name, between, -, hleft, hright⟩ := Hub.merge_eq_ok hmerge
    refine h.of_hub fun subscriber hs => ?_
    rcases Hub.subscribed_subscribe hright hs with hs | rfl
    · rcases Hub.subscribed_subscribe hleft hs with hs | rfl
      · exact .inl (Hub.subscribed_create.1 hs)
      · exact .inr trivial
    · exact .inr trivial

/-- Answering a request keeps to the catalog. -/
theorem answer (h : w.Keeps) (session : Session) (request : Request) :
    (World.answer session request w).2.Keeps := by
  cases request with
  | cell initial => exact h.createCell initial
  | tearDown id => exact h.tearDown id
  | discardSince mark => exact h.discard
  | source name => exact h.of_hub fun _ hs => .inl (Hub.subscribed_create.1 hs)
  | on element event => exact h.of_hub fun _ hs => .inl (Hub.subscribed_create.1 hs)
  | merge left right => exact h.merge left right
  | setProperty id name value =>
    have hframe : (w.setProperty id name value).2.graph = w.graph ∧
        (w.setProperty id name value).2.hub = w.hub := by
      unfold World.setProperty
      cases w.document.setProperty id name value with
      | error failure => exact ⟨rfl, rfl⟩
      | ok document => exact ⟨rfl, rfl⟩
    change (w.setProperty id name value).2.Keeps
    refine ⟨?_, ?_⟩
    · rw [hframe.1]
      exact h.nodes
    · rw [hframe.2]
      exact h.subscribers
  | _ => exact ⟨h.nodes, h.subscribers⟩

end World.Keeps

end EffectGraph
