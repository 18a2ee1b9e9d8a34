import EffectGraph.Proofs.Session.Actions
import EffectGraph.Proofs.Session.Steps

/-!
# What scripts do at once

A script goes from state to state by acts, each of which changes the state at once, and by requests
for changes, which may lead to other scripts. A `Scope` says which nodes the acts may touch and which
listeners they may add: `Scope.Act` lists the acts within a scope, and `World.Act` all of them. What a
single action leaves is said once and used wherever it is part of others; so is what a pass goes through
(`Session.propagate_leaves`).
-/

namespace EffectGraph

open Exec World

/-! ## What single actions leave -/

namespace Exec

variable {w : World} {E : World → Prop}

/-- Storing a value is done at once. -/
theorem settleNode_leaves {id : SignalId} {value : Value} {Q : Except Failure Unit → World → Prop}
    (hok : ∀ graph, w.graph.settle id value = .ok graph → Q (.ok ()) { w with graph })
    (herror : ∀ failure, w.graph.node id = .error failure → Q (.error failure) w) :
    (settleNode id value).Leaves Q E w := by
  refine leaves_tryWorld hok fun failure hfailed => herror failure ?_
  unfold Graph.settle at hfailed
  cases hnode : w.graph.node id with
  | error failure' => simpa [hnode, Except.map] using hfailed
  | ok node => simp [hnode, Except.map] at hfailed

theorem write_leaves {cell : SignalId} {value : Value} {Q : Except Failure Unit → World → Prop}
    (hok : ∀ graph, w.graph.settle cell value = .ok graph →
      Q (.ok ()) (World.begin { w with graph } (.wrote cell value)))
    (herror : ∀ failure, w.graph.node cell = .error failure → Q (.error failure) w) :
    (write cell value).Leaves Q E w := by
  refine leaves_bind.2 (settleNode_leaves (fun graph hstore => ?_) fun failure hgone => ?_)
  · exact leaves_bind.2 (leaves_modify.2 (leaves_pure.2 (hok graph hstore)))
  · exact leaves_pure.2 (herror failure hgone)

/-- Removing a node leaves a node that is gone alone. -/
theorem removeNode_leaves {id : SignalId} {Q : Except Failure Unit → World → Prop}
    (hgone : w.graph.node? id = none → ∀ failure, Q (.error failure) w)
    (hremoved : ∀ removed graph, w.graph.remove id = .ok (removed, graph) →
      Q (.ok ()) { w with graph }) : (removeNode id).Leaves Q E w := by
  refine leaves_tryWorld (fun result => hremoved result.1 result.2) fun failure hfailed => ?_
  refine hgone ?_ failure
  cases hnode : w.graph.node? id with
  | none => rfl
  | some node =>
    rw [Graph.remove_eq_ok.2 ⟨⟨node, hnode⟩, rfl, rfl⟩] at hfailed
    cases hfailed

theorem subscribe_leaves {source : SourceId} {subscriber : Subscriber}
    {Q : Except Failure Unit → World → Prop}
    (hok : ∀ hub, w.hub.subscribe source subscriber = .ok hub → Q (.ok ()) { w with hub })
    (herror : ∀ failure, w.hub.subscribe source subscriber = .error failure →
      Q (.error failure) w) : (subscribe source subscriber).Leaves Q E w :=
  leaves_tryWorld hok herror

/-- A node is evaluated on its inputs if these exist. -/
theorem evaluateOn_cases {id : SignalId} {kind : NodeKind}
    {compute : List Value → Exec (Except Interrupt Value)}
    {Q : Except Interrupt Value → World → Prop}
    (hfailed : ∀ failure, w.graph.inputsOf kind = .error failure →
      Q (.error (.ofFailure failure)) w)
    (hbegun : ∀ inputs, w.graph.inputsOf kind = .ok inputs →
      (compute inputs).Leaves Q E (w.begin (.evaluating id inputs))) :
    (evaluateOn id kind compute).Leaves Q E w := by
  refine leaves_bind.2 (leaves_get.2 ?_)
  cases hinputs : w.graph.inputsOf kind with
  | error failure => exact leaves_pure.2 (hfailed failure hinputs)
  | ok inputs => exact leaves_bind.2 (leaves_modify.2 (hbegun inputs hinputs))

/-- A first evaluation ends with the value stored or the node removed, if the node is still there. -/
theorem finishFirst_leaves {id : SignalId} {result : Except Interrupt Value}
    {Q : Except Interrupt Unit → World → Prop}
    (hgone : w.graph.node? id = none → ∀ interrupt, Q (.error interrupt) w)
    (hstored : ∀ value graph, result = .ok value → w.graph.settle id value = .ok graph →
      Q (.ok ()) { w with graph })
    (hremoved : ∀ interrupt removed graph, result = .error interrupt →
      w.graph.remove id = .ok (removed, graph) → Q (.error interrupt) { w with graph }) :
    (finishFirst id result).Leaves Q E w := by
  unfold finishFirst
  cases result with
  | error interrupt =>
    refine leaves_bind.2 (leaves_pure.2 (leaves_bind.2 (removeNode_leaves ?_ ?_)))
    · exact fun hnode failure => leaves_pure.2 (hgone hnode _)
    · exact fun removed graph hremove => leaves_pure.2 (hremoved interrupt removed graph rfl hremove)
  | ok value =>
    refine leaves_bind.2 (settleNode_leaves (fun graph hstore => ?_) fun failure hnode => ?_)
    · exact leaves_bind.2 (leaves_pure.2 (leaves_pure.2 (hstored value graph rfl hstore)))
    · have hnone := (Graph.node_eq_error.1 hnode).1
      refine leaves_bind.2 (leaves_pure.2 (leaves_bind.2 (removeNode_leaves ?_ ?_)))
      · exact fun _ failure => leaves_pure.2 (hgone hnone _)
      · intro removed graph hremove
        obtain ⟨⟨node, hsome⟩, -⟩ := Graph.remove_eq_ok.1 hremove
        rw [hnone] at hsome
        cases hsome

/-- Creating a node adds it, evaluates it and finishes its first evaluation. -/
theorem create_leaves {kind : NodeKind} {inputs : List SignalId}
    {compute : List Value → Exec (Except Interrupt Value)}
    {Q : Except Interrupt SignalId → World → Prop}
    (hfailed : ∀ failure, w.graph.insert kind inputs = .error failure →
      Q (.error (.ofFailure failure)) w)
    (hcreated : ∀ id graph, w.graph.insert kind inputs = .ok (id, graph) →
      (evaluateOn id kind compute).Leaves (fun result => (finishFirst id result).Leaves
        (fun finished => Q (finished.map fun () => id)) E) E { w with graph }) :
    (create kind inputs compute).Leaves Q E w := by
  refine leaves_bind.2 (leaves_tryWorld (fun ⟨id, graph⟩ hinsert => ?_) fun failure hinsert => ?_)
  · refine leaves_bind.2 ((hcreated id graph hinsert).mono fun result w₂ hfinish => ?_)
    exact leaves_bind.2 (hfinish.mono fun finished w₃ hQ => leaves_pure.2 hQ)
  · exact leaves_pure.2 (hfailed failure hinsert)

/-- A script discards what is newer than a mark and goes on with what comes of that. -/
theorem discardSince_leaves {session : Session} {hooks : Hooks} {mark : Nat}
    {next : Except Failure Unit → Script} {Q : Except Interrupt Value → World → Prop}
    (hok : ((next (.ok ())).exec session hooks).Leaves Q E
      (w.discard (w.graph.createdSince mark)).2)
    (herror : ∀ failure, ((next (.error failure)).exec session hooks).Leaves Q E
      (w.discard (w.graph.createdSince mark)).2) :
    ((Script.ask (.discardSince mark) next).exec session hooks).Leaves Q E w := by
  refine leaves_bind.2 (leaves_modifyGet.2 ?_)
  dsimp only [answer]
  cases (w.discard (w.graph.createdSince mark)).1 with
  | ok => exact hok
  | error failure => exact herror failure

/-- A reaction runs its program and then discards all that is newer. -/
theorem react_leaves {session : Session} {hooks : Hooks} {program : Program}
    {next : Except Failure Value → Script} {Q : Except Interrupt Value → World → Prop}
    (h : (runProgram session.settings hooks.dispatch program).Leaves (fun _ w₁ => ∀ result,
      ((next result).exec session hooks).Leaves Q E
        (w₁.discard (w₁.graph.createdSince w.graph.mark)).2) E w) :
    ((Script.react program next).exec session hooks).Leaves Q E w := by
  refine leaves_bind.2 (leaves_modifyGet.2 (leaves_bind.2 (h.mono fun result w₁ hnext => ?_)))
  cases result with
  | error failure => exact discardSince_leaves (hnext _) fun _ => hnext _
  | ok value =>
    refine leaves_bind.2 (leaves_modifyGet.2 ?_)
    exact discardSince_leaves (hnext _) fun _ => hnext _

/-- A node stays of the kind that it was added with. -/
theorem kind_eq_of_insert {kind : NodeKind} {w' : World} {id : SignalId} {graph : Graph} {node : Node}
    (hinsert : w.graph.insert kind kind.dependencies = .ok (id, graph))
    (hfollows : Follows { w with graph } w') (hnode : w'.graph.node? id = some node) :
    node.kind = kind := by
  obtain ⟨rank, -, hg⟩ := Graph.grows_insert kind.nodup_dependencies hinsert
  exact (hfollows.sameNode hg.node?_self hnode).kind_eq

/-- If the action succeeds, then with unit. -/
def GivesUnit (x : Exec (Except Interrupt Value)) : Prop :=
  ∀ w value w', x w = (some (.ok value), w') → value = .unit

/-- The computation of a watch gives unit whatever its effect gives. -/
theorem givesUnit_effectOn (effect : Value → Exec (Except Interrupt Value)) (inputs : List Value) :
    (effectOn effect inputs).GivesUnit := by
  intro w value w' heq
  have hleaves : (effectOn effect inputs).Leaves (fun result _ => ∀ value, result = .ok value →
      value = .unit) (fun _ => True) w := by
    refine leaves_bind.2 ((leaves_self _ w).mono fun result _ _ => leaves_pure.2 fun value hok => ?_)
    cases result with
    | error interrupt => cases hok
    | ok given => exact (Except.ok.inj hok).symm
  exact hleaves.of_eq_some heq value rfl

/-- A node that was added as no cell never becomes one. -/
theorem not_isCell_of_insert {kind : NodeKind} {w' : World} {id : SignalId} {graph : Graph}
    (hkind : kind ≠ .cell) (hinsert : w.graph.insert kind kind.dependencies = .ok (id, graph))
    (hfollows : Follows { w with graph } w') : ¬ w'.graph.IsCell id := by
  obtain ⟨rank, -, hg⟩ := Graph.grows_insert kind.nodup_dependencies hinsert
  exact hfollows.not_isCell hg.node?_self hkind

end Exec

/-! ## Passes -/

namespace Session

/-- The order in which a pass from some cells goes through the nodes below them: by rank, and watches
after all others. -/
def passOrder (graph : Graph) (roots : List SignalId) : List SignalId :=
  (graph.plan roots).filter (fun id => !isWatch graph id) ++ (graph.plan roots).filter (isWatch graph)

/-- What a pass from some cells reports as it begins: how many these are, how many nodes below them are
computed, and how many are watches. -/
def passEvent (graph : Graph) (roots : List SignalId) : Event :=
  .propagating roots.length ((graph.plan roots).filter fun id => !isWatch graph id).length
    ((graph.plan roots).filter (isWatch graph)).length

/-- A pass that starts from anything reports so and then evaluates one node after another. -/
theorem propagate_leaves {session : Session} {hooks : Hooks} {roots : List SignalId} {w : World}
    {Q : List Failure → World → Prop} {E : World → Prop} (hnone : roots = [] → Q [] w)
    (h : roots ≠ [] → (evaluateAll session hooks (passOrder w.graph roots)).Leaves Q E
      ((w.report (passEvent w.graph roots)).begin (.propagating roots))) :
    (propagate session hooks roots).Leaves Q E w := by
  unfold propagate
  by_cases hempty : roots = []
  · subst hempty
    exact leaves_pure.2 (hnone rfl)
  · rw [if_neg (by simpa using hempty)]
    simp only [List.partition_eq_filter_filter]
    exact leaves_bind.2 (leaves_get.2 (leaves_bind.2 (leaves_modify.2 (leaves_bind.2
      (leaves_modify.2 (h hempty))))))

end Session

/-! ## Acts -/

/-- What a script may do to nodes and sources. -/
structure Scope where
  /-- The node may be evaluated, and be given a value or dropped. -/
  evaluates : SignalId → Prop
  /-- The node may be removed with all below it. -/
  removes : SignalId → Prop
  /-- The listener may be added. -/
  listens : (Value → Script) → Prop

namespace Scope

/-- Everything is allowed. -/
def all : Scope := ⟨fun _ => True, fun _ => True, fun _ => True⟩

/-- What a script does to the state at once within a scope, apart from writing cells and requesting
changes. -/
inductive Act (scope : Scope) : World → World → Prop where
  /-- The host's document and the journal change. -/
  | host (w : World) (document : Document) (journal : Array Entry) :
    Act scope w { w with document, journal }
  /-- The evaluation of a node begins. -/
  | evaluating (w : World) (id : SignalId) (inputs : List Value) (hid : scope.evaluates id) :
    Act scope w (w.begin (.evaluating id inputs))
  /-- A node that is no cell gets a value, a watch only unit. -/
  | store {w : World} {id : SignalId} {value : Value} {graph : Graph} (hcell : ¬ w.graph.IsCell id)
    (h : w.graph.settle id value = .ok graph) (hid : scope.evaluates id)
    (hunit : ∀ node, w.graph.node? id = some node → node.kind.isWatch → value = .unit) :
    Act scope w { w with graph }
  /-- A cell is added. -/
  | cell (w : World) (value : Value) : Act scope w (w.createCell value).2
  /-- Another node is added. -/
  | insert {w : World} {kind : NodeKind} {id : SignalId} {graph : Graph} (hkind : kind ≠ .cell)
    (h : w.graph.insert kind kind.dependencies = .ok (id, graph)) : Act scope w { w with graph }
  /-- A node and all below it are removed, and so are the subscribers that write them. -/
  | remove {w w' : World} {id : SignalId} {removed : List SignalId}
    (h : w.removeSignal id = .ok (removed, w')) (hid : scope.removes id) : Act scope w w'
  /-- A node that is no cell and all below it are removed. -/
  | drop {w : World} {id : SignalId} {removed : List SignalId} {graph : Graph}
    (hcell : ¬ w.graph.IsCell id) (h : w.graph.remove id = .ok (removed, graph))
    (hid : scope.evaluates id) : Act scope w { w with graph }
  /-- A source is added. -/
  | source (w : World) (name : String) : Act scope w { w with hub := (w.hub.create name).2 }
  /-- An event of an element is bound to a source. -/
  | bind (w : World) (element : ElementId) (event : String) (id : SourceId) :
    Act scope w { w with hub := w.hub.bind element event id }
  /-- A source is added that two others forward to. -/
  | merge {w : World} {left right merged : SourceId} {hub : Hub}
    (h : w.hub.merge left right = .ok (merged, hub)) : Act scope w { w with hub }
  /-- A listener is added. -/
  | listen {w : World} {source : SourceId} {listener : Value → Script} {hub : Hub}
    (h : w.hub.subscribe source (.listener listener) = .ok hub) (hlistens : scope.listens listener) :
    Act scope w { w with hub }
  /-- A cell is added together with a subscriber that writes it. -/
  | attach {w : World} {source : SourceId} {initial : Value} {subscriber : Subscriber} {hub : Hub}
    (htarget : subscriber.target? = some (w.createCell initial).1)
    (h : w.hub.subscribe source subscriber = .ok hub) :
    Act scope w { (w.createCell initial).2 with hub }

/-- Any number of acts. -/
abbrev Acts (scope : Scope) : World → World → Prop := Relation.ReflTransGen scope.Act

end Scope

namespace World

/-- What any script does to the state at once. -/
abbrev Act : World → World → Prop := Scope.all.Act

end World

namespace Scope

variable {scope : Scope} {w w' : World}

/-- An act is one whatever else is allowed. -/
theorem Act.any (h : scope.Act w w') : World.Act w w' := by
  cases h with
  | host document journal => exact .host w document journal
  | evaluating id inputs => exact .evaluating w id inputs trivial
  | store hcell h _ hunit => exact .store hcell h trivial hunit
  | cell value => exact .cell w value
  | insert hkind h => exact .insert hkind h
  | remove h => exact .remove h trivial
  | drop hcell h => exact .drop hcell h trivial
  | source name => exact .source w name
  | bind element event id => exact .bind w element event id
  | merge h => exact .merge h
  | listen h => exact .listen h trivial
  | attach htarget h => exact .attach htarget h

theorem act_report (w : World) (event : Event) : scope.Act w (w.report event) :=
  .host w w.document _

theorem acts_tearDown {id : SignalId} (hid : scope.removes id) (w : World) :
    scope.Acts w (w.tearDown id).2 := by
  unfold tearDown
  cases hremove : w.removeSignal id with
  | error failure => exact .refl
  | ok result => exact .tail (.single (.remove hremove hid)) (act_report _ _)

theorem acts_discard {ids : List SignalId} (hids : ∀ id ∈ ids, scope.removes id) (w : World) :
    scope.Acts w (w.discard ids).2 := by
  induction ids generalizing w with
  | nil => exact .refl
  | cons id rest ih =>
    have hrest := ih fun k hk => hids k (List.mem_cons_of_mem _ hk)
    unfold World.discard
    split
    · cases hremove : w.removeSignal id with
      | error failure => exact .refl
      | ok result =>
        obtain ⟨removed, w₁⟩ := result
        have hfirst : scope.Acts w (w₁.report (.transientsDiscarded id removed.length)) :=
          .tail (.single (.remove hremove (hids id List.mem_cons_self))) (act_report _ _)
        exact hfirst.trans (hrest _)
    · exact hrest w

end Scope

/-- The request removes nodes. -/
def Request.Removes : Request → Prop
  | .tearDown _ | .discardSince _ => True
  | _ => False

/-- Answering a request takes acts. -/
theorem Scope.acts_answer {scope : Scope} (session : Session) (request : Request)
    (hremoves : request.Removes → ∀ id, scope.removes id) (w : World) :
    scope.Acts w (answer session request w).2 := by
  cases request with
  | cell initial => exact .single (.cell w initial)
  | tearDown id => exact acts_tearDown (hremoves trivial id) w
  | discardSince mark => exact acts_discard (fun id _ => hremoves trivial id) w
  | source name => exact .single (.source w name)
  | on element event => exact .tail (.single (.source w _)) (.bind _ element event _)
  | merge left right =>
    simp only [answer, merge]
    cases hmerge : w.hub.merge left right with
    | error failure => exact .refl
    | ok result => exact .single (.merge hmerge)
  | record entry => exact .single (.host w _ _)
  | createElement tagName domId => exact .single (.host w _ _)
  | setProperty id name value =>
    simp only [answer, setProperty]
    cases w.document.setProperty id name value with
    | error failure => exact .refl
    | ok document => exact .single (.host w _ _)
  | _ => exact .refl

namespace World

/-- An act is a step or a few. -/
theorem Act.steps {w w' : World} (h : Act w w') : Steps w w' := by
  cases h with
  | host document journal => exact .single (.host w document journal)
  | evaluating id inputs => exact .tail (.single (.remember w _)) (.host _ w.document _)
  | store _ h => exact .single (.store h)
  | cell value => exact .single (.cell w value)
  | insert hkind h => exact .single (.insert hkind h)
  | remove h => exact .single (.remove h)
  | drop hcell h => exact .single (.drop hcell h)
  | source name => exact .single (.source w name)
  | bind element event id => exact .single (.bind w element event id)
  | merge h =>
    have hforward {w : World} {id merged : SourceId} {hub : Hub}
        (h : w.hub.subscribe id (.forward merged) = .ok hub) : Step w { w with hub } :=
      .subscribe (fun target htarget => by cases htarget) h
    obtain ⟨name, between, -, hleft, hright⟩ := Hub.merge_eq_ok h
    have hcreated : Steps w { w with hub := (w.hub.create name).2 } := .single (.source w name)
    have hbetween : Steps w { w with hub := between } := hcreated.tail (hforward hleft)
    exact hbetween.tail (hforward hright)
  | listen h => exact .single (.subscribe (fun target htarget => by cases htarget) h)
  | @attach source initial subscriber hub htarget h =>
    have hcell : Steps w (w.createCell initial).2 := .single (.cell w initial)
    refine hcell.tail (.subscribe (fun target heq => ?_) h)
    obtain rfl := Option.some.inj (htarget.symm.trans heq)
    exact ⟨_, (Graph.grows_insertCell w.graph initial).node?_self, rfl⟩

/-- An act leaves the queue alone. -/
theorem Act.queue_eq {w w' : World} (h : Act w w') :
    w'.settling = w.settling ∧ w'.queue = w.queue := by
  cases h with
  | host | evaluating | store | cell | insert | drop | source | bind | merge | listen | attach =>
    exact ⟨rfl, rfl⟩
  | remove hremove =>
    obtain ⟨graph, -, rfl⟩ := removeSignal_eq_ok.1 hremove
    exact ⟨rfl, rfl⟩

end World

end EffectGraph
