import EffectGraph.Proofs.Session.Levels

/-!
# Following the document and the journal

Relations between states that lead along all acts of scripts cannot tell how the document or the journal
has changed. `Tells` is for relations that can: it asks of each single thing that a session does to its
document, its journal and its past that the relation leads along it. `Session.hooksAt_told` is the
induction over scripts, batches and levels for such a relation; what the evaluation of a node comes to
is left to the relation.
-/

namespace EffectGraph

open Exec World

/-- The relations lead along all that is done at once, one kind of change after the other. -/
structure Tells (R E : World → World → Prop) : Prop extends Composes R E where
  follows : ∀ {w w'}, R w w' → Follows w w'
  /-- The document, the journal and the past stay. -/
  still : ∀ {w w'}, Steps w w' → w'.document = w.document → w'.journal = w.journal →
    w'.past = w.past → R w w'
  log : ∀ w entry, R w (w.log entry)
  element : ∀ w tagName domId, R w { w with document := (w.document.create tagName domId).2 }
  property : ∀ w id name value, R w (w.setProperty id name value).2
  begin : ∀ {w activity}, activity.evaluates? = none → R w (w.begin activity)
  /-- The evaluation of a node begins that is younger than the state. -/
  evaluating : ∀ {w w₁ id inputs}, R w w₁ → w.graph.slots.size ≤ id.index →
    R w (w₁.begin (.evaluating id inputs))

variable {α β : Type} {R E : World → World → Prop} {session : Session} {hooks : Hooks}

namespace Tells

variable (h : Tells R E)

include h

theorem act {w w' : World} (hact : Act w w') (hdocument : w'.document = w.document)
    (hjournal : w'.journal = w.journal) (hpast : w'.past = w.past) : R w w' :=
  h.still hact.steps hdocument hjournal hpast

theorem report (event : Event) : (Exec.report event).Tracked R E :=
  tracked_modifyGet fun w => h.log w (.event event)

theorem reports : Reports R E := ⟨h.toJoins, h.report⟩

theorem removeSignal {w w' : World} {id : SignalId} {removed : List SignalId}
    (hremove : w.removeSignal id = .ok (removed, w')) : R w w' := by
  obtain ⟨graph, hgraph, rfl⟩ := removeSignal_eq_ok.1 hremove
  exact h.act (.remove hremove trivial) rfl rfl rfl

theorem tearDown (w : World) (id : SignalId) : R w (w.tearDown id).2 := by
  unfold World.tearDown
  cases hremove : w.removeSignal id with
  | error failure => exact h.refl w
  | ok result => exact h.trans (h.removeSignal hremove) (h.log _ _)

theorem discard (w : World) (ids : List SignalId) : R w (w.discard ids).2 := by
  induction ids generalizing w with
  | nil => exact h.refl w
  | cons id rest ih =>
    unfold World.discard
    split
    · cases hremove : w.removeSignal id with
      | error failure => exact h.refl w
      | ok result => exact h.trans (h.trans (h.removeSignal hremove) (h.log _ _)) (ih _)
    · exact ih w

theorem answer (session : Session) (request : Request) (w : World) :
    R w (World.answer session request w).2 := by
  cases request with
  | cell initial => exact h.act (.cell w initial) rfl rfl rfl
  | tearDown id => exact h.tearDown w id
  | discardSince mark => exact h.discard w _
  | source name => exact h.act (.source w name) rfl rfl rfl
  | on element event =>
    exact h.trans (h.act (.source w _) rfl rfl rfl) (h.act (.bind _ element event _) rfl rfl rfl)
  | merge left right =>
    simp only [World.answer, World.merge]
    cases hmerge : w.hub.merge left right with
    | error failure => exact h.refl w
    | ok result => exact h.act (.merge hmerge) rfl rfl rfl
  | record entry => exact h.log w entry
  | createElement tagName domId => exact h.element w tagName domId
  | setProperty id name value => exact h.property w id name value
  | _ => exact h.refl w

theorem listen (source : SourceId) (listener : Value → Script) :
    (subscribe source (.listener listener)).Tracked R E :=
  fun w => subscribe_leaves (fun _ hsubscribe => h.act (.listen hsubscribe trivial) rfl rfl rfl)
    fun _ _ => h.refl w

theorem attach (source : SourceId) (initial : Value) {subscriber : SignalId → Subscriber}
    (event : SignalId → Event) (htarget : ∀ id, (subscriber id).target? = some id) :
    (Exec.attach source initial subscriber event).Tracked R E :=
  h.reports.attach event (fun w => h.act (.cell w initial) rfl rfl rfl) fun hsubscribe =>
    h.act (.attach (htarget _) hsubscribe) rfl rfl rfl

theorem create {kind : NodeKind} {compute : List Value → Exec (Except Interrupt Value)}
    (hkind : kind ≠ .cell) (hcompute : ∀ inputs, (compute inputs).Tracked R E) :
    (Exec.create kind kind.dependencies compute).Tracked R E := by
  refine fun w => create_leaves (fun _ _ => h.refl w) fun id graph hinsert => ?_
  have hinserted : R w { w with graph } := h.act (.insert hkind hinsert) rfl rfl rfl
  have hnew : w.graph.slots.size ≤ id.index := by
    obtain ⟨rank, -, rfl, -⟩ := Graph.insert_eq_ok.1 hinsert
    exact le_rfl
  have hfinish (result : Except Interrupt Value) {w₂ : World} (hbefore : R w w₂)
      (hfollows : Follows { w with graph } w₂) : (finishFirst id result).Leaves
        (fun finished w' => R w w') (E w) w₂ := by
    have hcell := not_isCell_of_insert hkind hinsert hfollows
    refine finishFirst_leaves (fun _ _ => hbefore) (fun _ _ _ hstore => ?_) fun _ _ _ _ hremove => ?_
    · exact h.trans hbefore (h.still (.single (.store hstore)) rfl rfl rfl)
    · exact h.trans hbefore (h.act (.drop hcell hremove trivial) rfl rfl rfl)
  refine evaluateOn_cases (fun failure _ => hfinish _ hinserted (.refl _)) fun inputs _ => ?_
  have hbegun : R w (World.begin { w with graph } (.evaluating id inputs)) :=
    h.evaluating hinserted hnew
  have hnoted : Follows { w with graph } (World.begin { w with graph } (.evaluating id inputs)) :=
    Steps.follows (steps_begin _ _)
  refine (hcompute inputs _).imp (fun result w₂ hran => ?_) fun w₂ => h.trans_cut hbegun
  exact hfinish result (h.trans hbegun hran) (hnoted.trans (h.follows hran))

theorem derive (operands : List Value) (compute : List Value → Script)
    {run : List Value → Exec (Except Interrupt Value)} (hrun : ∀ inputs, (run inputs).Tracked R E) :
    (Exec.derive operands (.derived operands compute) run).Tracked R E :=
  h.reports.derive (hrun operands) (h.create (by simp) hrun)

theorem watch (input : Value) (effect : Value → Script)
    {run : Value → Exec (Except Interrupt Value)} (hrun : ∀ value, (run value).Tracked R E) :
    (Exec.watch input (.watch input effect) run).Tracked R E :=
  h.toJoins.watch hrun (h.create (by simp) (h.effectOn hrun))

theorem write (cell : SignalId) (value : Value) : (Exec.write cell value).Tracked R E := by
  refine fun w => write_leaves (fun graph hstore => ?_) fun _ _ => h.refl w
  have hstored : R w { w with graph } := h.still (.single (.store hstore)) rfl rfl rfl
  exact h.trans hstored (h.begin rfl)

end Tells

/-! ## Scripts -/

/-- The relations lead along whatever is done elsewhere. -/
structure Hooks.Told (hooks : Hooks) (R E : World → World → Prop) : Prop extends Tells R E where
  dispatch : ∀ i, (hooks.dispatch i).Tracked R E
  settle : ∀ change, (hooks.settle change).Tracked R E

namespace Hooks.Told

variable (h : hooks.Told R E)

include h

theorem request (change : Change) : (Exec.request hooks change).Tracked R E := by
  refine tracked_get_bind fun w => ?_
  split
  · split
    · exact leaves_pure.2 (h.refl w)
    · have hqueued (queue : World → List Change) :
          (modify fun w => { w with queue := queue w } : Exec PUnit).Tracked R E :=
        tracked_modifyGet fun w => h.still (.single (.enqueue w _)) rfl rfl rfl
      have hbegun : (Exec.begin (.queued change)).Tracked R E :=
        tracked_modifyGet fun _ => h.begin rfl
      refine h.bind (h.report _) (fun _ => h.bind hbegun fun _ => ?_) w
      exact h.bind (hqueued _) fun _ => h.pure _
  · exact h.settle change w

theorem writeCell (cell : SignalId) (value : Value) :
    (Exec.writeCell hooks cell value).Tracked R E := by
  refine tracked_get_bind fun w => ?_
  split
  · exact leaves_pure.2 (h.refl w)
  · split
    · refine h.bind (h.write cell value) (fun result => ?_) w
      cases result with
      | ok _ => exact h.request _
      | error failure => exact h.pure _
    · exact leaves_pure.2 (h.refl w)

theorem fire (source : SourceId) (payload : Value) :
    (Exec.fire hooks source payload).Tracked R E := by
  refine tracked_get_bind fun w => ?_
  split
  · exact leaves_pure.2 (h.refl w)
  · exact h.request _ w

/-- Whatever a script does leads along the relations. -/
theorem exec (session : Session) (script : Script) : (script.exec session hooks).Tracked R E := by
  induction script with
  | done result => exact h.pure _
  | ask request next ih =>
    exact h.bind (tracked_modifyGet fun w => h.answer session request w) fun reply => ih reply
  | derive operands compute next ihcompute ih =>
    exact h.bind (h.derive _ _ ihcompute) fun reply => ih reply
  | watch input effect next iheffect ih =>
    exact h.bind (h.watch _ _ iheffect) fun reply => ih reply
  | set cell value next ih => exact h.bind (h.writeCell _ _) fun reply => ih reply
  | fire source payload next ih => exact h.bind (h.fire _ _) fun reply => ih reply
  | fold source initial reducer next _ ih =>
    exact h.bind (h.attach _ _ _ fun _ => rfl) fun reply => ih reply
  | foldProgram source initial reducer next ih =>
    exact h.bind (h.attach _ _ _ fun _ => rfl) fun reply => ih reply
  | listen source listener next _ ih => exact h.bind (h.listen _ _) fun reply => ih reply
  | run program next ih =>
    exact h.bind (h.reports.runProgram _ program.over_all fun i _ => h.dispatch i) fun reply =>
      ih reply
  | runWith settings program interpreter next ihinterpreter ih =>
    exact h.bind (h.reports.runProgram _ program.over_all fun i _ => ihinterpreter i) fun reply =>
      ih reply
  | dispatch instruction next ih => exact h.bind (h.dispatch _) fun reply => ih reply

theorem carries (session : Session) : session.Carries hooks R E where
  toReports := h.reports
  exec := h.exec session
  start _ hnode := h.begin hnode

end Hooks.Told

/-! ## Batches -/

namespace Session

variable (session : Session) (h : hooks.Told R E)

include h

theorem reduceAll_told (payload : Value) (subscribers : List Subscriber) :
    ∀ written, (reduceAll session hooks payload written subscribers).Tracked R E := by
  induction subscribers with
  | nil =>
    intro written
    rw [reduceAll]
    exact h.pure _
  | cons subscriber rest ih =>
    intro written
    have hfinish (target : SignalId) (next : Except Failure Value) :
        (reduceAll.finish session hooks payload written target next rest).Tracked R E := by
      have hstored : (storeReduced target next).Tracked R E := by
        cases next with
        | error failure => exact h.pure _
        | ok value => exact h.write target value
      unfold reduceAll.finish
      refine h.bind hstored fun result => ?_
      cases result with
      | ok _ => exact ih _
      | error failure =>
        exact h.bind (h.report _) fun _ => h.bind (ih written) fun _ => h.pure _
    rw [reduceAll.eq_def]
    cases subscriber with
    | fold target reducer =>
      exact h.bind ((h.carries session).reduce payload target _) fun next => hfinish target next
    | foldProgram target reducer =>
      exact h.bind ((h.carries session).reduceProgram payload target _) fun next => hfinish target next
    | listener listener => exact ih written
    | forward source => exact ih written

variable (hevaluate : ∀ id, (evaluate session hooks id).Tracked R E)

include hevaluate

theorem deliver_told (source : SourceId) (payload : Value) :
    (deliver session hooks source payload).Tracked R E := by
  refine tracked_get_bind fun w => ?_
  split
  · exact leaves_pure.2 (h.refl w)
  · rename_i subscribers hub hdeliver
    rw [leaves_bind, leaves_set]
    refine h.after ?_ (h.still (.single (.deliver hdeliver)) rfl rfl rfl)
    refine h.bind (h.report _) fun _ => ?_
    refine h.bind (reduceAll_told session h payload subscribers []) fun reduced => ?_
    refine h.bind ((h.carries session).propagate hevaluate _) fun _ => ?_
    exact h.bind ((h.carries session).notifyAll payload subscribers) fun _ => h.pure _

theorem drain_told (bound : Nat) : ∀ change, (drain session hooks bound change).Tracked R E := by
  induction bound with
  | zero => exact fun _ => h.failure
  | succ n ih =>
    intro change
    have happly : (apply session hooks change).Tracked R E := by
      refine h.bind (tracked_modifyGet fun _ => h.begin rfl) fun _ => ?_
      cases change with
      | written cell => exact (h.carries session).propagate hevaluate _
      | fired source payload => exact deliver_told session h hevaluate source payload
    refine h.bind happly fun failures => tracked_get_bind fun w => ?_
    split
    · exact leaves_pure.2 (h.refl w)
    · rename_i next queue _
      rw [leaves_bind, leaves_set]
      exact h.after (h.bind (ih next) fun _ => h.pure _)
        (h.still (.single (.enqueue w queue)) rfl rfl rfl)

theorem settle_told (bound : Nat) (change : Change) :
    (settle session hooks bound change).Tracked R E := by
  have hswitched (settling : Bool) :
      (modify fun w => { w with settling } : Exec PUnit).Tracked R E :=
    tracked_modifyGet fun w => h.still (.single (.settling w settling)) rfl rfl rfl
  refine h.bind (hswitched true) fun _ => ?_
  refine h.bind (drain_told session h hevaluate bound change) fun failures => ?_
  refine h.bind (hswitched false) fun _ => ?_
  dsimp only
  split
  · exact h.pure _
  · exact h.bind (h.report _) fun _ => h.pure _

omit h hevaluate

/-- What every evaluation of a node does at every level carries over to all that a session does. -/
theorem hooksAt_told (h : Tells R E)
    (hevaluate : ∀ level, (session.hooksAt level).Told R E →
      ∀ id, (evaluate session (session.hooksAt level) id).Tracked R E) (level : Nat) :
    (session.hooksAt level).Told R E := by
  induction level with
  | zero => exact ⟨h, fun _ => h.failure, fun _ => h.failure⟩
  | succ n ih => 
    exact ⟨h, fun i => dispatch_of_handler session h.toJoins fun handler _ => ih.exec session _,
      settle_told session ih (hevaluate n ih) n⟩

/-- The evaluation of a node that is no exception takes what the relations lead along. -/
theorem evaluate_told (h : hooks.Told R E) {id : SignalId}
    (hbegin : ∀ {w inputs}, R w (w.begin (.evaluating id inputs))) :
    (evaluate session hooks id).Tracked R E := by
  refine tracked_get_bind fun w => ?_
  split
  · exact leaves_pure.2 (h.refl w)
  · rename_i node hnode
    split
    · exact leaves_pure.2 (h.refl w)
    · have hcomputation (inputs : List Value) :
          (computation session hooks node.kind inputs).Tracked R E := by
        cases node.kind with
        | cell => exact h.pure _
        | derived operands compute => exact h.exec session _
        | watch input effect => exact h.effectOn (fun value => h.exec session _) inputs
      have hstored (result : Except Interrupt Value) : (store id result).Tracked R E := by
        cases result with
        | error interrupt => exact h.pure _
        | ok value =>
          exact fun w => settleNode_leaves
            (fun _ hstore => h.still (.single (.store hstore)) rfl rfl rfl) fun _ _ => h.refl w
      refine leaves_bind.2 (evaluateOn_cases (fun _ _ => leaves_pure.2 (h.refl w)) fun inputs _ => ?_)
      exact leaves_bind.1 (h.after (h.bind (hcomputation inputs) hstored) hbegin)

end Session

end EffectGraph
