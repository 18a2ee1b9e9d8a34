import EffectGraph.Proofs.Session.Calls

/-!
# Following a script

A script goes from state to state by acts, each of which changes the state at once, and by requests
for changes, which may lead to other scripts. `Script.Makes.exec_tracked` is the induction over
scripts: a relation between states that leads along all acts and requests that the calls of a script
allow, and that can be put together, leads along everything that the script does. A second relation
says which states a script may be cut off in. `Calls.tracks_hooksAt` carries this from level to level.
-/

namespace EffectGraph

open Exec World

/-! ## Relations that lead along actions -/

/-- Whatever the action does leads along the first relation if the action ends, and along the second
one if it is cut off. -/
def Exec.Tracked {α : Type} (R E : World → World → Prop) (x : Exec α) : Prop :=
  ∀ w, x.Leaves (fun _ w' => R w w') (E w) w

/-- The relations can be put together. -/
structure Joins (R E : World → World → Prop) : Prop where
  refl : ∀ w, R w w
  trans : ∀ {w w₁ w'}, R w w₁ → R w₁ w' → R w w'
  trans_cut : ∀ {w w₁ w'}, R w w₁ → E w₁ w' → E w w'

/-- The relations can be put together, and a script may be cut off where it is. -/
structure Composes (R E : World → World → Prop) : Prop extends Joins R E where
  cut : ∀ w, E w w

/-- The relations also lead along whatever is reported. -/
structure Reports (R E : World → World → Prop) : Prop extends Joins R E where
  report : ∀ event, (Exec.report event).Tracked R E

/-- The relations lead on along the acts that the calls allow. What is allowed is determined by the
state that the relations lead from. -/
structure Calls.Admits (calls : Calls) (R E : World → World → Prop) : Prop
    extends Composes R E where
  act : ∀ {w₀ w w'}, R w₀ w → (calls.scope w₀.graph.slots.size).Act w w' → R w₀ w'
  follows : ∀ {w w'}, R w w' → Follows w w'

/-- The relations also lead along whatever is done elsewhere. -/
structure Calls.Tracks (calls : Calls) (hooks : Hooks) (R E : World → World → Prop) : Prop
    extends calls.Admits R E where
  set : ∀ {w cell value graph}, w.graph.IsCell cell → w.graph.settle cell value = .ok graph →
    (request hooks (.written cell)).Leaves (fun _ w' => R w w') (E w)
      (World.begin { w with graph } (.wrote cell value))
  fire : ∀ {w source payload found}, w.hub.get source = .ok found →
    (request hooks (.fired source payload)).Leaves (fun _ w' => R w w') (E w) w
  dispatch : ∀ i, i.Over calls.tags → (hooks.dispatch i).Tracked R E

/-- The relations lead along all acts. -/
structure Admits (R E : World → World → Prop) : Prop
    extends toCalls : Calls.all.Admits R E where
  every : ∀ {w w'}, Act w w' → R w w'

/-- The relations lead along all acts and whatever is done elsewhere. -/
structure Tracks (hooks : Hooks) (R E : World → World → Prop) : Prop
    extends toCalls : Calls.all.Tracks hooks R E where
  every : ∀ {w w'}, Act w w' → R w w'

variable {α β : Type} {R E : World → World → Prop} {calls : Calls}

namespace Joins

variable (h : Joins R E)

include h

theorem pure (a : α) : Exec.Tracked R E (Pure.pure a) := fun w => leaves_pure.2 (h.refl w)

/-- What is done later leads on from what was done before. -/
theorem after {x : Exec α} (hx : x.Tracked R E) {w w₁ : World} (hbefore : R w w₁) :
    x.Leaves (fun _ w' => R w w') (E w) w₁ :=
  (hx w₁).imp (fun _ _ => h.trans hbefore) fun _ => h.trans_cut hbefore

theorem bind {x : Exec α} {f : α → Exec β} (hx : x.Tracked R E) (hf : ∀ a, (f a).Tracked R E) :
    (x >>= f).Tracked R E :=
  fun w => leaves_bind.2 ((hx w).mono fun a _ hfirst => h.after (hf a) hfirst)

theorem effectOn {effect : Value → Exec (Except Interrupt Value)}
    (heffect : ∀ value, (effect value).Tracked R E) (inputs : List Value) :
    (Exec.effectOn effect inputs).Tracked R E :=
  h.bind (heffect _) fun _ => h.pure _

theorem watch {input : Value} {effect : Value → Script}
    {run : Value → Exec (Except Interrupt Value)} (hrun : ∀ value, (run value).Tracked R E)
    (hcreate : (Exec.create (.watch input effect) (input.collectSignals [])
      (Exec.effectOn run)).Tracked R E) :
    (Exec.watch input (.watch input effect) run).Tracked R E := by
  unfold Exec.watch
  split
  · exact h.bind hcreate fun _ => h.pure _
  · exact h.bind (hrun input) fun _ => h.pure _

end Joins

namespace Composes

variable (h : Composes R E)

include h

theorem failure : Exec.Tracked R E (Alternative.failure : Exec α) :=
  fun w => leaves_failure.2 (h.cut w)

/-- It is enough to know what single acts do. -/
theorem admits (hact : ∀ {w w'}, Act w w' → R w w') (hfollows : ∀ {w w'}, R w w' → Follows w w') :
    Admits R E where
  toComposes := h
  act hbefore hafter := h.trans hbefore (hact hafter.any)
  follows := hfollows
  every := hact

end Composes

theorem Exec.tracked_get_bind {f : World → Exec β}
    (hf : ∀ w, (f w).Leaves (fun _ w' => R w w') (E w) w) :
    ((get : Exec World) >>= f).Tracked R E :=
  fun w => leaves_bind.2 (leaves_get.2 (hf w))

theorem Exec.tracked_modifyGet {f : World → α × World} (hf : ∀ w, R w (f w).2) :
    Exec.Tracked R E (modifyGet f) :=
  fun w => leaves_modifyGet.2 (hf w)

namespace Reports

variable (h : Reports R E)

include h

/-- The cell that a subscriber writes is added, and then the subscriber. -/
theorem attach {source : SourceId} {initial : Value} {subscriber : SignalId → Subscriber}
    (event : SignalId → Event) (hcell : ∀ w : World, R w (w.createCell initial).2)
    (hattached : ∀ {w : World} {hub}, (w.createCell initial).2.hub.subscribe source
      (subscriber (w.createCell initial).1) = .ok hub → R w { (w.createCell initial).2 with hub }) :
    (Exec.attach source initial subscriber event).Tracked R E := by
  refine tracked_get_bind fun w => ?_
  split
  · exact leaves_pure.2 (h.refl w)
  · refine leaves_bind.2 (leaves_modifyGet.2 (leaves_bind.2 (subscribe_leaves ?_ ?_)))
    · exact fun hub hsubscribe => h.after (h.bind (h.report _) fun _ => h.pure _) (hattached hsubscribe)
    · exact fun failure _ => leaves_pure.2 (hcell w)

theorem derive {operands : List Value} {compute : List Value → Script}
    {run : List Value → Exec (Except Interrupt Value)} (hrun : (run operands).Tracked R E)
    (hcreate : (Exec.create (.derived operands compute) (Value.dependencies operands)
      run).Tracked R E) :
    (Exec.derive operands (.derived operands compute) run).Tracked R E := by
  unfold Exec.derive
  split
  · exact hrun
  · refine h.bind hcreate fun result => ?_
    cases result with
    | error interrupt => exact h.pure _
    | ok id => exact h.bind (h.report _) fun _ => h.pure _

theorem announced (settings : Settings)
    {interpreter : Instruction → Exec (Except Interrupt Value)} (step : Nat) (i : Instruction)
    (hinterpreter : (interpreter i).Tracked R E) :
    (Exec.announced settings interpreter step i).Tracked R E := by
  unfold Exec.announced
  dsimp only
  split
  · exact h.bind (h.report _) fun _ => hinterpreter
  · exact hinterpreter

/-- A run of a program leads along the relations if its interpreter does. -/
theorem runProgram (settings : Settings)
    {interpreter : Instruction → Exec (Except Interrupt Value)} {program : Program}
    {tags : Tag → Prop} (hprogram : program.Over tags)
    (hinterpreter : ∀ i, i.Over tags → (interpreter i).Tracked R E) :
    (Exec.runProgram settings interpreter program).Tracked R E := by
  refine tracked_get_bind fun w => ?_
  have hannounced (step : Nat) {i : Instruction} (hi : i.Over tags) :=
    h.announced settings step i (hinterpreter i hi)
  have hkept : (program.run (Exec.announced settings interpreter) settings.stepLimit w).Keeps (R w)
      (E w) := hprogram.run_keeps
    (fun step i w₁ _ _ hi hw₁ hcall => (h.after (hannounced step hi) hw₁).of_eq_some hcall)
    (fun step i w₁ _ hi hw₁ hcall => (h.after (hannounced step hi) hw₁).of_eq_none hcall) (h.refl w)
  generalize program.run (Exec.announced settings interpreter) settings.stepLimit w = halt
    at hkept ⊢
  obtain ⟨outcome, steps, w'⟩ := halt
  refine leaves_bind.2 (leaves_set.2 ?_)
  cases outcome with
  | yielded value => exact h.after (h.bind (h.report _) fun _ => h.pure _) hkept
  | raised payload => exact h.after (h.bind (h.report _) fun _ => h.pure _) hkept
  | exhausted limit => exact h.after (h.bind (h.report _) fun _ => h.pure _) hkept
  | aborted failure => exact leaves_pure.2 hkept
  | unanswered => exact leaves_failure.2 hkept

end Reports

namespace Calls.Admits

variable (h : calls.Admits R E)

include h

theorem single {w w' : World} (hact : (calls.scope w.graph.slots.size).Act w w') : R w w' :=
  h.act (h.refl w) hact

theorem acts {w₀ w w' : World} (hbefore : R w₀ w)
    (hacts : (calls.scope w₀.graph.slots.size).Acts w w') : R w₀ w' := by
  induction hacts with
  | refl => exact hbefore
  | tail _ hact ih => exact h.act ih hact

theorem report (event : Event) : (Exec.report event).Tracked R E :=
  tracked_modifyGet fun w => h.single (Scope.act_report w event)

theorem reports : Reports R E := ⟨h.toJoins, h.report⟩

theorem ask (session : Session) {request : Request} (hremoves : request.Removes → calls.removes) :
    Exec.Tracked R E (modifyGet (World.answer session request) : Exec request.Reply) :=
  tracked_modifyGet fun w => h.acts (h.refl w)
    (Scope.acts_answer session request (fun hrequest _ => Or.inl (hremoves hrequest)) w)

theorem listen (source : SourceId) {listener : Value → Script} (hlistens : calls.listens listener) :
    (subscribe source (.listener listener)).Tracked R E :=
  fun w => subscribe_leaves (fun _ hsubscribe => h.single (.listen hsubscribe hlistens)) fun _ _ =>
    h.refl w

/-- The cell that a subscriber writes is added with it. -/
theorem attach (source : SourceId) (initial : Value) {subscriber : SignalId → Subscriber}
    (event : SignalId → Event) (htarget : ∀ id, (subscriber id).target? = some id) :
    (Exec.attach source initial subscriber event).Tracked R E :=
  h.reports.attach event (fun w => h.single (.cell w initial)) fun hsubscribe =>
    h.single (.attach (htarget _) hsubscribe)

/-- If a new node has to be removed again, it is still no cell. -/
theorem create {kind : NodeKind} {compute : List Value → Exec (Except Interrupt Value)}
    (hkind : kind ≠ .cell) (hunit : kind.isWatch → ∀ inputs, (compute inputs).GivesUnit)
    (hcompute : ∀ inputs, (compute inputs).Tracked R E) :
    (Exec.create kind kind.dependencies compute).Tracked R E := by
  refine fun w => create_leaves (fun _ _ => h.refl w) fun id graph hinsert => ?_
  have hinserted : R w { w with graph } := h.single (.insert hkind hinsert)
  have hnew : w.graph.slots.size ≤ id.index := by
    obtain ⟨rank, -, rfl, -⟩ := Graph.insert_eq_ok.1 hinsert
    exact le_rfl
  have hfinish (result : Except Interrupt Value) {w₂ : World} (hbefore : R w w₂)
      (hfollows : Follows { w with graph } w₂)
      (hgives : kind.isWatch → ∀ value, result = .ok value → value = .unit) :
      (finishFirst id result).Leaves (fun finished w' => R w w') (E w) w₂ := by
    have hcell := not_isCell_of_insert hkind hinsert hfollows
    refine finishFirst_leaves (fun _ _ => hbefore) (fun value graph hok hstore => ?_)
      fun _ _ _ _ hremove => h.act hbefore (.drop hcell hremove hnew)
    refine h.act hbefore (.store hcell hstore hnew fun node hnode hwatch => hgives ?_ value hok)
    rwa [kind_eq_of_insert hinsert hfollows hnode] at hwatch
  refine evaluateOn_cases (fun failure _ => hfinish _ hinserted (.refl _) nofun) fun inputs _ => ?_
  have hbegun : R w (World.begin { w with graph } (.evaluating id inputs)) :=
    h.act hinserted (.evaluating _ id inputs hnew)
  have hnoted : Follows { w with graph } (World.begin { w with graph } (.evaluating id inputs)) :=
    Steps.follows (Act.steps (.evaluating _ id inputs trivial))
  refine (Leaves.and (hcompute inputs _) (leaves_self _ _)).imp (fun result w₂ hran => ?_)
    fun w₂ hcut => h.trans_cut hbegun hcut.1
  refine hfinish result (h.trans hbegun hran.1) (hnoted.trans (h.follows hran.1)) fun hwatch value => ?_
  rintro rfl
  exact hunit hwatch inputs _ _ _ hran.2

theorem derive (operands : List Value) (compute : List Value → Script)
    {run : List Value → Exec (Except Interrupt Value)} (hrun : ∀ inputs, (run inputs).Tracked R E) :
    (Exec.derive operands (.derived operands compute) run).Tracked R E :=
  h.reports.derive (hrun operands) (h.create (by simp) nofun hrun)

theorem watch (input : Value) (effect : Value → Script)
    {run : Value → Exec (Except Interrupt Value)} (hrun : ∀ value, (run value).Tracked R E) :
    (Exec.watch input (.watch input effect) run).Tracked R E :=
  h.toJoins.watch hrun
    (h.create (by simp) (fun _ => givesUnit_effectOn _) (h.effectOn hrun))

end Calls.Admits

theorem Tracks.admits {hooks : Hooks} (h : Tracks hooks R E) : Admits R E := ⟨h.toAdmits, h.every⟩

/-- Any node may be evaluated. -/
theorem Admits.evaluateOn (h : Admits R E) (id : SignalId) (kind : NodeKind)
    {compute : List Value → Exec (Except Interrupt Value)}
    (hcompute : ∀ inputs, (compute inputs).Tracked R E) :
    (Exec.evaluateOn id kind compute).Tracked R E :=
  fun w => evaluateOn_cases (fun _ _ => h.refl w) fun inputs _ =>
    h.after (hcompute inputs) (h.every (.evaluating w id inputs trivial))

/-! ## Scripts -/

theorem Graph.isCell_of_node {graph : Graph} {id : SignalId} {node : Node}
    (hnode : graph.node id = .ok node) (hcell : node.kind.isCell) : graph.IsCell id := by
  refine ⟨node, Graph.node_eq_ok.1 hnode, ?_⟩
  cases hkind : node.kind with
  | cell => rfl
  | derived | watch => simp [hkind, NodeKind.isCell] at hcell

namespace Calls.Tracks

variable {hooks : Hooks} (h : calls.Tracks hooks R E)

include h

theorem writeCell (cell : SignalId) (value : Value) :
    (Exec.writeCell hooks cell value).Tracked R E := by
  refine tracked_get_bind fun w => ?_
  split
  · exact leaves_pure.2 (h.refl w)
  · rename_i node hnode
    split
    · rename_i hcell
      refine leaves_bind.2 (write_leaves (fun graph hstore => ?_) fun failure _ => ?_)
      · exact h.set (Graph.isCell_of_node hnode hcell) hstore
      · exact leaves_pure.2 (h.refl w)
    · exact leaves_pure.2 (h.refl w)

theorem fireSource (source : SourceId) (payload : Value) :
    (Exec.fire hooks source payload).Tracked R E := by
  refine tracked_get_bind fun w => ?_
  split
  · exact leaves_pure.2 (h.refl w)
  · rename_i found hfound
    exact h.fire hfound

/-- What a reaction has created is newer than the moment at which it started. -/
theorem react (session : Session) {program : Program} {next : Except Failure Value → Script}
    (hprogram : program.Over calls.tags)
    (hnext : ∀ result, ((next result).exec session hooks).Tracked R E) :
    ((Script.react program next).exec session hooks).Tracked R E := by
  refine fun w => react_leaves ((h.reports.runProgram _ hprogram h.dispatch w).mono ?_)
  intro _ w₁ hran result
  refine h.after (hnext result) (h.acts hran (Scope.acts_discard (fun id hid => Or.inr ?_) w₁))
  exact of_decide_eq_true (List.mem_filter.1 hid).2

end Calls.Tracks

/-- Whatever a script does leads along relations that lead along the acts, the requests and what is
done elsewhere, as far as its calls allow these. -/
theorem Script.Makes.exec_tracked (session : Session) {hooks : Hooks}
    (h : calls.Tracks hooks R E) {script : Script} (hmakes : script.Makes calls) :
    (script.exec session hooks).Tracked R E := by
  induction hmakes with
  | done result => exact h.pure _
  | ask hremoves _ ih => exact h.bind (h.ask session hremoves) fun reply => ih reply
  | react hprogram _ ih => exact h.react session hprogram ih
  | derive _ _ ihcompute ih => exact h.bind (h.derive _ _ ihcompute) fun reply => ih reply
  | watch _ _ iheffect ih => exact h.bind (h.watch _ _ iheffect) fun reply => ih reply
  | set _ ih => exact h.bind (h.writeCell _ _) fun reply => ih reply
  | fire _ ih => exact h.bind (h.fireSource _ _) fun reply => ih reply
  | fold _ ih => exact h.bind (h.attach _ _ _ fun _ => rfl) fun reply => ih reply
  | foldProgram _ ih => exact h.bind (h.attach _ _ _ fun _ => rfl) fun reply => ih reply
  | listen hlistens _ ih => exact h.bind (h.listen _ hlistens) fun reply => ih reply
  | run hprogram _ ih =>
    exact h.bind (h.reports.runProgram _ hprogram h.dispatch) fun reply => ih reply
  | @runWith settings program interpreter next _ _ ihinterpreter ih =>
    exact h.bind (h.reports.runProgram settings program.over_all fun i _ => ihinterpreter i) fun reply =>
      ih reply
  | dispatch hi _ ih => exact h.bind (h.dispatch _ hi) fun reply => ih reply

/-- Whatever a script does leads along relations that lead along all acts, requests and what is done
elsewhere. -/
theorem Script.exec_tracked (session : Session) {hooks : Hooks} (h : Tracks hooks R E)
    (script : Script) : (script.exec session hooks).Tracked R E :=
  script.makes_all.exec_tracked session h.toCalls

/-! ## Between scripts -/

namespace Session

variable (session : Session) {hooks : Hooks}

theorem checkShape_tracked (h : Joins R E) (i : Instruction) (value : Value) :
    (checkShape i value).Tracked R E := by
  unfold checkShape
  split
  · exact h.pure _
  · refine tracked_get_bind fun w => ?_
    split
    · exact leaves_pure.2 (h.refl w)
    · split
      · exact leaves_pure.2 (h.refl w)
      · exact leaves_pure.2 (h.refl w)

/-- A call leads along the relations if its handler does. -/
theorem dispatch_of_handler (h : Joins R E) {i : Instruction}
    (hhandler : ∀ handler, Keyed.get? i.tag session.handlers = some handler →
      ((handler i).exec session hooks).Tracked R E) : (dispatch session hooks i).Tracked R E := by
  unfold dispatch
  split
  · exact h.pure _
  · rename_i handler hfound
    refine h.bind (hhandler handler hfound) fun result => ?_
    cases result with
    | error interrupt => exact h.pure _
    | ok value =>
      dsimp only
      split
      · exact checkShape_tracked h i value
      · exact h.pure _

theorem dispatch_tracked (h : calls.Tracks hooks R E) (hmakes : session.Makes calls)
    {i : Instruction} (hi : i.Over calls.tags) : (dispatch session hooks i).Tracked R E :=
  dispatch_of_handler session h.toJoins fun handler hfound =>
    (hmakes i handler hi hfound).exec_tracked session h

/-- What a request for a change does at every level carries over to all that scripts do. -/
theorem tracks_hooksAt (h : calls.Admits R E) (hmakes : session.Makes calls)
    (hset : ∀ level {w cell value graph}, w.graph.IsCell cell →
      w.graph.settle cell value = .ok graph →
        (request (session.hooksAt level) (.written cell)).Leaves (fun _ w' => R w w') (E w)
          (World.begin { w with graph } (.wrote cell value)))
    (hfire : ∀ level {w source payload found}, w.hub.get source = .ok found →
      (request (session.hooksAt level) (.fired source payload)).Leaves (fun _ w' => R w w') (E w) w)
    (level : Nat) : calls.Tracks (session.hooksAt level) R E := by
  induction level with
  | zero => exact ⟨h, hset 0, hfire 0, fun _ _ => h.failure⟩
  | succ n ih =>
    exact ⟨h, hset (n + 1), hfire (n + 1), fun _ hi => dispatch_tracked session ih hmakes hi⟩

theorem computation_tracked (h : Calls.all.Tracks hooks R E) (kind : NodeKind)
    (inputs : List Value) : (computation session hooks kind inputs).Tracked R E := by
  cases kind with
  | cell => exact h.pure _
  | derived operands compute => exact (compute inputs).makes_all.exec_tracked session h
  | watch input effect =>
    exact h.effectOn (fun value => (effect value).makes_all.exec_tracked session h) inputs

/-- A watch only ever gets unit. -/
theorem computation_givesUnit {kind : NodeKind} (hwatch : kind.isWatch) (inputs : List Value) :
    (computation session hooks kind inputs).GivesUnit := by
  cases kind with
  | cell | derived => cases hwatch
  | watch input effect =>
    exact givesUnit_effectOn (fun value => (effect value).exec session hooks) inputs

/-- A computed node is of the same kind, and so no cell, before its computation and after it. -/
theorem evaluate_tracked (h : Tracks hooks R E) (id : SignalId) :
    (evaluate session hooks id).Tracked R E := by
  refine tracked_get_bind fun w => ?_
  split
  · exact leaves_pure.2 (h.refl w)
  · rename_i node hnode
    split
    · exact leaves_pure.2 (h.refl w)
    · rename_i hcomputed
      have hkind : node.kind ≠ .cell := fun hcell => hcomputed (by rw [hcell]; rfl)
      have hself := Graph.node_eq_ok.1 hnode
      refine leaves_bind.2 (evaluateOn_cases (fun _ _ => leaves_pure.2 (h.refl w)) fun inputs _ => ?_)
      have hbegun : R w (w.begin (.evaluating id inputs)) := h.every (.evaluating w id inputs trivial)
      refine (Leaves.and (h.after (computation_tracked session h.toCalls node.kind inputs) hbegun)
        (leaves_self _ _)).imp (fun result w₁ hran => ?_) fun _ hcut => hcut.1
      obtain ⟨hevaluated, heq⟩ := hran
      cases result with
      | error interrupt => exact leaves_pure.2 hevaluated
      | ok value =>
        have hfollows := h.follows hevaluated
        refine settleNode_leaves (fun graph hstore => ?_) fun _ _ => hevaluated
        refine h.trans hevaluated (h.every (.store (hfollows.not_isCell hself hkind) hstore trivial ?_))
        intro node' hnode' hwatch
        rw [(hfollows.sameNode hself hnode').kind_eq] at hwatch
        exact computation_givesUnit session hwatch inputs _ _ _ heq

/-- Evaluating some nodes goes from what is known while they are all still to be evaluated to what is
known when none is left: an evaluation takes the first one off, a report changes nothing of it, and a
node that does not exist is passed over. -/
theorem evaluateAll_keeps {I : List SignalId → World → Prop} {E : World → Prop}
    (hevaluate : ∀ {id rest w}, I (id :: rest) w → w.graph.contains id →
      (evaluate session hooks id).Leaves (fun _ w' => I rest w') E w)
    (hreport : ∀ {rest w} event, I rest w → I rest (w.report event))
    (hskip : ∀ {id rest w}, I (id :: rest) w → ¬ w.graph.contains id → I rest w)
    {ids : List SignalId} {w : World} (h : I ids w) :
    (evaluateAll session hooks ids).Leaves (fun _ w' => I [] w') E w := by
  induction ids generalizing w with
  | nil => exact leaves_pure.2 h
  | cons id rest ih =>
    refine leaves_bind.2 (leaves_get.2 ?_)
    split
    · rename_i hlive
      refine leaves_bind.2 ((hevaluate h hlive).mono fun result w₁ hdone => ?_)
      cases result with
      | ok _ => exact ih hdone
      | error failure =>
        refine leaves_bind.2 (leaves_modify.2 (leaves_bind.2 ?_))
        exact (ih (hreport _ hdone)).mono fun _ _ hrest => leaves_pure.2 hrest
    · rename_i hgone
      exact ih (hskip h hgone)

/-- Evaluating some nodes leads along the relations if evaluating each of them does. -/
theorem evaluateAll_of_evaluate (h : Reports R E)
    (hevaluate : ∀ id, (evaluate session hooks id).Tracked R E) (ids : List SignalId) :
    (evaluateAll session hooks ids).Tracked R E :=
  fun w => evaluateAll_keeps session (I := fun _ w' => R w w')
    (fun hbefore _ => h.after (hevaluate _) hbefore)
    (fun event hbefore => h.trans hbefore (h.report event _)) (fun hbefore _ => hbefore) (h.refl w)

theorem evaluateAll_tracked (h : Tracks hooks R E) (ids : List SignalId) :
    (evaluateAll session hooks ids).Tracked R E :=
  evaluateAll_of_evaluate session h.reports (evaluate_tracked session h) ids

end Session

/-! ## Batches -/

/-- Something starts: a reducer, a pass, a computation or a listener. -/
def Activity.IsStart : Activity → Prop
  | .reducing .. | .propagating _ | .evaluating .. | .listening _ => True
  | .queued _ | .applied _ | .wrote .. => False

/-- The node whose computation starts, if the activity is that. -/
def Activity.evaluates? : Activity → Option SignalId
  | .evaluating id _ => some id
  | _ => none

/-- The relations lead along whatever scripts do and whatever is reported, and along the moments at
which anything but a computation starts. -/
structure Session.Carries (session : Session) (hooks : Hooks) (R E : World → World → Prop) : Prop
    extends Reports R E where
  exec : ∀ script : Script, (script.exec session hooks).Tracked R E
  start : ∀ {w activity}, activity.IsStart → activity.evaluates? = none → R w (w.begin activity)

namespace Session.Carries

variable {session : Session} {hooks : Hooks} (h : session.Carries hooks R E)

include h

theorem begin (activity : Activity) (hstart : activity.IsStart) (hnode : activity.evaluates? = none) :
    (Exec.begin activity).Tracked R E :=
  tracked_modifyGet fun _ => h.start hstart hnode

theorem reduce (payload : Value) (target : SignalId) (reducer : Value → Script) :
    (Session.reduce session hooks payload target reducer).Tracked R E := by
  refine tracked_get_bind fun w => ?_
  split
  · exact leaves_pure.2 (h.refl w)
  · rename_i current _
    refine h.bind (h.begin (.reducing target current payload) trivial rfl) (fun _ => ?_) w
    refine h.bind (h.exec _) fun result => ?_
    cases result with
    | error interrupt => exact h.pure _
    | ok value => exact tracked_get_bind fun w₁ => leaves_pure.2 (h.refl w₁)

theorem reduceProgram (payload : Value) (target : SignalId) (reducer : Value → Program) :
    (Session.reduceProgram session hooks payload target reducer).Tracked R E := by
  refine tracked_get_bind fun w => ?_
  split
  · exact leaves_pure.2 (h.refl w)
  · rename_i current _
    refine h.bind (h.begin (.reducing target current payload) trivial rfl) (fun _ => ?_) w
    exact h.bind (h.exec _) fun _ => h.pure _

theorem notifyAll (payload : Value) (subscribers : List Subscriber) :
    (Session.notifyAll session hooks payload subscribers).Tracked R E := by
  induction subscribers with
  | nil => exact h.pure _
  | cons subscriber rest ih =>
    cases subscriber with
    | listener listener =>
      refine h.bind (h.begin (.listening payload) trivial rfl) fun _ => ?_
      refine h.bind (h.exec _) fun result => ?_
      cases result with
      | ok _ => exact ih
      | error interrupt => exact h.bind ih fun _ => h.pure _
    | fold | foldProgram | forward => exact ih

theorem propagate (hevaluate : ∀ id, (evaluate session hooks id).Tracked R E)
    (roots : List SignalId) : (Session.propagate session hooks roots).Tracked R E := by
  unfold Session.propagate
  split
  · exact h.pure _
  · refine tracked_get_bind fun w => h.bind (h.report _) (fun _ => ?_) w
    exact h.bind (h.begin (.propagating roots) trivial rfl) fun _ =>
      evaluateAll_of_evaluate session h.toReports hevaluate _

end Session.Carries

/-- What leads along all acts carries all that a batch runs, if it also leads along the moments at
which something starts. -/
theorem Tracks.carries {hooks : Hooks} (h : Tracks hooks R E)
    (hstart : ∀ {w activity}, activity.IsStart → R w (w.begin activity)) (session : Session) :
    session.Carries hooks R E where
  toReports := h.reports
  exec := Script.exec_tracked session h
  start h _ := hstart h

end EffectGraph
