import EffectGraph.Proofs.Session.Keeping
import EffectGraph.Proofs.Session.Passes

/-!
# With and without checks

`Session.checking` switches the checks of results on or off. A script that keeps to the catalog does the
same in both cases, from any state whose nodes and subscribers keep to the catalog
(`Script.Yields.alike`), and so does the settling of a change (`Session.alike_settle`), as long as
dispatching an instruction and settling a change one level below do.
-/

namespace EffectGraph

open Exec World

/-- The session with the checks of results on or off. -/
def Session.checking (session : Session) (checks : Bool) : Session :=
  { session with settings := { session.settings with checkResults := checks } }

/-! ## Actions that do the same -/

namespace Exec

variable {α β : Type}

/-- The actions do the same in a state. What they end with has the property, and the state they leave
keeps to the catalog. -/
def Alike (P : α → World → Prop) (x y : Exec α) (w : World) : Prop :=
  x w = y w ∧ x.Leaves (fun a v => P a v ∧ v.Keeps) World.Keeps w

section

variable {x y : Exec α} {P R : α → World → Prop} {w : World}

theorem Alike.mono (h : Alike P x y w) (hsub : ∀ a v, P a v → R a v) : Alike R x y w :=
  ⟨h.1, h.2.mono fun a v hP => ⟨hsub a v hP.1, hP.2⟩⟩

theorem Alike.and_leaves (h : Alike P x y w) (hx : x.Leaves R (fun _ => True) w) :
    Alike (fun a v => P a v ∧ R a v) x y w :=
  ⟨h.1, (h.2.and hx).imp (fun _ _ hboth => ⟨⟨hboth.1.1, hboth.2⟩, hboth.1.2⟩) fun _ hcut => hcut.1⟩

theorem alike_self (h : x.Leaves (fun a v => P a v ∧ v.Keeps) World.Keeps w) : Alike P x x w :=
  ⟨rfl, h⟩

theorem alike_pure {a : α} (hw : w.Keeps) (ha : P a w) : Alike P (pure a) (pure a) w :=
  alike_self (leaves_pure.2 ⟨ha, hw⟩)

theorem alike_failure (hw : w.Keeps) : Alike P (failure : Exec α) failure w :=
  alike_self (leaves_failure.2 hw)

theorem Alike.bind {f g : α → Exec β} {Q : β → World → Prop} (h : Alike P x y w)
    (hf : ∀ a v, P a v → v.Keeps → Alike Q (f a) (g a) v) : Alike Q (x >>= f) (y >>= g) w := by
  refine ⟨?_, leaves_bind.2 (h.2.mono fun a v hP => (hf a v hP.1 hP.2).2)⟩
  rcases hx : x w with ⟨_ | a, v⟩
  · rw [bind_eq_of_eq_none hx, bind_eq_of_eq_none (h.1.symm.trans hx)]
  · obtain ⟨hP, hv⟩ := h.2.of_eq_some hx
    rw [bind_eq_of_eq_some hx, bind_eq_of_eq_some (h.1.symm.trans hx)]
    exact (hf a v hP hv).1

theorem alike_get_bind {f g : World → Exec β} {Q : β → World → Prop} (hw : w.Keeps)
    (hf : Alike Q (f w) (g w) w) : Alike Q (get >>= f) (get >>= g) w := by
  refine Alike.bind (P := fun v v' => v = w ∧ v' = w) (alike_self (leaves_get.2 ⟨⟨rfl, rfl⟩, hw⟩)) ?_
  rintro v v' ⟨rfl, rfl⟩ _
  exact hf

theorem alike_modify {f : World → World} (hw : (f w).Keeps) :
    Alike (fun _ v => v = f w) (modify f : Exec PUnit) (modify f) w :=
  alike_self (leaves_modify.2 ⟨rfl, hw⟩)

end

/-! ## Single actions -/

variable {w : World}

theorem alike_report (hw : w.Keeps) (event : Event) :
    Alike (fun _ v => v = w.report event) (report event) (report event) w :=
  alike_modify ⟨hw.nodes, hw.subscribers⟩

theorem alike_begin (hw : w.Keeps) (activity : Activity) :
    Alike (fun _ v => v = w.begin activity) (begin activity) (begin activity) w :=
  alike_modify ⟨hw.nodes, hw.subscribers⟩

theorem alike_settleNode (hw : w.Keeps) (id : SignalId) (value : Value) :
    Alike (fun r _ => Fails Failure.IsOrdinary r) (settleNode id value) (settleNode id value) w := by
  refine alike_self (settleNode_leaves (fun graph hstore => ⟨fails_ok _, hw.settle hstore⟩) ?_)
  intro failure hgone
  obtain ⟨-, rfl⟩ := Graph.node_eq_error.1 hgone
  exact ⟨fails_error trivial, hw⟩

theorem alike_write (hw : w.Keeps) (cell : SignalId) (value : Value) :
    Alike (fun r _ => Fails Failure.IsOrdinary r) (write cell value) (write cell value) w := by
  refine (alike_settleNode hw cell value).bind fun reply v hfails hv => ?_
  cases reply with
  | error failure => exact alike_pure hv hfails
  | ok _ => exact (alike_begin hv _).bind fun _ v' _ hv' => alike_pure hv' (fails_ok _)

theorem alike_subscribe (hw : w.Keeps) (source : SourceId) {subscriber : Subscriber}
    (hkeeps : subscriber.Keeps) : Alike (fun r _ => Fails Failure.IsOrdinary r)
      (subscribe source subscriber) (subscribe source subscriber) w := by
  refine alike_self (subscribe_leaves (fun hub hsubscribe => ?_) fun failure hfailed => ?_)
  · exact ⟨fails_ok _, hw.subscribe hkeeps hsubscribe⟩
  · exact ⟨fails_error (w.hub.fails_subscribe source subscriber failure hfailed), hw⟩

theorem alike_attach (hw : w.Keeps) (source : SourceId) (initial : Value)
    {subscriber : SignalId → Subscriber} (hkeeps : ∀ id, (subscriber id).Keeps)
    (event : SignalId → Event) : Alike (fun r _ => Fails Failure.IsOrdinary r)
      (attach source initial subscriber event) (attach source initial subscriber event) w := by
  refine alike_get_bind hw ?_
  cases hget : w.hub.get source with
  | error failure =>
    exact alike_pure hw (fails_error (w.hub.fails_get source failure hget))
  | ok found =>
    refine Alike.bind (P := fun _ _ => True)
      (alike_self (leaves_modifyGet.2 ⟨trivial, hw.createCell initial⟩)) fun target v _ hv => ?_
    refine (alike_subscribe hv source (hkeeps target)).bind fun reply v' hfails hv' => ?_
    cases reply with
    | error failure => exact alike_pure hv' (fails_error (hfails failure rfl))
    | ok _ => exact (alike_report hv' _).bind fun _ _ _ hv'' => alike_pure hv'' (fails_ok _)

theorem alike_removeNode (hw : w.Keeps) (id : SignalId) :
    Alike (fun r _ => Fails Failure.IsOrdinary r) (removeNode id) (removeNode id) w := by
  refine alike_self (leaves_tryWorld (fun removed hremove => ?_) fun failure hfailed => ?_)
  · exact ⟨fails_ok _, hw.remove hremove⟩
  · exact ⟨fails_error (w.graph.fails_remove id failure hfailed), hw⟩

/-! ## Nodes -/

section

variable {P : Failure → Prop} (hP : ∀ failure : Failure, failure.IsOrdinary → P failure)

include hP

theorem leaves_removing (hw : w.Keeps) (id : SignalId) {interrupt : Interrupt}
    (hinterrupt : interrupt.AbortsWith P) :
    Leaves (do
      match ← removeNode id with
      | .ok () => return .error interrupt
      | .error failure => return .error (.ofFailure failure))
      (fun (r : Except Interrupt Unit) v => Fails (Interrupt.AbortsWith P) r ∧ v.Keeps) World.Keeps
      w := by
  refine leaves_bind.2 ((alike_removeNode hw id).2.mono fun reply v hremoved => ?_)
  cases reply with
  | ok _ => exact leaves_pure.2 ⟨fails_error hinterrupt, hremoved.2⟩
  | error failure =>
    have hordinary := hP _ (hremoved.1 failure rfl)
    exact leaves_pure.2 ⟨fails_error (Interrupt.abortsWith_ofFailure hordinary), hremoved.2⟩

theorem alike_finishFirst (hw : w.Keeps) (id : SignalId) {result : Except Interrupt Value}
    (hresult : Fails (Interrupt.AbortsWith P) result) :
    Alike (fun r _ => Fails (Interrupt.AbortsWith P) r) (finishFirst id result)
      (finishFirst id result) w := by
  refine alike_self ?_
  cases result with
  | error interrupt =>
    exact leaves_bind.2 (leaves_pure.2 (leaves_removing hP hw id (hresult interrupt rfl)))
  | ok value =>
    refine leaves_bind.2 ((alike_settleNode hw id value).2.mono fun reply v hstored => ?_)
    cases reply with
    | ok _ => exact leaves_bind.2 (leaves_pure.2 (leaves_pure.2 ⟨fails_ok _, hstored.2⟩))
    | error failure =>
      have hordinary := hP _ (hstored.1 failure rfl)
      exact leaves_bind.2 (leaves_pure.2
        (leaves_removing hP hstored.2 id (Interrupt.abortsWith_ofFailure hordinary)))

variable {f g : List Value → Exec (Except Interrupt Value)}
  (hcompute : ∀ inputs v, v.Keeps →
    Alike (fun r _ => Fails (Interrupt.AbortsWith P) r) (f inputs) (g inputs) v)

include hcompute

theorem alike_evaluateOn (hw : w.Keeps) (id : SignalId) (kind : NodeKind) :
    Alike (fun r _ => Fails (Interrupt.AbortsWith P) r) (evaluateOn id kind f)
      (evaluateOn id kind g) w := by
  refine alike_get_bind hw ?_
  cases hinputs : w.graph.inputsOf kind with
  | error failure =>
    have hordinary := hP _ (w.graph.fails_inputsOf kind failure hinputs)
    exact alike_pure hw (fails_error (Interrupt.abortsWith_ofFailure hordinary))
  | ok inputs => exact (alike_begin hw _).bind fun _ v _ hv => hcompute inputs v hv

theorem alike_create (hw : w.Keeps) {kind : NodeKind} (hkind : kind.Keeps) {inputs : List SignalId}
    (hnodup : inputs.Nodup) :
    Alike (fun r _ => Fails (Interrupt.AbortsWith P) r) (create kind inputs f)
      (create kind inputs g) w := by
  refine Alike.bind (P := fun r _ => Fails Failure.IsOrdinary r)
    (alike_self (leaves_tryWorld (fun ⟨id, graph⟩ hinsert => ?_) fun failure hfailed => ?_))
    fun reply v hfails hv => ?_
  · obtain ⟨rank, -, hgrows⟩ := Graph.grows_insert hnodup hinsert
    exact ⟨fails_ok _, hw.grow hgrows hkind⟩
  · exact ⟨fails_error (w.graph.fails_insert kind inputs failure hfailed), hw⟩
  · cases reply with
    | error failure =>
      exact alike_pure hv (fails_error (Interrupt.abortsWith_ofFailure (hP _ (hfails failure rfl))))
    | ok id =>
      refine (alike_evaluateOn hP hcompute hv id kind).bind fun result v' hresult hv' => ?_
      refine (alike_finishFirst hP hv' id hresult).bind fun finished v'' hfinished hv'' => ?_
      exact alike_pure hv'' (hfinished.map _)

theorem alike_derive (hw : w.Keeps) {kind : NodeKind} (hkind : kind.Keeps) (operands : List Value) :
    Alike (fun r _ => Fails (Interrupt.AbortsWith P) r) (Exec.derive operands kind f)
      (Exec.derive operands kind g) w := by
  have hnodup := Value.nodup_dependencies operands
  unfold Exec.derive
  revert hnodup
  cases Value.dependencies operands with
  | nil => exact fun _ => hcompute operands w hw
  | cons first rest =>
    intro hnodup
    refine (alike_create hP hcompute hw hkind hnodup).bind fun reply v hfails hv => ?_
    cases reply with
    | error interrupt => exact alike_pure hv (fails_error (hfails interrupt rfl))
    | ok id => exact (alike_report hv _).bind fun _ _ _ hv' => alike_pure hv' (fails_ok _)

omit hcompute in
theorem alike_watch (hw : w.Keeps) {kind : NodeKind} (hkind : kind.Keeps) (input : Value)
    {f g : Value → Exec (Except Interrupt Value)}
    (heffect : ∀ value v, v.Keeps →
      Alike (fun r _ => Fails (Interrupt.AbortsWith P) r) (f value) (g value) v) :
    Alike (fun r _ => Fails (Interrupt.AbortsWith P) r) (Exec.watch input kind f)
      (Exec.watch input kind g) w := by
  unfold Exec.watch
  split
  · have hnodup := Value.nodup_collectSignals input List.nodup_nil
    refine (alike_create hP (fun inputs v hv => ?_) hw hkind hnodup).bind fun reply v hfails hv =>
      alike_pure hv (hfails.map _)
    exact (heffect _ v hv).bind fun result v' hfails hv' => alike_pure hv' (hfails.map _)
  · exact (heffect input w hw).bind fun result v hfails hv => alike_pure hv (hfails.map _)

end

end Exec

/-! ## What is done elsewhere -/

/-- Dispatching an instruction of the catalog and settling a change do the same with both hooks. -/
structure Hooks.Agree (a b : Hooks) : Prop where
  dispatch : ∀ {P : Failure → Prop} {i : Instruction} {w : World}, i.Performs Catalog.Forms →
    i.Reads P → w.Keeps → Alike (fun r _ => Fails (Interrupt.AbortsWith P) r) (a.dispatch i)
      (b.dispatch i) w
  settle : ∀ {change : Change} {w : World}, w.Keeps →
    Alike (fun r _ => Fails Failure.IsOrdinary r) (a.settle change) (b.settle change) w

namespace Exec

variable {a b : Hooks} {w : World}

theorem alike_request (hhooks : a.Agree b) (hw : w.Keeps) (change : Change) :
    Alike (fun r _ => Fails Failure.IsOrdinary r) (request a change) (request b change) w := by
  refine alike_get_bind hw ?_
  split
  · split
    · exact alike_pure hw (fails_ok _)
    · refine (alike_report hw _).bind fun _ v _ hv => (alike_begin hv _).bind fun _ v' _ hv' => ?_
      exact (alike_modify ⟨hv'.nodes, hv'.subscribers⟩).bind fun _ _ _ hv'' =>
        alike_pure hv'' (fails_ok _)
  · exact hhooks.settle hw

theorem alike_writeCell (hhooks : a.Agree b) (hw : w.Keeps) (cell : SignalId) (value : Value) :
    Alike (fun r _ => Fails Failure.IsOrdinary r) (writeCell a cell value) (writeCell b cell value)
      w := by
  refine alike_get_bind hw ?_
  cases hnode : w.graph.node cell with
  | error failure => exact alike_pure hw (fails_error (w.graph.fails_node cell failure hnode))
  | ok node =>
    dsimp only
    split
    · refine (alike_write hw cell value).bind fun reply v hfails hv => ?_
      cases reply with
      | error failure => exact alike_pure hv (fails_error (hfails failure rfl))
      | ok _ => exact alike_request hhooks hv _
    · exact alike_pure hw (fails_error trivial)

theorem alike_fire (hhooks : a.Agree b) (hw : w.Keeps) (source : SourceId) (payload : Value) :
    Alike (fun r _ => Fails Failure.IsOrdinary r) (fire a source payload) (fire b source payload)
      w := by
  refine alike_get_bind hw ?_
  cases hget : w.hub.get source with
  | error failure => exact alike_pure hw (fails_error (w.hub.fails_get source failure hget))
  | ok found => exact alike_request hhooks hw _

/-- Reporting instructions makes no difference. -/
theorem alike_announced {P : Except Interrupt Value → World → Prop} {i : Instruction}
    {f g : Instruction → Exec (Except Interrupt Value)}
    (hanswer : ∀ v, v.Keeps → Alike P (f i) (g i) v) (settings : Settings) (n : Nat) (hw : w.Keeps) :
    Alike P (announced settings f n i) (announced settings g n i) w := by
  unfold announced
  split
  · exact (alike_report hw _).bind fun _ v _ hv => hanswer v hv
  · exact hanswer w hw

/-- Interpreters that do the same run a program alike. -/
theorem alike_runProgram {P : Failure → Prop}
    (hP : ∀ failure : Failure, failure.IsOrdinary → P failure) {ok : Instruction → Prop}
    (hfills : Instruction.Fills ok) {program : Program} (hprogram : program.Performs ok)
    {f g : Instruction → Exec (Except Interrupt Value)}
    (hanswer : ∀ i, i.Performs ok → i.pending? = none → ∀ v, v.Keeps →
      Alike (fun r _ => Fails (Interrupt.AbortsWith P) r) (f i) (g i) v)
    (settings : Settings) (hw : w.Keeps) :
    Alike (fun r _ => Fails P r) (runProgram settings f program) (runProgram settings g program)
      w := by
  have hraised (payload : Value) : Interrupt.AbortsWith P (.raised payload) := fun _ heq => by cases heq
  have hlimit (limit : Nat) : Interrupt.AbortsWith P (.aborted (.stepLimit limit)) := fun _ heq =>
    Interrupt.aborted.inj heq ▸ hP _ trivial
  have hconfined : program.Confined (Fails (Interrupt.AbortsWith P)) (·.Performs ok) :=
    hprogram.confined hfills (fun _ => fails_ok _) fun _ => fails_error (hraised _)
  have hruns : (program.run (announced settings f) settings.stepLimit w).Pairs
      (fun v v' => v = v' ∧ v.Keeps) (fun v v' => v = v' ∧ v.Keeps) (Fails (Interrupt.AbortsWith P))
      (program.run (announced settings g) settings.stepLimit w) := by
    refine hconfined.run_pairs (fun _ => fails_error (hlimit _))
      (fun n i v v' hi hpending hstate => ?_) ⟨rfl, hw⟩
    obtain ⟨rfl, hv⟩ := hstate
    have halike := alike_announced (hanswer i hi hpending) settings n hv
    obtain ⟨reply, v', hran⟩ : ∃ reply v', announced settings f n i v = (reply, v') := ⟨_, _, rfl⟩
    refine ⟨reply, v', v', hran, halike.1.symm.trans hran, ?_⟩
    cases reply with
    | none => exact ⟨fun _ => ⟨rfl, halike.2.of_eq_none hran⟩, by simp⟩
    | some answer =>
      obtain ⟨hfails, hkeeps⟩ := halike.2.of_eq_some hran
      refine ⟨by simp, fun result heq => ?_⟩
      obtain rfl := Option.some.inj heq
      exact ⟨⟨rfl, hkeeps⟩, hfails⟩
  refine alike_get_bind hw ?_
  revert hruns
  generalize program.run (announced settings f) settings.stepLimit w = halt
  generalize program.run (announced settings g) settings.stepLimit w = halt'
  obtain ⟨_, _, v⟩ := halt
  obtain ⟨outcome, steps, v'⟩ := halt'
  rintro ⟨houtcome, hsteps, hcut, hended, hfine⟩
  dsimp only at houtcome hsteps hcut hended hfine
  subst houtcome hsteps
  obtain ⟨rfl, hv⟩ : v = v' ∧ v.Keeps := by
    by_cases hcutoff : outcome = .unanswered
    · exact hcut hcutoff
    · exact hended hcutoff
  refine Alike.bind (P := fun _ v' => v' = v) (alike_self (leaves_set.2 ⟨rfl, hv⟩)) ?_
  rintro _ _ rfl hv
  cases outcome with
  | yielded value =>
    exact (alike_report hv _).bind fun _ _ _ hv' => alike_pure hv' (fails_ok _)
  | raised payload =>
    exact (alike_report hv _).bind fun _ _ _ hv' => alike_pure hv' (fails_error (hP _ trivial))
  | exhausted limit =>
    exact (alike_report hv _).bind fun _ _ _ hv' => alike_pure hv' (fails_error (hP _ trivial))
  | aborted failure => exact alike_pure hv (fails_error (hfine _ rfl _ rfl _ rfl))
  | unanswered => exact alike_failure hv

end Exec

variable {session : Session} {a b : Hooks}

/-- Only the request for the settings tells whether results are checked. -/
theorem World.answer_checking (checks : Bool) {request : Request} (h : request ≠ .settings) :
    World.answer (session.checking checks) request = World.answer session request := by
  cases request with
  | settings => exact absurd rfl h
  | _ => rfl

/-- A script that keeps to the catalog does the same with and without checks. -/
theorem Script.Yields.alike (hhooks : a.Agree b) {P : Failure → Prop}
    (hP : ∀ failure : Failure, failure.IsOrdinary → P failure) {shape : Shape} {script : Script}
    (h : script.Yields P shape) {w : World} (hw : w.Keeps) :
    Alike (fun r _ => shape.Covers r ∧ Fails (Interrupt.AbortsWith P) r)
      (script.exec (session.checking true) a) (script.exec (session.checking false) b) w := by
  induction h generalizing w with
  | done hvalue hfails => exact alike_pure hw ⟨hvalue, hfails⟩
  | @ask P shape request next hrequest hnext ih =>
    have hreply := (request.failsWith_answer session w).mono hP
    refine Alike.bind (P := fun reply _ => request.FailsWith P reply) ⟨?_, ?_⟩
      fun reply v hfails hv => ih reply hfails hP hv
    · rw [World.answer_checking true hrequest, World.answer_checking false hrequest]
    · rw [World.answer_checking true hrequest]
      exact leaves_modifyGet.2 ⟨hreply, hw.answer session request⟩
  | @derive P shape operands compute next hcompute hnext ihcompute ih =>
    have hkind : NodeKind.Keeps (.derived operands compute) := hcompute
    refine (alike_derive (P := fun _ => True) (fun _ _ => trivial) (fun inputs v hv => ?_) hw hkind
      operands).bind fun reply v _ hv => ih reply hP hv
    exact (ihcompute inputs (fun _ _ => trivial) hv).mono fun _ _ h => h.2
  | @watch P shape input effect next heffect heffectFails hnext _ iheffect ih =>
    have hkind : NodeKind.Keeps (.watch input effect) := heffect
    refine (alike_watch hP hw hkind input fun value v hv => ?_).bind
      fun reply v hfails hv => ih reply hfails hP hv
    exact (iheffect value hP hv).mono fun _ _ h => h.2
  | set hnext ih =>
    exact (alike_writeCell hhooks hw _ _).bind fun reply v hfails hv =>
      ih reply (hfails.mono hP) hP hv
  | fire hnext ih =>
    exact (alike_fire hhooks hw _ _).bind fun reply v hfails hv => ih reply (hfails.mono hP) hP hv
  | @fold P shape source initial reducer next hreducer hnext _ ih =>
    have hsubscriber (target : SignalId) : (Subscriber.fold target reducer).Keeps := hreducer
    exact (alike_attach hw _ _ hsubscriber _).bind fun reply v hfails hv =>
      ih reply (hfails.mono hP) hP hv
  | @foldProgram P shape source initial reducer next hreducer hnext ih =>
    have hsubscriber (target : SignalId) : (Subscriber.foldProgram target reducer).Keeps := hreducer
    exact (alike_attach hw _ _ hsubscriber _).bind fun reply v hfails hv =>
      ih reply (hfails.mono hP) hP hv
  | @listen P shape source listener next hlistener hnext _ ih =>
    have hsubscriber : (Subscriber.listener listener).Keeps := hlistener
    exact (alike_subscribe hw _ hsubscriber).bind fun reply v hfails hv =>
      ih reply (hfails.mono hP) hP hv
  | run hprogram hnext ih =>
    refine (alike_runProgram (P := Failure.IsOrdinary) (fun _ h => h) Catalog.forms_fills hprogram
      (fun i hi hpending v hv => ?_) session.settings hw).bind fun reply v hfails hv =>
        ih reply (hfails.mono hP) hP hv
    exact hhooks.dispatch hi ⟨fun _ h => h, .inl hpending⟩ hv
  | runWith hfills hprogram hinterpreter hnext ihinterpreter ih =>
    refine (alike_runProgram (P := fun _ => True) (fun _ _ => trivial) hfills hprogram
      (fun i hi _ v hv => ?_) _ hw).bind fun reply v _ hv => ih reply hP hv
    exact (ihinterpreter i hi (fun _ _ => trivial) hv).mono fun _ _ h => h.2
  | dispatch hi hnext ih =>
    exact (hhooks.dispatch (P := fun _ => True) hi ⟨fun _ _ => trivial, .inr fun _ => trivial⟩
      hw).bind fun reply v _ hv => ih reply hP hv

/-- A script that is stored does the same with and without checks. -/
theorem Script.Keeps.alike (hhooks : a.Agree b) {script : Script} (h : script.Keeps) {w : World}
    (hw : w.Keeps) : Alike (fun _ _ => True) (script.exec (session.checking true) a)
      (script.exec (session.checking false) b) w :=
  (Script.Yields.alike hhooks (fun _ _ => trivial) h hw).mono fun _ _ _ => trivial

/-! ## Settling a change -/

namespace Session

variable (session : Session) {a b : Hooks} (hhooks : a.Agree b) {w : World}

include hhooks

theorem alike_evaluate (hw : w.Keeps) (id : SignalId) :
    Alike (fun _ _ => True) (evaluate (session.checking true) a id)
      (evaluate (session.checking false) b id) w := by
  refine alike_get_bind hw ?_
  cases hnode : w.graph.node id with
  | error failure => exact alike_pure hw trivial
  | ok node =>
    have hkind := hw.nodes id node (Graph.node_eq_ok.1 hnode)
    have hstore {v : World} (hv : v.Keeps) (result : Except Interrupt Value) :
        Alike (fun _ _ => True) (store id result) (store id result) v := by
      cases result with
      | error interrupt => exact alike_pure hv trivial
      | ok value => exact (alike_settleNode hv id value).mono fun _ _ _ => trivial
    dsimp only
    split
    · exact alike_pure hw trivial
    · refine (alike_evaluateOn (P := fun _ => True) (fun _ _ => trivial) (fun inputs v hv => ?_) hw id
        node.kind).bind fun result v _ hv => hstore hv result
      refine Alike.mono (P := fun _ _ => True) ?_ fun _ _ _ _ _ _ _ => trivial
      cases hshape : node.kind with
      | cell => exact alike_pure hv trivial
      | derived operands compute =>
        rw [hshape] at hkind
        exact (hkind inputs).alike hhooks hv
      | watch input effect =>
        rw [hshape] at hkind
        exact ((hkind _).alike hhooks hv).bind fun _ _ _ hv' => alike_pure hv' trivial

theorem alike_evaluateAll (hw : w.Keeps) (ids : List SignalId) :
    Alike (fun _ _ => True) (evaluateAll (session.checking true) a ids)
      (evaluateAll (session.checking false) b ids) w := by
  induction ids generalizing w with
  | nil => exact alike_pure hw trivial
  | cons id rest ih =>
    refine alike_get_bind hw ?_
    split
    · refine (alike_evaluate session hhooks hw id).bind fun result v _ hv => ?_
      cases result with
      | ok _ => exact ih hv
      | error failure =>
        exact (alike_report hv _).bind fun _ v' _ hv' => (ih hv').bind fun _ _ _ hlast =>
          alike_pure hlast trivial
    · exact ih hw

theorem alike_propagate (hw : w.Keeps) (roots : List SignalId) :
    Alike (fun _ _ => True) (propagate (session.checking true) a roots)
      (propagate (session.checking false) b roots) w := by
  unfold propagate
  split
  · exact alike_pure hw trivial
  · refine alike_get_bind hw ?_
    exact (alike_report hw _).bind fun _ v _ hv => (alike_begin hv _).bind fun _ v' _ hv' =>
      alike_evaluateAll session hhooks hv' _

theorem alike_reduce (hw : w.Keeps) (payload : Value) (target : SignalId)
    {reducer : Value → Script} (hreducer : ∀ current, (reducer current).Keeps) :
    Alike (fun _ _ => True) (reduce (session.checking true) a payload target reducer)
      (reduce (session.checking false) b payload target reducer) w := by
  refine alike_get_bind hw ?_
  cases w.graph.value target with
  | error failure => exact alike_pure hw trivial
  | ok current =>
    refine (alike_begin hw _).bind fun _ v _ hv => ((hreducer current).alike hhooks hv).bind
      fun result v' _ hv' => ?_
    cases result with
    | error interrupt => exact alike_pure hv' trivial
    | ok value => exact alike_get_bind hv' (alike_pure hv' trivial)

theorem alike_reduceProgram (hw : w.Keeps) (payload : Value) (target : SignalId)
    {reducer : Value → Program} (hreducer : ∀ current, (reducer current).Keeps) :
    Alike (fun _ _ => True) (reduceProgram (session.checking true) a payload target reducer)
      (reduceProgram (session.checking false) b payload target reducer) w := by
  refine alike_get_bind hw ?_
  cases w.graph.value target with
  | error failure => exact alike_pure hw trivial
  | ok current =>
    have hkeeps : (reaction (reducer current)).Keeps :=
      .react (hreducer current) fun reply _ => .done (.any _) fun _ _ _ _ => trivial
    exact (alike_begin hw _).bind fun _ v _ hv => (hkeeps.alike hhooks hv).bind
      fun result v' _ hv' => alike_pure hv' trivial

omit hhooks in
theorem alike_finish (hw : w.Keeps) (payload : Value) (written : List SignalId) (target : SignalId)
    (next : Except Failure Value) {rest : List Subscriber}
    (hrest : ∀ {v : World}, v.Keeps → ∀ written,
      Alike (fun _ _ => True) (reduceAll (session.checking true) a payload written rest)
        (reduceAll (session.checking false) b payload written rest) v) :
    Alike (fun _ _ => True)
      (reduceAll.finish (session.checking true) a payload written target next rest)
      (reduceAll.finish (session.checking false) b payload written target next rest) w := by
  have hstored : Alike (fun _ _ => True) (storeReduced target next) (storeReduced target next) w := by
    cases next with
    | error failure => exact alike_pure hw trivial
    | ok value => exact (alike_write hw target value).mono fun _ _ _ => trivial
  unfold reduceAll.finish
  refine hstored.bind fun result v _ hv => ?_
  cases result with
  | ok _ => exact hrest hv _
  | error failure =>
    exact (alike_report hv _).bind fun _ v' _ hv' => (hrest hv' written).bind fun _ _ _ hlast =>
      alike_pure hlast trivial

theorem alike_reduceAll (payload : Value) {subscribers : List Subscriber}
    (hsubscribers : ∀ s ∈ subscribers, s.Keeps) {w : World} (hw : w.Keeps)
    (written : List SignalId) :
    Alike (fun _ _ => True) (reduceAll (session.checking true) a payload written subscribers)
      (reduceAll (session.checking false) b payload written subscribers) w := by
  induction subscribers generalizing w written with
  | nil =>
    rw [reduceAll, reduceAll]
    exact alike_pure hw trivial
  | cons subscriber rest ih =>
    have hfirst := hsubscribers subscriber List.mem_cons_self
    have hrest {v : World} := ih (fun s hs => hsubscribers s (List.mem_cons_of_mem _ hs)) (w := v)
    rw [reduceAll.eq_def, reduceAll.eq_def (session.checking false)]
    cases subscriber with
    | fold target reducer =>
      exact (alike_reduce session hhooks hw payload target fun current => hfirst current payload).bind
        fun next v _ hv => alike_finish session hv payload written target next hrest
    | foldProgram target reducer =>
      exact (alike_reduceProgram session hhooks hw payload target
        fun current => hfirst current payload).bind
          fun next v _ hv => alike_finish session hv payload written target next hrest
    | listener listener => exact hrest hw written
    | forward source => exact hrest hw written

theorem alike_notifyAll (payload : Value) {subscribers : List Subscriber}
    (hsubscribers : ∀ s ∈ subscribers, s.Keeps) {w : World} (hw : w.Keeps) :
    Alike (fun _ _ => True) (notifyAll (session.checking true) a payload subscribers)
      (notifyAll (session.checking false) b payload subscribers) w := by
  induction subscribers generalizing w with
  | nil => exact alike_pure hw trivial
  | cons subscriber rest ih =>
    have hfirst := hsubscribers subscriber List.mem_cons_self
    have hrest {v : World} := ih (fun s hs => hsubscribers s (List.mem_cons_of_mem _ hs)) (w := v)
    cases subscriber with
    | listener listener =>
      refine (alike_begin hw _).bind fun _ v _ hv => ((hfirst payload).alike hhooks hv).bind
        fun result v' _ hv' => ?_
      cases result with
      | ok _ => exact hrest hv'
      | error interrupt => exact (hrest hv').bind fun _ _ _ hlast => alike_pure hlast trivial
    | fold | foldProgram | forward => exact hrest hw

theorem alike_deliver (hw : w.Keeps) (source : SourceId) (payload : Value) :
    Alike (fun _ _ => True) (deliver (session.checking true) a source payload)
      (deliver (session.checking false) b source payload) w := by
  refine alike_get_bind hw ?_
  cases hdeliver : w.hub.deliver source with
  | error failure => exact alike_pure hw trivial
  | ok result =>
    obtain ⟨subscribers, hub⟩ := result
    have hcounted : World.Keeps { w with hub } :=
      hw.of_hub fun _ hs => .inl (Hub.subscribed_deliver hdeliver hs)
    have hsubscribers (s : Subscriber) (hs : s ∈ subscribers) : s.Keeps := by
      rw [Hub.subscribers_deliver hdeliver] at hs
      exact Subscriber.keeps_of_mem_reached hw.subscribers hs
    refine Alike.bind (P := fun _ _ => True) (alike_self (leaves_set.2 ⟨trivial, hcounted⟩))
      fun _ v _ hv => (alike_report hv _).bind fun _ v' _ hv' => ?_
    refine (alike_reduceAll session hhooks payload hsubscribers hv' []).bind fun reduced v _ hv => ?_
    refine (alike_propagate session hhooks hv _).bind fun _ v' _ hv' => ?_
    exact (alike_notifyAll session hhooks payload hsubscribers hv').bind fun _ _ _ hlast =>
      alike_pure hlast trivial

theorem alike_apply (hw : w.Keeps) (change : Change) :
    Alike (fun _ _ => True) (apply (session.checking true) a change)
      (apply (session.checking false) b change) w := by
  refine (alike_begin hw _).bind fun _ v _ hv => ?_
  cases change with
  | written cell => exact alike_propagate session hhooks hv _
  | fired source payload => exact alike_deliver session hhooks hv source payload

theorem alike_drain (bound : Nat) (hw : w.Keeps) (change : Change) :
    Alike (fun _ _ => True) (drain (session.checking true) a bound change)
      (drain (session.checking false) b bound change) w := by
  induction bound generalizing w change with
  | zero => exact alike_failure hw
  | succ n ih =>
    refine (alike_apply session hhooks hw change).bind fun failures v _ hv => alike_get_bind hv ?_
    split
    · exact alike_pure hv trivial
    · refine Alike.bind (P := fun _ _ => True)
        (alike_self (leaves_set.2 ⟨trivial, hv.nodes, hv.subscribers⟩)) fun _ v' _ hv' => ?_
      exact (ih hv' _).bind fun _ _ _ hlast => alike_pure hlast trivial

/-- Settling a change does the same with and without checks, and fails for ordinary reasons only. -/
theorem alike_settle (bound : Nat) (hw : w.Keeps) (change : Change) :
    Alike (fun r _ => Fails Failure.IsOrdinary r) (settle (session.checking true) a bound change)
      (settle (session.checking false) b bound change) w := by
  have hsettled (failures : List Failure) : Fails Failure.IsOrdinary (Script.settled failures) := by
    unfold Script.settled
    split
    · exact fails_ok _
    · exact fails_error trivial
  refine (alike_modify ⟨hw.nodes, hw.subscribers⟩).bind fun _ v _ hv => ?_
  refine (alike_drain session hhooks bound hv change).bind fun failures v' _ hv' => ?_
  refine (alike_modify ⟨hv'.nodes, hv'.subscribers⟩).bind fun _ v'' _ hv'' => ?_
  dsimp only
  split
  · exact alike_pure hv'' (hsettled failures)
  · exact (alike_report hv'' _).bind fun _ _ _ hlast => alike_pure hlast (hsettled failures)

end Session

end EffectGraph
