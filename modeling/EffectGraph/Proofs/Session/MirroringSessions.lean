import EffectGraph.Proofs.Program.Limits
import EffectGraph.Proofs.Session.Mirroring

/-!
# Sessions mirror themselves

A script does the same in two states that are like each other, at every level
(`Session.mirrored_hooksAt`), provided that what stands in for a reducer mirrors it whenever a
reducer runs. That is the only place where the two states can come apart.
-/

namespace EffectGraph

open Exec World

variable {e : Exchange} {α : Type}

/-! ## Running programs -/

namespace Transition

variable {σ : Type}

/-- The transition with another state of the interpreter. -/
def withState (s : σ) : Transition σ → Transition σ
  | .next m => .next { m with state := s }
  | .halt stop => .halt { stop with state := s }

end Transition

namespace Machine

variable {σ : Type} {s t : σ}

theorem resume_withState (value : Value) (pending : Pending) (guards : List Guard) (steps : Nat) :
    resume value pending guards steps t = (resume value pending guards steps s).withState t := by
  unfold resume
  cases pending.pop with
  | some popped => rfl
  | none =>
    cases guards with
    | nil => rfl
    | cons guard guards => rfl

theorem state_resume (value : Value) (pending : Pending) (guards : List Guard) (steps : Nat) :
    (resume value pending guards steps s).state = s := by
  unfold resume
  cases pending.pop with
  | some popped => rfl
  | none =>
    cases guards with
    | nil => rfl
    | cons guard guards => rfl

theorem raise_withState (payload : Value) (guards : List Guard) (steps : Nat) :
    raise payload guards steps t = (raise payload guards steps s).withState t := by
  unfold raise
  cases guards with
  | nil => rfl
  | cons guard guards => rfl

theorem state_raise (payload : Value) (guards : List Guard) (steps : Nat) :
    (raise payload guards steps s).state = s := by
  unfold raise
  cases guards with
  | nil => rfl
  | cons guard guards => rfl

variable {interpreter interpreter' : Interpreter World}
  (hanswer : ∀ n i, Mirrors e (interpreter n i : Exec (Except Interrupt Value)) (interpreter' n i))
  (limit : Option Nat)

include hanswer

/-- A step of a machine is mirrored by the step of the machine with a state like that of the first
one. -/
theorem mirrors_step (m : Machine World) {w' : World} (hw : m.state.Like e w') :
    m.state.past <:+ (step interpreter limit m).state.past ∧
      (m.state.FineSince e (step interpreter limit m).state →
        ∃ v', step interpreter' limit { m with state := w' } =
            (step interpreter limit m).withState v' ∧
          (step interpreter limit m).state.Like e v') := by
  unfold step
  cases exceeded? limit (m.steps + 1) with
  | some limit => exact ⟨List.suffix_refl _, fun _ => ⟨w', rfl, hw⟩⟩
  | none =>
    simp only [Unfolding.split]
    obtain ⟨head, queue⟩ := m.program.split
    cases head with
    | pure value =>
      simp only [dispatch, state_resume]
      exact ⟨List.suffix_refl _, fun _ => ⟨w', resume_withState _ _ _ _, hw⟩⟩
    | throw payload =>
      simp only [dispatch, state_raise]
      exact ⟨List.suffix_refl _, fun _ => ⟨w', raise_withState _ _ _, hw⟩⟩
    | attempt body handler => exact ⟨List.suffix_refl _, fun _ => ⟨w', rfl, hw⟩⟩
    | perform i =>
      simp only [dispatch, perform, Unfolding.pending?]
      cases i.pending? with
      | some found => exact ⟨List.suffix_refl _, fun _ => ⟨w', rfl, hw⟩⟩
      | none =>
        dsimp only
        obtain ⟨hgrows, hsame⟩ := hanswer (m.steps + 1) i m.state w' hw
        rcases hcall : interpreter (m.steps + 1) i m.state with ⟨reply, v⟩
        rcases hcall' : interpreter' (m.steps + 1) i w' with ⟨reply', v'⟩
        rw [hcall] at hgrows hsame
        rw [hcall'] at hsame
        rcases reply with _ | (payload | failure) | value
        · refine ⟨hgrows, fun hfine => ?_⟩
          obtain ⟨rfl, hlike⟩ := hsame hfine
          exact ⟨v', rfl, hlike⟩
        · dsimp only
          rw [state_raise]
          refine ⟨hgrows, fun hfine => ?_⟩
          obtain ⟨rfl, hlike⟩ := hsame hfine
          exact ⟨v', raise_withState _ _ _, hlike⟩
        · refine ⟨hgrows, fun hfine => ?_⟩
          obtain ⟨rfl, hlike⟩ := hsame hfine
          exact ⟨v', rfl, hlike⟩
        · dsimp only
          rw [state_resume]
          refine ⟨hgrows, fun hfine => ?_⟩
          obtain ⟨rfl, hlike⟩ := hsame hfine
          exact ⟨v', resume_withState _ _ _ _, hlike⟩

/-- So is a run. -/
theorem mirrors_run (m : Machine World) {w' : World} (hw : m.state.Like e w') :
    m.state.past <:+ (run interpreter limit m).state.past ∧
      (m.state.FineSince e (run interpreter limit m).state →
        ∃ v', run interpreter' limit { m with state := w' } =
            { run interpreter limit m with state := v' } ∧
          (run interpreter limit m).state.Like e v') := by
  -- Along the steps of the first run. That nothing is forgotten on the rest of it follows from the
  -- induction hypothesis for the state itself; only then is it known that the next step is fine.
  induction m using (wellFounded_next interpreter limit).induction generalizing w' with
  | _ m ih =>
    obtain ⟨hgrows, hsame⟩ := mirrors_step hanswer limit m hw
    rw [run_eq interpreter limit m, run_eq interpreter' limit { m with state := w' }]
    cases hstep : step interpreter limit m with
    | halt stop =>
      rw [hstep] at hgrows hsame
      refine ⟨hgrows, fun hfine => ?_⟩
      obtain ⟨v', hstep', hlike⟩ := hsame hfine
      rw [hstep']
      exact ⟨v', rfl, hlike⟩
    | next m' =>
      rw [hstep] at hgrows hsame
      have hself := (ih m' hstep (.refl m'.state)).1
      refine ⟨hgrows.trans hself, fun hfine => ?_⟩
      obtain ⟨v', hstep', hlike⟩ := hsame (hfine.first hself)
      rw [hstep']
      exact (ih m' hstep hlike).2 (hfine.second hgrows)

end Machine

namespace Exec

/-- Runs a program and goes on with how the run ended. -/
private def runThen (interpreter : Interpreter World) (limit : Option Nat) (program : Program)
    (next : Outcome → Nat → Exec α) : Exec α := fun w =>
  let halt := program.run interpreter limit w
  next halt.outcome halt.steps halt.state

private theorem mirrors_runThen {interpreter interpreter' : Interpreter World}
    (hanswer : ∀ n i, Mirrors e (interpreter n i : Exec (Except Interrupt Value)) (interpreter' n i))
    (limit : Option Nat) (program : Program) {next next' : Outcome → Nat → Exec α}
    (hnext : ∀ outcome steps, (next outcome steps).Mirrors e (next' outcome steps)) :
    (runThen interpreter limit program next).Mirrors e
      (runThen interpreter' limit program next') := by
  intro w w' hw
  obtain ⟨hgrows, hsame⟩ := Machine.mirrors_run hanswer limit { program := program, state := w } hw
  change w.past <:+ (program.run interpreter limit w).state.past at hgrows
  have hself := (hnext (program.run interpreter limit w).outcome
    (program.run interpreter limit w).steps _ _ (.refl (program.run interpreter limit w).state)).grows
  constructor
  case grows => exact hgrows.trans hself
  case same =>
    intro hfine
    obtain ⟨v', hrun, hlike⟩ := hsame (hfine.first hself)
    have hended : runThen interpreter' limit program next' w' =
        next' (program.run interpreter limit w).outcome (program.run interpreter limit w).steps v' := by
      have hran : program.run interpreter' limit w' =
        { program.run interpreter limit w with state := v' } := hrun
      rw [runThen, hran]
    rw [hended]
    exact (hnext _ _ _ v' hlike).same (hfine.second hgrows)

/-- What is done when a run has ended. -/
private def endRun (outcome : Outcome) (steps : Nat) : Exec (Except Failure Value) := do
  match outcome with
  | .yielded _ => report (.programFinished steps)
  | .raised payload => report (.failureEscaped steps payload)
  | .exhausted limit => report (.stepLimitReached limit)
  | .aborted _ => pure ()
  | .unanswered => failure
  match outcome.result with
  | some result => return result
  | none => failure

private theorem runProgram_eq (settings : Settings)
    (interpreter : Instruction → Exec (Except Interrupt Value)) (program : Program) :
    runProgram settings interpreter program =
      runThen (announced settings interpreter) settings.stepLimit program endRun := rfl

variable {f g : Instruction → Exec (Except Interrupt Value)}

/-- Interpreters that mirror each other run a program alike. -/
theorem mirrors_runProgram (settings : Settings) (program : Program)
    (h : ∀ i, (f i).Mirrors e (g i)) :
    (runProgram settings f program).Mirrors e (runProgram settings g program) := by
  rw [runProgram_eq, runProgram_eq]
  refine mirrors_runThen (fun n i => ?_) _ program fun outcome steps => ?_
  · unfold announced
    split
    · exact (mirrors_report _ _).bind fun _ => h i
    · exact h i
  · cases outcome with
    | yielded value => exact (mirrors_report _ _).bind fun _ => mirrored_pure _
    | raised payload => exact (mirrors_report _ _).bind fun _ => mirrored_pure _
    | exhausted limit => exact (mirrors_report _ _).bind fun _ => mirrored_pure _
    | aborted failure => exact mirrored_pure _
    | unanswered => exact mirrored_failure

/-- Without a limit a program is run as it is evaluated, but for what is reported. -/
theorem mirrors_evaluated {settings : Settings} (hlimit : settings.stepLimit = none)
    (program : Program) (h : ∀ i, (f i).Mirrored e) :
    (runProgram settings f program).Mirrors e (program.evaluated f) := by
  have hran : program.evaluated f =
      runThen (fun _ => f) none program fun outcome _ w => (outcome.result, w) :=
    funext fun w => (Program.ran_eq_evaluated f program w).symm
  rw [runProgram_eq, hran, hlimit]
  refine mirrors_runThen (fun n i => ?_) none program fun outcome steps => ?_
  · unfold announced
    split
    · exact mirrors_report_bind (h i)
    · exact h i
  · cases outcome with
    | yielded value => exact mirrors_report_bind (mirrored_pure _)
    | raised payload => exact mirrors_report_bind (mirrored_pure _)
    | exhausted limit => exact mirrors_report_bind (mirrored_pure _)
    | aborted failure => exact mirrored_pure _
    | unanswered => exact mirrored_failure

/-! ## Nodes -/

section

variable {compute : List Value → Exec (Except Interrupt Value)}
  (hcompute : ∀ inputs, (compute inputs).Mirrored e)

include hcompute

theorem mirrored_evaluateOn (id : SignalId) (kind : NodeKind) :
    (evaluateOn id kind compute).Mirrored e := by
  refine mirrors_get_bind_of_eq fun w w' hw => ?_
  rw [hw.graph_eq]
  refine ⟨rfl, ?_⟩
  cases w.graph.inputsOf kind with
  | error failure => exact mirrored_pure _
  | ok inputs => exact (mirrored_begin _).bind fun _ => hcompute inputs

theorem mirrored_create (kind : NodeKind) (inputs : List SignalId) :
    (create kind inputs compute).Mirrored e := by
  refine (mirrored_insertNode kind inputs).bind fun reply => ?_
  cases reply with
  | error failure => exact mirrored_pure _
  | ok id =>
    refine (mirrored_evaluateOn hcompute id kind).bind fun result => ?_
    exact (mirrored_finishFirst id result).bind fun _ => mirrored_pure _

theorem mirrored_derive (operands : List Value) (kind : NodeKind) :
    (Exec.derive operands kind compute).Mirrored e := by
  unfold Exec.derive
  cases Value.dependencies operands with
  | nil => exact hcompute operands
  | cons first rest =>
    refine (mirrored_create hcompute kind (first :: rest)).bind fun reply => ?_
    cases reply with
    | error interrupt => exact mirrored_pure _
    | ok id => exact (mirrors_report _ _).bind fun _ => mirrored_pure _

end

section

variable {effect : Value → Exec (Except Interrupt Value)}
  (heffect : ∀ value, (effect value).Mirrored e)

include heffect

theorem mirrored_effectOn (inputs : List Value) : (effectOn effect inputs).Mirrored e :=
  (heffect _).bind fun _ => mirrored_pure _

theorem mirrored_watch (input : Value) (kind : NodeKind) :
    (Exec.watch input kind effect).Mirrored e := by
  unfold Exec.watch
  split
  · exact (mirrored_create (mirrored_effectOn heffect) kind _).bind fun _ => mirrored_pure _
  · exact (heffect input).bind fun _ => mirrored_pure _

end

end Exec

/-! ## Scripts -/

/-- What is done elsewhere mirrors itself. -/
structure Hooks.Mirrored (e : Exchange) (hooks : Hooks) : Prop where
  dispatch : ∀ i, (hooks.dispatch i).Mirrored e
  settle : ∀ change, (hooks.settle change).Mirrored e

section

variable {hooks : Hooks} (hhooks : hooks.Mirrored e)

include hhooks

namespace Exec

theorem mirrored_request (change : Change) : (request hooks change).Mirrored e := by
  refine mirrors_get_bind_of_eq fun w w' hw => ?_
  rw [hw.settling_eq, hw.queue_eq]
  refine ⟨rfl, ?_⟩
  split
  · split
    · exact mirrored_pure _
    · refine (mirrors_report _ _).bind fun _ => (mirrored_begin _).bind fun _ => ?_
      refine Mirrors.bind (mirrors_modify (fun _ => rfl) fun v v' hv => ?_) fun _ => mirrored_pure _
      rw [hv.queue_eq]
      exact hv.queueing _
  · exact hhooks.settle change

theorem mirrored_writeCell (cell : SignalId) (value : Value) :
    (writeCell hooks cell value).Mirrored e := by
  refine mirrors_get_bind_of_eq fun w w' hw => ?_
  rw [hw.graph_eq]
  refine ⟨rfl, ?_⟩
  cases w.graph.node cell with
  | error failure => exact mirrored_pure _
  | ok node =>
    dsimp only
    split
    · refine (mirrored_write cell value).bind fun reply => ?_
      cases reply with
      | error failure => exact mirrored_pure _
      | ok _ => exact mirrored_request hhooks _
    · exact mirrored_pure _

theorem mirrored_fire (source : SourceId) (payload : Value) :
    (fire hooks source payload).Mirrored e := by
  refine mirrors_get_bind fun w w' hw => ?_
  rcases hw.hub.get_cases source with ⟨hfirst, hsecond⟩ | ⟨found, found', hfirst, hsecond, -⟩
  · rw [hfirst, hsecond]
    exact mirrored_pure _ w w' hw
  · rw [hfirst, hsecond]
    exact mirrored_request hhooks _ w w' hw

end Exec

/-- If what is done elsewhere mirrors itself, so does every script. -/
theorem Script.mirrored_exec (session : Session) (script : Script) :
    (script.exec session hooks).Mirrored e := by
  induction script with
  | done result => exact mirrored_pure result
  | ask request next ih => exact (mirrored_ask session request).bind ih
  | derive operands compute next ihcompute ih => exact (mirrored_derive ihcompute _ _).bind ih
  | watch input effect next iheffect ih => exact (mirrored_watch iheffect _ _).bind ih
  | set cell value next ih => exact (mirrored_writeCell hhooks cell value).bind ih
  | fire source payload next ih => exact (mirrored_fire hhooks source payload).bind ih
  | fold source initial reducer next _ ih => exact (mirrored_attach _ _ _ _).bind ih
  | foldProgram source initial reducer next ih => exact (mirrored_attach _ _ _ _).bind ih
  | listen source listener next _ ih => exact (mirrors_subscribe source (.same _)).bind ih
  | run program next ih => exact (mirrors_runProgram _ program hhooks.dispatch).bind ih
  | runWith settings program interpreter next ihinterpreter ih =>
    exact (mirrors_runProgram settings program ihinterpreter).bind ih
  | dispatch instruction next ih => exact (hhooks.dispatch instruction).bind ih

end

/-! ## Settling -/

/-- In the session, what stands in for a reducer mirrors it. -/
def Exchange.StandsIn (e : Exchange) (session : Session) : Prop :=
  ∀ hooks payload target reducer program, hooks.Mirrored e → e.swaps target reducer program →
    (Session.reduce session hooks payload target fun current => reducer current payload).Mirrors e
      (Session.reduceProgram session hooks payload target fun current => program current payload)

/-- Where nothing is exchanged, nothing stands in for anything. -/
theorem Exchange.standsIn_empty (session : Session) : Exchange.empty.StandsIn session :=
  fun _ _ _ _ _ _ hswaps => hswaps.elim

namespace Session

variable {session : Session} {hooks : Hooks} (hhooks : hooks.Mirrored e)

theorem mirrored_store (id : SignalId) (result : Except Interrupt Value) :
    (store id result).Mirrored e := by
  cases result with
  | error interrupt => exact mirrored_pure _
  | ok value => exact mirrored_settleNode id value

theorem mirrored_storeReduced (target : SignalId) (result : Except Failure Value) :
    (storeReduced target result).Mirrored e := by
  cases result with
  | error failure => exact mirrored_pure _
  | ok value => exact mirrored_write target value

include hhooks

theorem mirrored_computation (kind : NodeKind) (inputs : List Value) :
    (computation session hooks kind inputs).Mirrored e := by
  cases kind with
  | cell => exact mirrored_pure _
  | derived operands compute => exact Script.mirrored_exec hhooks session _
  | watch input effect =>
    exact mirrored_effectOn (fun value => Script.mirrored_exec hhooks session _) inputs

theorem mirrored_evaluate (id : SignalId) : (evaluate session hooks id).Mirrored e := by
  refine mirrors_get_bind_of_eq fun w w' hw => ?_
  rw [hw.graph_eq]
  refine ⟨rfl, ?_⟩
  cases w.graph.node id with
  | error failure => exact mirrored_pure _
  | ok node =>
    dsimp only
    split
    · exact mirrored_pure _
    · refine (mirrored_evaluateOn (mirrored_computation hhooks node.kind) id _).bind fun result => ?_
      exact mirrored_store id result

theorem mirrored_evaluateAll (ids : List SignalId) :
    (evaluateAll session hooks ids).Mirrored e := by
  induction ids with
  | nil => exact mirrored_pure _
  | cons id rest ih =>
    refine mirrors_get_bind_of_eq fun w w' hw => ?_
    rw [hw.graph_eq]
    refine ⟨rfl, ?_⟩
    split
    · refine (mirrored_evaluate hhooks id).bind fun reply => ?_
      cases reply with
      | ok _ => exact ih
      | error failure =>
        exact (mirrors_report _ _).bind fun _ => ih.bind fun _ => mirrored_pure _
    · exact ih

theorem mirrored_propagate (roots : List SignalId) :
    (propagate session hooks roots).Mirrored e := by
  unfold propagate
  split
  · exact mirrored_pure _
  · refine mirrors_get_bind_of_eq fun w w' hw => ?_
    rw [hw.graph_eq]
    refine ⟨rfl, ?_⟩
    refine (mirrors_report _ _).bind fun _ => (mirrored_begin _).bind fun _ => ?_
    exact mirrored_evaluateAll hhooks _

omit hhooks in
/-- Reading what was given to a value mirrors itself. -/
theorem mirrored_resolved {x : Exec (Except Interrupt Value)} (h : x.Mirrored e) :
    (x >>= fun result => match result with
      | .error interrupt => pure (.error interrupt.toFailure)
      | .ok value => get >>= fun w => pure (w.graph.resolve value)).Mirrored e := by
  refine h.bind fun result => ?_
  cases result with
  | error interrupt => exact mirrored_pure _
  | ok value =>
    refine mirrors_get_bind_of_eq fun w w' hw => ?_
    rw [hw.graph_eq]
    exact ⟨rfl, mirrored_pure _⟩

theorem mirrored_reduce (payload : Value) (target : SignalId) (reducer : Value → Script) :
    (reduce session hooks payload target reducer).Mirrored e := by
  refine mirrors_get_bind_of_eq fun w w' hw => ?_
  rw [hw.graph_eq]
  refine ⟨rfl, ?_⟩
  cases w.graph.value target with
  | error failure => exact mirrored_pure _
  | ok current =>
    refine (mirrored_begin _).bind fun _ => ?_
    exact mirrored_resolved (Script.mirrored_exec hhooks session _)

theorem mirrored_reduceProgram (payload : Value) (target : SignalId) (reducer : Value → Program) :
    (reduceProgram session hooks payload target reducer).Mirrored e := by
  refine mirrors_get_bind_of_eq fun w w' hw => ?_
  rw [hw.graph_eq]
  refine ⟨rfl, ?_⟩
  cases w.graph.value target with
  | error failure => exact mirrored_pure _
  | ok current =>
    refine (mirrored_begin _).bind fun _ => ?_
    exact (Script.mirrored_exec hhooks session _).bind fun result => mirrored_pure _

omit hhooks in
/-- Storing what a reducer gave and going on mirrors itself if going on does. -/
theorem mirrors_finish (payload : Value) (written : List SignalId) (target : SignalId)
    (next : Except Failure Value) {rest rest' : List Subscriber}
    (hrest : ∀ written, (reduceAll session hooks payload written rest).Mirrors e
      (reduceAll session hooks payload written rest')) :
    (reduceAll.finish session hooks payload written target next rest).Mirrors e
      (reduceAll.finish session hooks payload written target next rest') := by
  unfold reduceAll.finish
  refine (mirrored_storeReduced target next).bind fun reply => ?_
  cases reply with
  | ok _ => exact hrest _
  | error failure =>
    exact (mirrors_report _ _).bind fun _ => (hrest written).bind fun _ => mirrored_pure _

variable (hstands : e.StandsIn session)

include hstands in
/-- Subscribers that are alike reduce alike. -/
theorem mirrors_reduceAll (payload : Value) {subscribers subscribers' : List Subscriber}
    (halike : List.Forall₂ (Subscriber.Alike e) subscribers subscribers') :
    ∀ written, (reduceAll session hooks payload written subscribers).Mirrors e
      (reduceAll session hooks payload written subscribers') := by
  induction halike with
  | nil =>
    intro written
    rw [reduceAll]
    exact mirrored_pure _
  | @cons first first' rest rest' hfirst _ ih =>
    intro written
    cases hfirst with
    | swapped hswaps =>
      -- Only here do the two sessions run anything different.
      rw [reduceAll, reduceAll]
      refine (hstands hooks payload _ _ _ hhooks hswaps).bind fun next => ?_
      exact mirrors_finish payload written _ next ih
    | same =>
      cases first with
      | fold target reducer =>
        rw [reduceAll, reduceAll]
        refine (mirrored_reduce hhooks payload target _).bind fun next => ?_
        exact mirrors_finish payload written target next ih
      | foldProgram target reducer =>
        rw [reduceAll, reduceAll]
        refine (mirrored_reduceProgram hhooks payload target _).bind fun next => ?_
        exact mirrors_finish payload written target next ih
      | listener listener =>
        rw [reduceAll, reduceAll]
        exact ih written
      | forward source =>
        rw [reduceAll, reduceAll]
        exact ih written

/-- Subscribers that are alike have the same listeners among them. -/
theorem mirrors_notifyAll (payload : Value) {subscribers subscribers' : List Subscriber}
    (halike : List.Forall₂ (Subscriber.Alike e) subscribers subscribers') :
    (notifyAll session hooks payload subscribers).Mirrors e
      (notifyAll session hooks payload subscribers') := by
  induction halike with
  | nil => exact mirrored_pure _
  | @cons first first' rest rest' hfirst _ ih =>
    cases hfirst with
    | swapped hswaps => exact ih
    | same =>
      cases first with
      | listener listener =>
        refine (mirrored_begin _).bind fun _ => ?_
        refine (Script.mirrored_exec hhooks session _).bind fun result => ?_
        cases result with
        | ok value => exact ih
        | error interrupt => exact ih.bind fun _ => mirrored_pure _
      | fold target reducer => exact ih
      | foldProgram target reducer => exact ih
      | forward source => exact ih

include hstands

theorem mirrored_deliver (source : SourceId) (payload : Value) :
    (deliver session hooks source payload).Mirrored e := by
  refine mirrors_get_bind fun w w' hw => ?_
  rcases hw.hub.deliver_cases source with
    ⟨hfirst, hsecond⟩ | ⟨subscribers, subscribers', hub, hub', hfirst, hsecond, halike, hhub⟩
  · rw [hfirst, hsecond]
    exact mirrored_pure _ w w' hw
  · rw [hfirst, hsecond]
    have hcounted : MirrorsFrom e (set { w with hub } : Exec PUnit) (set { w' with hub := hub' }) w w' :=
      mirrorsFrom_set rfl (hw.connecting hhub)
    refine hcounted.bind fun _ => ?_
    refine (mirrors_report _ _).bind fun _ => ?_
    refine (mirrors_reduceAll hhooks hstands payload halike []).bind fun reduced => ?_
    refine (mirrored_propagate hhooks _).bind fun passed => ?_
    exact (mirrors_notifyAll hhooks payload halike).bind fun _ => mirrored_pure _

theorem mirrored_apply (change : Change) : (apply session hooks change).Mirrored e := by
  refine (mirrored_begin _).bind fun _ => ?_
  cases change with
  | written cell => exact mirrored_propagate hhooks _
  | fired source payload => exact mirrored_deliver hhooks hstands source payload

theorem mirrored_drain (bound : Nat) : ∀ change, (drain session hooks bound change).Mirrored e := by
  induction bound with
  | zero => exact fun _ => mirrored_failure
  | succ n ih =>
    intro change
    refine (mirrored_apply hhooks hstands change).bind fun failures => ?_
    refine mirrors_get_bind fun w w' hw => ?_
    rw [hw.queue_eq]
    cases w.queue with
    | nil => exact mirrored_pure _ w w' hw
    | cons next queue =>
      have htaken : MirrorsFrom e (set { w with queue } : Exec PUnit) (set { w' with queue }) w w' :=
        mirrorsFrom_set rfl (hw.queueing queue)
      refine htaken.bind fun _ => ?_
      exact (ih next).bind fun _ => mirrored_pure _

theorem mirrored_settle (bound : Nat) (change : Change) :
    (settle session hooks bound change).Mirrored e := by
  refine Mirrors.bind (mirrors_modify (fun _ => rfl) fun _ _ hw => hw.settling true) fun _ => ?_
  refine (mirrored_drain hhooks hstands bound change).bind fun failures => ?_
  refine Mirrors.bind (mirrors_modify (fun _ => rfl) fun _ _ hw => hw.settling false) fun _ => ?_
  dsimp only
  split
  · exact mirrored_pure _
  · exact (mirrors_report _ _).bind fun _ => mirrored_pure _

omit hhooks hstands in
theorem mirrored_checkShape (i : Instruction) (value : Value) :
    (checkShape i value).Mirrored e := by
  unfold checkShape
  split
  · exact mirrored_pure _
  · refine mirrors_get_bind_of_eq fun w w' hw => ?_
    have hshape : currentShape w' value = currentShape w value := by
      cases value with
      | signal id => exact congrArg (fun graph : Graph => (graph.value id).map Value.shape) hw.graph_eq
      | _ => rfl
    rw [hshape]
    refine ⟨rfl, ?_⟩
    cases currentShape w value with
    | error failure => exact mirrored_pure _
    | ok found =>
      dsimp only
      split
      · exact mirrored_pure _
      · exact mirrored_pure _

omit hstands in
theorem mirrored_dispatch (i : Instruction) : (dispatch session hooks i).Mirrored e := by
  unfold dispatch
  cases Keyed.get? i.tag session.handlers with
  | none => exact mirrored_pure _
  | some handler =>
    refine (Script.mirrored_exec hhooks session (handler i)).bind fun result => ?_
    cases result with
    | error interrupt => exact mirrored_pure _
    | ok value =>
      dsimp only
      split
      · exact mirrored_checkShape i value
      · exact mirrored_pure _

omit hhooks in
/-- **Sessions mirror themselves.** At every level, dispatching an instruction and settling a change do
the same in states that are like each other. -/
theorem mirrored_hooksAt (level : Nat) : (session.hooksAt level).Mirrored e := by
  induction level with
  | zero => exact ⟨fun _ => mirrored_failure, fun _ => mirrored_failure⟩
  | succ n ih => exact ⟨mirrored_dispatch ih, mirrored_settle ih hstands n⟩

end Session

end EffectGraph
