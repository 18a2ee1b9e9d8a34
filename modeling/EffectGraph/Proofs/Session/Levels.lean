import EffectGraph.Proofs.Session.Stepping

/-!
# Settling takes steps, at every level

Settling a change runs computations, reducers and listeners, which are scripts, between steps of its
own. So if the calls that scripts hand to their level take steps only, then settling and the
handling of instructions do too; and this carries over from each level to the next.
-/

namespace EffectGraph

open Exec World

namespace Session

variable (session : Session) {hooks : Hooks} (hhooks : hooks.Stepwise)

theorem stepwise_storeReduced (target : SignalId) (result : Except Failure Value) :
    (storeReduced target result).Stepwise := by
  cases result with
  | error failure => exact stepwise_pure _
  | ok value => exact stepwise_write target value

include hhooks

theorem carries_steps : session.Carries hooks Steps Steps :=
  hhooks.tracks.carries (fun _ => steps_begin _ _) session

theorem stepwise_evaluate (id : SignalId) : (evaluate session hooks id).Stepwise :=
  evaluate_tracked session hhooks.tracks id

theorem stepwise_evaluateAll (ids : List SignalId) : (evaluateAll session hooks ids).Stepwise :=
  evaluateAll_tracked session hhooks.tracks ids

theorem stepwise_propagate (roots : List SignalId) : (propagate session hooks roots).Stepwise :=
  (carries_steps session hhooks).propagate (stepwise_evaluate session hhooks) roots

theorem stepwise_reduce (payload : Value) (target : SignalId) (reducer : Value → Script) :
    (reduce session hooks payload target reducer).Stepwise :=
  (carries_steps session hhooks).reduce payload target reducer

theorem stepwise_reduceProgram (payload : Value) (target : SignalId) (reducer : Value → Program) :
    (reduceProgram session hooks payload target reducer).Stepwise :=
  (carries_steps session hhooks).reduceProgram payload target reducer

theorem stepwise_notifyAll (payload : Value) (subscribers : List Subscriber) :
    (notifyAll session hooks payload subscribers).Stepwise :=
  (carries_steps session hhooks).notifyAll payload subscribers

theorem stepwise_dispatch (i : Instruction) : (dispatch session hooks i).Stepwise :=
  dispatch_tracked session hhooks.tracks.toCalls session.makes_all (Program.over_all _)

omit hhooks in
/-- Storing what a reducer gave and going on takes steps if going on does. -/
theorem stepwise_finish (payload : Value) (written : List SignalId) (target : SignalId)
    (next : Except Failure Value) (rest : List Subscriber)
    (hrest : ∀ written, (reduceAll session hooks payload written rest).Stepwise) :
    (reduceAll.finish session hooks payload written target next rest).Stepwise := by
  unfold reduceAll.finish
  refine (stepwise_storeReduced target next).bind fun result => ?_
  cases result with
  | ok _ => exact hrest _
  | error failure =>
    exact (stepwise_report _).bind fun _ => (hrest written).bind fun _ => stepwise_pure _

theorem stepwise_reduceAll (payload : Value) (subscribers : List Subscriber) :
    ∀ written, (reduceAll session hooks payload written subscribers).Stepwise := by
  induction subscribers with
  | nil =>
    intro written
    rw [reduceAll]
    exact stepwise_pure _
  | cons subscriber rest ih =>
    intro written
    rw [reduceAll.eq_def]
    cases subscriber with
    | fold target reducer =>
      exact (stepwise_reduce session hhooks payload target _).bind fun next =>
        stepwise_finish session payload written target next rest ih
    | foldProgram target reducer =>
      exact (stepwise_reduceProgram session hhooks payload target _).bind fun next =>
        stepwise_finish session payload written target next rest ih
    | listener listener => exact ih written
    | forward source => exact ih written

theorem stepwise_deliver (source : SourceId) (payload : Value) :
    (deliver session hooks source payload).Stepwise := by
  refine stepwise_get_bind fun w => ?_
  split
  · exact leaves_pure.2 .refl
  · rename_i subscribers hub hdeliver
    rw [leaves_bind, leaves_set]
    refine Stepwise.after ?_ (.single (.deliver hdeliver))
    refine (stepwise_report _).bind fun _ => ?_
    refine (stepwise_reduceAll session hhooks payload subscribers []).bind fun reduced => ?_
    refine (stepwise_propagate session hhooks _).bind fun _ => ?_
    exact (stepwise_notifyAll session hhooks payload subscribers).bind fun _ => stepwise_pure _

theorem stepwise_apply (change : Change) : (apply session hooks change).Stepwise := by
  refine (stepwise_begin _).bind fun _ => ?_
  cases change with
  | written cell => exact stepwise_propagate session hhooks _
  | fired source payload => exact stepwise_deliver session hhooks source payload

theorem stepwise_drain (bound : Nat) :
    ∀ change, (drain session hooks bound change).Stepwise := by
  induction bound with
  | zero => exact fun _ => stepwise_failure
  | succ n ih =>
    intro change
    refine (stepwise_apply session hhooks change).bind fun failures => ?_
    refine stepwise_get_bind fun w => ?_
    split
    · exact leaves_pure.2 .refl
    · rename_i next queue _
      rw [leaves_bind, leaves_set]
      exact ((ih next).bind fun _ => stepwise_pure _).after (.single (.enqueue w queue))

theorem stepwise_settle (bound : Nat) (change : Change) :
    (settle session hooks bound change).Stepwise := by
  refine (stepwise_modify fun w => .single (.settling w true)).bind fun _ => ?_
  refine (stepwise_drain session hhooks bound change).bind fun failures => ?_
  refine (stepwise_modify fun w => .single (.settling w false)).bind fun _ => ?_
  dsimp only
  split
  · exact stepwise_pure _
  · exact (stepwise_report _).bind fun _ => stepwise_pure _

omit hhooks

/-- At every level, handling an instruction and settling a change take steps. -/
theorem hooksAt_stepwise (level : Nat) : (session.hooksAt level).Stepwise := by
  induction level with
  | zero => exact ⟨fun _ => stepwise_failure, fun _ => stepwise_failure⟩
  | succ n ih => exact ⟨stepwise_dispatch session ih, stepwise_settle session ih n⟩

/-- A script that is executed has advanced the session. -/
theorem advance_eq_of_execute_eq {level : Nat} {script : Script} {w w' : World}
    {result : Except Interrupt Value} (h : session.execute level script w = some (result, w')) :
    session.advance level script w = (some result, w') := by
  unfold execute at h
  split at h
  · obtain ⟨rfl, rfl⟩ := Prod.mk.inj (Option.some.inj h)
    assumption
  · cases h

/-- Whatever a script does at any level is a sequence of steps, whether it ends or not. -/
theorem advance_steps (level : Nat) (script : Script) (w : World) :
    Steps w (session.advance level script w).2 :=
  (Script.exec_stepwise session (session.hooksAt_stepwise level) script).steps w

theorem execute_steps {level : Nat} {script : Script} {w w' : World}
    {result : Except Interrupt Value}
    (h : session.execute level script w = some (result, w')) : Steps w w' := by
  have hsteps := session.advance_steps level script w
  rwa [session.advance_eq_of_execute_eq h] at hsteps

end Session

end EffectGraph
