import EffectGraph.Proofs.Session.Tracking

/-!
# Everything a session does is a sequence of steps

An action is `Exec.Stepwise` if whatever it does to the state is a sequence of `World.Step`s. All
actions are, scripts at every level included (`Script.exec_stepwise`, `Session.hooksAt_stepwise`):
the acts of a script are steps, and so is all that settling a change does besides running scripts.
-/

namespace EffectGraph

open Exec World

namespace World

theorem step_log (w : World) (entry : Entry) : Step w (w.log entry) :=
  .host w w.document (w.journal.push entry)

theorem step_report (w : World) (event : Event) : Step w (w.report event) := step_log w _

theorem steps_begin (w : World) (activity : Activity) : Steps w (w.begin activity) :=
  .tail (.single (.remember w activity)) (step_log _ _)

end World

/-- Steps lead along acts. -/
theorem admits_steps : Admits Steps Steps :=
  Composes.admits ⟨⟨fun _ => .refl, .trans, .trans⟩, fun _ => .refl⟩ Act.steps Steps.follows

/-- Answering a request takes steps. -/
theorem World.steps_answer (session : Session) (request : Request) (w : World) :
    Steps w (answer session request w).2 :=
  leaves_modifyGet.1 (admits_steps.ask session (fun _ => trivial) w)

namespace Exec

variable {α β : Type}

/-- The action only takes steps, whether it ends or not. -/
def Stepwise (x : Exec α) : Prop := ∀ w, x.Leaves (fun _ w' => Steps w w') (Steps w) w

theorem Stepwise.steps {x : Exec α} (h : x.Stepwise) (w : World) : Steps w (x w).2 := (h w).left

/-! ## Putting actions together -/

theorem stepwise_pure (a : α) : Stepwise (pure a) := admits_steps.pure a

theorem stepwise_failure : Stepwise (failure : Exec α) := admits_steps.failure

theorem Stepwise.bind {x : Exec α} {f : α → Exec β} (hx : x.Stepwise)
    (hf : ∀ a, (f a).Stepwise) : (x >>= f).Stepwise := admits_steps.bind hx hf

/-- Steps that follow others. -/
theorem Stepwise.after {x : Exec α} (hx : x.Stepwise) {w w₁ : World} (hsteps : Steps w w₁) :
    x.Leaves (fun _ w' => Steps w w') (Steps w) w₁ := admits_steps.after hx hsteps

theorem stepwise_get_bind {f : World → Exec β}
    (hf : ∀ w, (f w).Leaves (fun _ w' => Steps w w') (Steps w) w) :
    ((get : Exec World) >>= f).Stepwise := tracked_get_bind hf

theorem stepwise_modifyGet {f : World → α × World} (hf : ∀ w, Steps w (f w).2) :
    Stepwise (modifyGet f) := tracked_modifyGet hf

theorem stepwise_modify {f : World → World} (hf : ∀ w, Steps w (f w)) : Stepwise (modify f) :=
  stepwise_modifyGet fun w => hf w

/-! ## The actions -/

theorem stepwise_report (event : Event) : (report event).Stepwise := admits_steps.report event

theorem stepwise_begin (activity : Activity) : (begin activity).Stepwise :=
  stepwise_modify fun w => steps_begin w activity

theorem stepwise_write (cell : SignalId) (value : Value) : (write cell value).Stepwise :=
  fun _ => write_leaves (fun _ h => .head (.store h) (steps_begin _ _)) fun _ _ => .refl

/-- Finishing a first evaluation takes steps if the node is no cell. -/
theorem finishFirst_steps {id : SignalId} {w : World} {E : World → Prop}
    (hcell : ¬ w.graph.IsCell id) (result : Except Interrupt Value) :
    (finishFirst id result).Leaves (fun _ w' => Steps w w') E w :=
  finishFirst_leaves (fun _ _ => .refl) (fun _ _ _ hstore => .single (.store hstore))
    fun _ _ _ _ hremove => .single (.drop hcell hremove)

end Exec

/-- What is done elsewhere only takes steps. -/
structure Hooks.Stepwise (hooks : Hooks) : Prop where
  dispatch : ∀ i, (hooks.dispatch i).Stepwise
  settle : ∀ change, (hooks.settle change).Stepwise

variable {hooks : Hooks}

theorem Exec.stepwise_request (hhooks : hooks.Stepwise) (change : Change) :
    (request hooks change).Stepwise := by
  refine stepwise_get_bind fun w => ?_
  split
  · split
    · exact leaves_pure.2 .refl
    · refine Stepwise.bind (stepwise_report _) (fun _ => ?_) w
      refine (stepwise_begin _).bind fun _ => ?_
      exact (stepwise_modify fun w => .single (.enqueue w _)).bind fun _ => stepwise_pure _
  · exact hhooks.settle change w

theorem Hooks.Stepwise.tracks (hhooks : hooks.Stepwise) : Tracks hooks Steps Steps where
  toAdmits := admits_steps.toCalls
  set _ hstore := (stepwise_request hhooks _).after (.head (.store hstore) (steps_begin _ _))
  fire _ := stepwise_request hhooks _ _
  dispatch i _ := hhooks.dispatch i
  every := Act.steps

/-- Whatever a script does to the state is a sequence of steps. -/
theorem Script.exec_stepwise (session : Session) (hhooks : hooks.Stepwise) (script : Script) :
    (script.exec session hooks).Stepwise :=
  script.exec_tracked session hhooks.tracks

end EffectGraph
