import EffectGraph.Catalog.Events
import EffectGraph.Proofs.Graph.Marks
import EffectGraph.Proofs.Program.EffectFree
import EffectGraph.Proofs.Session.Commands
import EffectGraph.Proofs.Session.Observing

/-!
# Pure and effectful reducers

A pure fold runs the programs of its reducer privately: no instruction is answered, and no limit of
steps applies (`Exec.exec_runPure_effectFree`). An effectful fold runs them as reactions, under the
settings of the session (`Script.exec_react_effectFree`). Of a program without effects both runs are
the same, up to the limit, so that in the lockstep of two sessions either kind of reducer can stand
where the other one does (`Exchange.standsIn_folding`).
-/

namespace EffectGraph

open Exec World

/-! ## Runs without effects -/

namespace World.Like

/-- What has happened besides in both states does not matter. -/
theorem aside {e : Exchange} {w w' v v' : World} (h : w.Like e w') (hv : w.Like .empty v)
    (hv' : w'.Like .empty v') : v.Like e v' := by
  have hnotes := hv'.notes_eq.trans (h.notes_eq.trans hv.notes_eq.symm)
  rw [hv.eq_of_empty, hv'.eq_of_empty] at hnotes ⊢
  exact ⟨h.graph_eq, h.hub, h.queue_eq, h.settling_eq, h.document_eq, hnotes⟩

end World.Like

section

variable {p : Program} (h : p.EffectFree)

include h

/-- A program without effects has its result, and nothing happens but that this is reported. -/
theorem Exec.runProgram_effectFree (settings : Settings)
    (f : Instruction → Exec (Except Interrupt Value)) :
    ∃ result, (p.alone settings.stepLimit).outcome.result = some result ∧
      ∀ w, ∃ v, runProgram settings f p w = (some result, v) ∧ v.past = w.past ∧ w.Like .empty v := by
  have hrun (w : World) := (h.run_eq (announced settings f) settings.stepLimit w).1
  have hanswered := (h.run_eq (announced settings f) settings.stepLimit {}).2
  obtain ⟨result, hresult⟩ : ∃ result, (p.alone settings.stepLimit).outcome.result = some result := by
    cases houtcome : (p.alone settings.stepLimit).outcome with
    | unanswered => exact absurd houtcome hanswered
    | _ => exact ⟨_, rfl⟩
  refine ⟨result, hresult, fun w => ?_⟩
  unfold runProgram
  rw [get_bind_eq, hrun w]
  cases houtcome : (p.alone settings.stepLimit).outcome with
  | unanswered => exact absurd houtcome hanswered
  | aborted failure =>
    rw [houtcome] at hresult
    cases hresult
    exact ⟨w, rfl, rfl, .refl w⟩
  | yielded value | raised payload | exhausted limit =>
    rw [houtcome] at hresult
    cases hresult
    exact ⟨_, rfl, rfl, .reported w _⟩

/-- In reaction to an occurrence, the result is read besides. -/
theorem Script.exec_react_effectFree (session : Session) (hooks : Hooks) :
    ∃ result, (p.alone session.settings.stepLimit).outcome.result = some result ∧
      ∀ next w, ∃ v, (Script.react p next).exec session hooks w =
        (next (result.bind w.graph.resolve)).exec session hooks v ∧
          v.past = w.past ∧ w.Like .empty v := by
  obtain ⟨result, hresult, hran⟩ := runProgram_effectFree h session.settings hooks.dispatch
  refine ⟨result, hresult, fun next w => ?_⟩
  obtain ⟨v, hrun, hpast, hlike⟩ := hran w
  -- Nothing was created meanwhile, so nothing is removed in the end.
  have hdiscarded : (modifyGet (World.answer session (.discardSince w.graph.mark)) :
      Exec (Except Failure Unit)) v = (some (.ok ()), v) := by
    change (some (v.discard (v.graph.createdSince w.graph.mark)).1,
      (v.discard (v.graph.createdSince w.graph.mark)).2) = (some (.ok ()), v)
    rw [hlike.graph_eq, Graph.createdSince_mark]
    rfl
  refine ⟨v, (bind_eq_of_eq_some hrun).trans ?_, hpast, hlike⟩
  cases result with
  | error failure => exact bind_eq_of_eq_some hdiscarded
  | ok value =>
    have hread : (modifyGet (World.answer session (.read value)) : Exec (Except Failure Value)) v =
        (some (w.graph.resolve value), v) :=
      congrArg (fun graph : Graph => (some (graph.resolve value), v)) hlike.graph_eq
    exact (bind_eq_of_eq_some hread).trans (bind_eq_of_eq_some hdiscarded)

/-- The program of a pure reducer is run without a limit. -/
theorem exec_runPure_effectFree (session : Session) (hooks : Hooks) :
    ∃ result, (p.alone none).outcome.result = some result ∧
      ∀ w, ∃ v, (Catalog.Events.runPure p).script.exec session hooks w =
        (some (result.mapError .ofFailure), v) ∧ v.past = w.past ∧ w.Like .empty v := by
  obtain ⟨result, hresult, hran⟩ := runProgram_effectFree h {} fun i =>
    (Routine.interrupt (.aborted (.impureReducer i.tag)) : Routine Value).script.exec session hooks
  refine ⟨result, hresult, fun w => ?_⟩
  obtain ⟨v, hrun, haside⟩ := hran w
  refine ⟨v, (bind_eq_of_eq_some hrun).trans ?_, haside⟩
  cases result with
  | error failure => rfl
  | ok value => rfl

end

/-! ## Reducing -/

open Catalog.Events in
/-- Into the cell, the effectful fold stands in for the pure one, as long as the runs of its programs
are within the limit. -/
def Exchange.folding (settings : Settings) (target : SignalId) (f : List Value → Program) :
    Exchange where
  swaps id reducer program :=
    id = target ∧ (reducer = fun current payload => (runPure (f [current, payload])).script) ∧
      program = fun current payload => f [current, payload]
  fine activity := ∀ current payload, activity = .reducing target current payload →
    (f [current, payload]).Within settings.stepLimit

/-- The programs of a pure reducer give the same as those of an effectful one. -/
theorem Exchange.standsIn_folding (session : Session) (target : SignalId) {f : List Value → Program}
    (hfree : ∀ args, (f args).EffectFree) :
    (folding session.settings target f).StandsIn session := by
  rintro hooks payload id reducer program hhooks ⟨rfl, rfl, rfl⟩
  refine mirrors_get_bind_of_eq fun w w' hw => ?_
  rw [hw.graph_eq]
  refine ⟨rfl, ?_⟩
  cases w.graph.value id with
  | error failure => exact mirrored_pure _
  | ok current =>
    refine mirrors_begin_bind ?_ fun hfine => ?_
    · exact Session.mirrored_resolved (Script.mirrored_exec hhooks session _)
    · intro v v' hv
      -- Within the limit the limited run has the result of the private one.
      have hended := hfree [current, payload]
      obtain ⟨result, hresult, hran⟩ := exec_runPure_effectFree hended session hooks
      obtain ⟨result', hresult', hreacted⟩ := Script.exec_react_effectFree hended session hooks
      rw [(hfine current payload rfl).alone_eq] at hresult'
      obtain rfl : result = result' := Option.some.inj (hresult.symm.trans hresult')
      obtain ⟨u, hrun, hpast, hlike⟩ := hran v
      obtain ⟨u', hrun', -, hlike'⟩ :=
        hreacted (fun result => .done (result.mapError Interrupt.aborted)) v'
      rw [hv.graph_eq] at hrun'
      refine mirrorsFrom_of_eq_some (a := result.bind v.graph.resolve) ?_ ?_ hpast
        (hv.aside hlike hlike')
      · refine (bind_eq_of_eq_some hrun).trans ?_
        cases result with
        | error failure => cases failure <;> rfl
        | ok value => exact congrArg (fun graph : Graph => (some (graph.resolve value), u)) hlike.graph_eq
      · refine (bind_eq_of_eq_some hrun').trans ?_
        cases result.bind v.graph.resolve with
        | error failure => rfl
        | ok value => rfl

end EffectGraph
