import EffectGraph.Proofs.Session.Deliveries
import EffectGraph.Proofs.Session.Reducers

/-!
# Attaching reducers

A reducer whose programs are without effects can be attached by a pure or by an effectful fold. As long
as its runs stay within the limit of steps, nobody can tell which one it was (`Session.folds_agree`).
The limit makes the difference: a pure fold takes no notice of it (`Session.fold_ignores_limit`).

The two sessions run in lockstep. Up to the attachment they differ by one run that only an effectful
fold makes, of the program of its first value; what is attached then differs in one subscriber.
-/

namespace EffectGraph

open Exec World

namespace Catalog.Events

/-- The instruction of a fold whose reducer is a function. -/
def folding (source : SourceId) (initial : Value) (f : List Value → Program) : Instruction :=
  ⟨"event.fold", [("source", .value (.source source)), ("initial", .value initial),
    ("reducer", .function f)], .signal⟩

/-- The instruction of an effectful fold. -/
def foldingM (source : SourceId) (initial : Value) (f : List Value → Program) : Instruction :=
  ⟨"event.fold_m", [("source", .value (.source source)), ("initial", .value initial),
    ("reducer", .function fun args => f [argument args 0, argument args 1])], .signal⟩

end Catalog.Events

namespace Exec

/-- Ends with the signal that a call has given. -/
def thenSignal (reply : Except Failure SignalId) : Exec (Except Interrupt Value) :=
  match reply with
  | .error failure => pure (.error (.ofFailure failure))
  | .ok id => pure (.ok (.signal id))

theorem mirrored_thenSignal {e : Exchange} (reply : Except Failure SignalId) :
    (thenSignal reply).Mirrored e := by
  cases reply with
  | error failure => exact mirrored_pure _
  | ok id => exact mirrored_pure _

end Exec

namespace Session

open Catalog.Events

variable {session : Session} {hooks : Hooks} {source : SourceId} {initial : Value}
  {f : List Value → Program}

/-- Attaches a pure fold. -/
def attachFold (source : SourceId) (initial : Value) (f : List Value → Program) :
    Exec (Except Interrupt Value) :=
  attach source initial (.fold · fun current payload => (runPure (f [current, payload])).script)
    (.foldAttached source) >>= thenSignal

/-- Attaches an effectful fold. -/
def attachFoldM (source : SourceId) (initial : Value) (f : List Value → Program) :
    Exec (Except Interrupt Value) :=
  attach source initial (.foldProgram · fun current payload => f [current, payload])
    (.effectfulFoldAttached source) >>= thenSignal

theorem exec_handleFold (hplain : initial.isReactive = false) :
    (handleFold (folding source initial f)).exec session hooks = attachFold source initial f := by
  funext w
  have hread : (modifyGet (World.answer session (.read initial)) : Exec (Except Failure Value)) w =
      (some (.ok initial), w) :=
    congrArg (fun reply => (some reply, w)) (Value.resolveWith_of_not_isReactive hplain)
  refine (bind_eq_of_eq_some hread).trans ?_
  refine congrFun (congrArg (attach _ _ _ _ >>= ·) (funext fun reply => ?_)) w
  cases reply with
  | error failure => rfl
  | ok id => rfl

/-- What is left to do for an effectful fold when its first value is known. -/
private def seeded (source : SourceId) (f : List Value → Program) : Except Failure Value → Script
  | .error failure => told (.error failure)
  | .ok seed => .foldProgram source seed (fun current payload => f [current, payload]) told
where
  /-- Ends with the signal that has been attached. -/
  told (reply : Except Failure SignalId) : Script :=
    (Routine.ofExcept reply >>= fun id => pure (.signal id) : Routine Value).script

private theorem exec_seeded :
    (seeded source f (.ok initial)).exec session hooks = attachFoldM source initial f := by
  refine congrArg (attach _ _ _ _ >>= ·) (funext fun reply => ?_)
  cases reply with
  | error failure => rfl
  | ok id => rfl

/-- Before an effectful fold is attached, its first value is run through a program. -/
theorem exec_handleFoldM (hplain : initial.isReactive = false)
    (hstep : Machine.exceeded? session.settings.stepLimit 1 = none) (w : World) :
    ∃ v, (handleFoldM (foldingM source initial f)).exec session hooks w =
      attachFoldM source initial f v ∧ v.past = w.past ∧ w.Like .empty v := by
  have hresolved : w.graph.resolve initial = .ok initial := Value.resolveWith_of_not_isReactive hplain
  have hread : (modifyGet (World.answer session (.read initial)) : Exec (Except Failure Value)) w =
      (some (.ok initial), w) := congrArg (fun reply => (some reply, w)) hresolved
  have hnamed : (modifyGet (World.answer session (.sourceName source)) : Exec (Except Failure String)) w =
      (some ((w.hub.get source).map (·.name)), w) := rfl
  cases hget : w.hub.get source with
  | error failure =>
    have hrefused : attach source initial (.foldProgram · fun current payload => f [current, payload])
        (.effectfulFoldAttached source) w = (some (.error failure), w) := by
      unfold attach
      rw [get_bind_eq, hget]
      rfl
    rw [hget] at hnamed
    refine ⟨w, (bind_eq_of_eq_some hread).trans ((bind_eq_of_eq_some hnamed).trans ?_), rfl, .refl w⟩
    exact (bind_eq_of_eq_some (f := thenSignal) hrefused).symm
  | ok found =>
    -- The source exists, so the first value is run through a program of one step, and read again.
    obtain ⟨result, hresult, hreacted⟩ :=
      Script.exec_react_effectFree (.pure initial : (Program.pure initial).EffectFree) session hooks
    rw [Program.alone_pure hstep] at hresult
    obtain rfl := Option.some.inj hresult
    rw [hget] at hnamed
    obtain ⟨v, hran, haside⟩ := hreacted (seeded source f) w
    refine ⟨v, (bind_eq_of_eq_some hread).trans ((bind_eq_of_eq_some hnamed).trans ?_), haside⟩
    have hseed : (Except.ok initial).bind w.graph.resolve = .ok initial := hresolved
    rw [hseed] at hran
    rwa [exec_seeded] at hran

/-- What is attached is a signal. -/
theorem admits_thenSignal (call : Exec (Except Failure SignalId)) (w : World) :
    (call >>= thenSignal).Leaves
      (fun result _ => ∀ value, result = .ok value → Shape.signal.admits value.shape) (fun _ => True)
      w := by
  refine leaves_bind.2 ((leaves_self call w).mono fun reply v _ => ?_)
  cases reply with
  | error failure => exact leaves_pure.2 nofun
  | ok id =>
    refine leaves_pure.2 fun value hvalue => ?_
    cases hvalue
    rfl

variable (hoffers : session.Offers Catalog.Events.bundle) (hplain : initial.isReactive = false)

include hoffers hplain

theorem dispatch_folding :
    dispatch session hooks (folding source initial f) = attachFold source initial f := by
  have hfound : Keyed.get? (folding source initial f).tag session.handlers = some handleFold :=
    hoffers (_, _) (.tail _ (.tail _ (.head _)))
  rw [← exec_handleFold hplain]
  refine dispatch_eq_exec hfound fun w => ?_
  rw [exec_handleFold hplain]
  exact admits_thenSignal _ w

theorem dispatch_foldingM (hooks : Hooks)
    (hstep : Machine.exceeded? session.settings.stepLimit 1 = none) (w : World) :
    ∃ v, dispatch session hooks (foldingM source initial f) w = attachFoldM source initial f v ∧
      v.past = w.past ∧ w.Like .empty v := by
  have hfound : Keyed.get? (foldingM source initial f).tag session.handlers = some handleFoldM :=
    hoffers (_, _) (.tail _ (.tail _ (.tail _ (.head _))))
  rw [dispatch_eq_exec hfound fun w => ?_]
  · exact exec_handleFoldM hplain hstep w
  · obtain ⟨v, hran, -⟩ := exec_handleFoldM (f := f) hplain hstep w
    unfold Leaves
    rw [hran]
    exact admits_thenSignal _ v

/-- The fold into the next cell can be attached in either way. -/
theorem mirrorsFrom_dispatch_folding (hooks : Hooks) {target : SignalId} {w w' : World}
    (hstep : Machine.exceeded? session.settings.stepLimit 1 = none)
    (htarget : target = ⟨w.graph.slots.size⟩)
    (hw : w.Like (.folding session.settings target f) w') :
    (dispatch session hooks (folding source initial f)).MirrorsFrom
      (.folding session.settings target f)
      (dispatch session hooks (foldingM source initial f)) w w' := by
  obtain ⟨v, hran, -, hlike⟩ := dispatch_foldingM hoffers hplain hooks hstep w'
  rw [dispatch_folding hoffers hplain]
  have hattached := mirrorsFrom_attach (hw.aside (.refl w) hlike) source initial
    (.fold · fun current payload => (runPure (f [current, payload])).script)
    (.foldProgram · fun current payload => f [current, payload])
    (.swapped ⟨htarget.symm, rfl, rfl⟩) (.foldAttached source) (.effectfulFoldAttached source)
  exact (hattached.bind mirrored_thenSignal).of_eq rfl hran rfl

omit hoffers hplain

/-- Runs a program and then makes calls. -/
def attachThen (session : Session) (level : Nat) (program : Program) (calls : List Call) :
    Exec (Except Interrupt Value × List (Except Failure Unit)) := do
  let attached ← (Routine.run program).script.exec session (session.hooksAt level)
  let replies ← Call.execAll (session.hooksAt level) calls
  return (attached, replies)

/-- Calls mirror themselves. -/
theorem mirrored_execAll {e : Exchange} (hhooks : hooks.Mirrored e) (calls : List Call) :
    (Call.execAll hooks calls).Mirrored e := by
  induction calls with
  | nil => exact mirrored_pure _
  | cons call rest ih =>
    have hcall : (call.exec hooks).Mirrored e := by
      cases call with
      | set cell value => exact mirrored_writeCell hhooks cell value
      | fire source payload => exact mirrored_fire hhooks source payload
    exact hcall.bind fun _ => ih.bind fun _ => mirrored_pure _

include hoffers hplain in
/-- **Pure and effectful folds agree.** Attach a reducer whose programs are without effects to any
source, with a plain first value, by either kind of fold, and then fire sources and set cells. If every
run of the reducer for the new cell takes no more steps than the settings allow, then attaching it and
each of the calls has the same reply for both kinds, and the graph is the same in the end, and so are
the queue, the document and the notes of the host. Without a limit this is always so. -/
theorem folds_agree (hfree : ∀ args, (f args).EffectFree) (source : SourceId) (level : Nat)
    (calls : List Call) (w : World) :
    let folded := session.attachThen level
      (foldWith (.value (.source source)) (.value initial) (.function f)) calls w
    let foldedM := session.attachThen level
      (foldM (.value (.source source)) (.value initial) fun current payload => f [current, payload])
      calls w
    (∀ since, folded.2.past = since ++ w.past → ∀ m ∈ since, ∀ current payload,
      m.activity = .reducing ⟨w.graph.slots.size⟩ current payload →
        (f [current, payload]).Within session.settings.stepLimit) →
    foldedM.1 = folded.1 ∧ foldedM.2.graph = folded.2.graph ∧ foldedM.2.queue = folded.2.queue ∧
      foldedM.2.settling = folded.2.settling ∧ foldedM.2.document = folded.2.document ∧
      foldedM.2.notes = folded.2.notes := by
  intro folded foldedM hwithin
  -- The exchange is about the cell that will be created: the graph is as it was when the fold is
  -- attached, so that its handle is known in advance.
  let e : Exchange := .folding session.settings ⟨w.graph.slots.size⟩ f
  have hhooks := mirrored_hooksAt (Exchange.standsIn_folding session ⟨w.graph.slots.size⟩ hfree) level
  have hanswered : (runProgram session.settings (session.hooksAt level).dispatch
      (.perform (folding source initial f))).MirrorsFrom e
        (runProgram session.settings (session.hooksAt level).dispatch
          (.perform (foldingM source initial f))) w w := by
    refine mirrorsFrom_runProgram_perform rfl rfl (.refl w) fun hstep v v' hv hgraph => ?_
    cases level with
    | zero => exact mirrored_failure v v' hv
    | succ n =>
      have htarget : (⟨w.graph.slots.size⟩ : SignalId) = ⟨v.graph.slots.size⟩ := by rw [hgraph]
      exact mirrorsFrom_dispatch_folding hoffers hplain (session.hooksAt n) hstep htarget hv
  have hran := (hanswered.bind fun reply =>
    Script.mirrored_exec hhooks session (Routine.ofExcept reply Script.done)).bind fun attached =>
      (mirrored_execAll hhooks calls).bind fun replies => mirrored_pure (attached, replies)
  obtain ⟨hreply, hlike⟩ := hran.same fun since hsince m hm current payload hactivity =>
    hwithin since hsince m hm current payload hactivity
  exact ⟨hreply, hlike.graph_eq, hlike.queue_eq, hlike.settling_eq, hlike.document_eq,
    hlike.notes_eq⟩

/-! ## Too many steps -/

/-- Takes the answer to the only instruction of a program, and makes the calls after it. -/
def callsAfter (session : Session) (level : Nat) (calls : List Call)
    (answer : Except Interrupt Value) : Exec (Except Interrupt Value × List (Except Failure Unit)) := do
  let attached ← conclude answer
  let replies ← Call.execAll (session.hooksAt level) calls
  return (attached.mapError .ofFailure, replies)

theorem mirrored_callsAfter (level : Nat) (calls : List Call) (answer : Except Interrupt Value) :
    (callsAfter session level calls answer).Mirrored .empty := by
  have hhooks := mirrored_hooksAt (Exchange.standsIn_empty session) level
  exact (mirrored_conclude answer).bind fun _ =>
    (mirrored_execAll hhooks calls).bind fun _ => mirrored_pure _

theorem attachThen_perform (hquiet : session.settings.traceSteps = false)
    (hstep : Machine.exceeded? session.settings.stepLimit 1 = none) {i : Instruction}
    (hi : i.pending? = none) (level : Nat) (calls : List Call) :
    session.attachThen (level + 1) (.perform i) calls =
      dispatch session (session.hooksAt level) i >>= callsAfter session (level + 1) calls := by
  have hran (program : Program) :
      (Routine.run program).script.exec session (session.hooksAt (level + 1)) =
        runProgram session.settings (dispatch session (session.hooksAt level)) program >>=
          fun reply => pure (reply.mapError .ofFailure) := by
    refine congrArg (runProgram _ _ program >>= ·) (funext fun reply => ?_)
    cases reply with
    | error failure => rfl
    | ok value => rfl
  have hannounced : announced session.settings (dispatch session (session.hooksAt level)) 1 i =
      dispatch session (session.hooksAt level) i := by
    unfold announced
    rw [hquiet]
    rfl
  rw [attachThen, hran, runProgram_perform_eq hi, hstep]
  dsimp only
  rw [hannounced]
  simp only [bind_assoc, pure_bind]
  rfl

theorem sameFrom_dispatch_foldingM (hoffers : session.Offers Catalog.Events.bundle)
    (hplain : initial.isReactive = false) (source : SourceId) (hooks : Hooks)
    (hstep : Machine.exceeded? session.settings.stepLimit 1 = none) (w : World) :
    (attachFoldM source initial f).SameFrom (dispatch session hooks (foldingM source initial f)) w := by
  obtain ⟨v, hran, -, hlike⟩ := dispatch_foldingM hoffers hplain hooks hstep w
  have hattached : (attachFoldM source initial f).Mirrored .empty :=
    (mirrored_attach _ _ _ _).bind mirrored_thenSignal
  unfold SameFrom
  rw [hran]
  exact (hattached w v hlike).same fun _ _ _ _ => trivial

/-- The session that has the handlers of events and a limit. -/
private def limited (handlers : List (Tag × Handler)) (limit : Nat) : Session :=
  { handlers, settings := { stepLimit := some limit } }

private def eventHandlers : List (Tag × Handler) :=
  (HandlerTable.empty.install Catalog.Events.bundle).handlers

private theorem offers_limited (limit : Nat) :
    (limited eventHandlers limit).Offers Catalog.Events.bundle := offers_install (by decide) _

/-- The second argument, yielded in two steps. -/
private def second (args : List Value) : Program :=
  (Program.pure .unit).bind fun _ => .pure (argument args 1)

private theorem effectFree_second (args : List Value) : (second args).EffectFree :=
  .bind (.pure _) fun _ => .pure _

private theorem within_second (current payload : Value) :
    (second [current, payload]).Within (some 2) := by
  intro most hmost
  obtain rfl := Option.some.inj hmost
  have hsteps : ((second [current, payload]).alone none).steps = 2 := by cbv
  exact hsteps.le

/-- A session with a source. -/
private def clickable : World := (World.answer {} (.source "clicks") {}).2

private theorem reachable_clickable (session : Session) : session.Reachable clickable := by
  have hrun : session.advance 0 (.ask (.source "clicks") fun _ => .done (.ok .unit)) {} =
      (some (.ok .unit), clickable) := rfl
  exact .run (.start .empty #[]) (execute_eq_of_advance_eq hrun)

private theorem clickable_fold (handlers : List (Tag × Handler)) (limit : Nat) : ∃ v,
    (attachFold ⟨0⟩ (.bool false) second >>=
      callsAfter (limited handlers limit) 3 [.fire ⟨0⟩ (.bool true)]) clickable =
        (some (.ok (.signal ⟨0⟩), [.ok ()]), v) ∧ v.graph.value ⟨0⟩ = .ok (.bool true) := by
  rcases hrun : (attachFold ⟨0⟩ (.bool false) second >>=
    callsAfter (limited handlers limit) 3 [.fire ⟨0⟩ (.bool true)]) clickable with ⟨result, v⟩
  cbv at hrun
  obtain ⟨rfl, rfl⟩ := Prod.mk.inj hrun
  exact ⟨_, rfl, rfl⟩

private theorem clickable_foldM (handlers : List (Tag × Handler)) : ∃ v,
    (attachFoldM ⟨0⟩ (.bool false) second >>=
      callsAfter (limited handlers 1) 3 [.fire ⟨0⟩ (.bool true)]) clickable =
        (some (.ok (.signal ⟨0⟩), [.error (.propagation [.stepLimit 1])]), v) ∧
      v.graph.value ⟨0⟩ = .ok (.bool false) := by
  rcases hrun : (attachFoldM ⟨0⟩ (.bool false) second >>=
    callsAfter (limited handlers 1) 3 [.fire ⟨0⟩ (.bool true)]) clickable with ⟨result, v⟩
  cbv at hrun
  obtain ⟨rfl, rfl⟩ := Prod.mk.inj hrun
  exact ⟨_, rfl, rfl⟩

private theorem clickable_attachFold {limit : Nat} (hstep : Machine.exceeded? (some limit) 1 = none) :
    ∃ v, (limited eventHandlers limit).attachThen 3
        (foldWith (.value (.source ⟨0⟩)) (.value (.bool false)) (.function second))
        [.fire ⟨0⟩ (.bool true)] clickable = (some (.ok (.signal ⟨0⟩), [.ok ()]), v) ∧
      v.graph.value ⟨0⟩ = .ok (.bool true) := by
  obtain ⟨v, hfolded, hvalue⟩ := clickable_fold eventHandlers limit
  refine ⟨v, ?_, hvalue⟩
  refine (congrFun (attachThen_perform (i := folding ⟨0⟩ (.bool false) second) rfl hstep rfl 2 _)
    clickable).trans ?_
  rw [dispatch_folding (offers_limited limit) rfl]
  exact hfolded

/-- A reducer of two steps writes the payload, with a limit of two steps. -/
theorem folds_agree_replacing :
    let foldedM := (limited eventHandlers 2).attachThen 3
      (foldM (.value (.source ⟨0⟩)) (.value (.bool false)) fun current payload =>
        second [current, payload]) [.fire ⟨0⟩ (.bool true)] clickable
    (limited eventHandlers 2).Reachable clickable ∧
      foldedM.1 = some (.ok (.signal ⟨0⟩), [.ok ()]) ∧
      foldedM.2.graph.value ⟨0⟩ = .ok (.bool true) := by
  intro foldedM
  obtain ⟨v, hfolded, hvalue⟩ := clickable_attachFold (rfl : Machine.exceeded? (some 2) 1 = none)
  have hplain : (Value.bool false).isReactive = false := rfl
  have hagree := folds_agree (offers_limited 2) hplain effectFree_second ⟨0⟩ 3
    [.fire ⟨0⟩ (.bool true)] clickable fun _ _ _ _ current payload _ => within_second current payload
  rw [hfolded] at hagree
  obtain ⟨hreply, hgraph, -⟩ := hagree
  exact ⟨reachable_clickable _, hreply, (congrArg (·.value ⟨0⟩) hgraph).trans hvalue⟩

/-- With a limit of a single step a reducer of two steps writes the payload into a pure fold. An
effectful fold keeps its value, and the occurrence fails. -/
theorem fold_ignores_limit :
    let folded := (limited eventHandlers 1).attachThen 3
      (foldWith (.value (.source ⟨0⟩)) (.value (.bool false)) (.function second))
      [.fire ⟨0⟩ (.bool true)] clickable
    let foldedM := (limited eventHandlers 1).attachThen 3
      (foldM (.value (.source ⟨0⟩)) (.value (.bool false)) fun current payload =>
        second [current, payload]) [.fire ⟨0⟩ (.bool true)] clickable
    (limited eventHandlers 1).Reachable clickable ∧
      folded.1 = some (.ok (.signal ⟨0⟩), [.ok ()]) ∧
      folded.2.graph.value ⟨0⟩ = .ok (.bool true) ∧
      foldedM.1 = some (.ok (.signal ⟨0⟩), [.error (.propagation [.stepLimit 1])]) ∧
      foldedM.2.graph.value ⟨0⟩ = .ok (.bool false) := by
  intro folded foldedM
  obtain ⟨v, hfolded, hvalue⟩ := clickable_attachFold (rfl : Machine.exceeded? (some 1) 1 = none)
  obtain ⟨v', hfoldM, hvalue'⟩ := clickable_foldM eventHandlers
  have hfoldedM : (dispatch (limited eventHandlers 1) ((limited eventHandlers 1).hooksAt 2)
      (foldingM ⟨0⟩ (.bool false) second) >>=
        callsAfter (limited eventHandlers 1) 3 [.fire ⟨0⟩ (.bool true)]) clickable = foldedM :=
    (congrFun (attachThen_perform (i := foldingM ⟨0⟩ (.bool false) second) rfl rfl rfl 2 _)
      clickable).symm
  have hplain : (Value.bool false).isReactive = false := rfl
  have hsame := sameFrom_dispatch_foldingM (f := second) (offers_limited 1) hplain ⟨0⟩
    ((limited eventHandlers 1).hooksAt 2) rfl clickable
  obtain ⟨hreply, hlike⟩ := hsame.bind (mirrored_callsAfter 3 [.fire ⟨0⟩ (.bool true)])
  rw [hfoldM, hfoldedM] at hreply hlike
  refine ⟨reachable_clickable _, congrArg Prod.fst hfolded, ?_, hreply, ?_⟩
  · exact (congrArg (fun ended => ended.2.graph.value ⟨0⟩) hfolded).trans hvalue
  · exact (congrArg (·.value ⟨0⟩) hlike.graph_eq).trans hvalue'

end Session

end EffectGraph
