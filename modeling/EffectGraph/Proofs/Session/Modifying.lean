import EffectGraph.Catalog.Signals
import EffectGraph.Proofs.Session.Commands
import EffectGraph.Proofs.Session.Deliveries
import EffectGraph.Proofs.Session.Reachable

/-!
# Modifying a cell

`modify` reads a cell, hands its value to a function and writes what the function gives. It does what
`sample` and `set` do one after the other (`Session.modify_is_sample_and_set`), with one exception:
`set` replaces the signals that its operand refers to by their values, and `modify` stores the result
of the function as it is (`Session.modify_stores_handle`).

Both are compared with a sequence of single calls: `Exec.update` writes the result of the function at
once, and `Exec.assign` reads it before.
-/

namespace EffectGraph

open Exec World

namespace Catalog.Signals

/-- The instruction of `modify`. -/
def modifying (cell : SignalId) (f : Value → Value) : Instruction :=
  ⟨"signal.modify", [("signal", .value (.signal cell)),
    ("update", .function fun args => .pure (f (args.getLast?.getD .unit)))], .unit⟩

/-- The instruction of `sample`. -/
def sampling (cell : SignalId) : Instruction :=
  ⟨"signal.sample", [("signal", .value (.signal cell))], .any⟩

/-- The instruction of `set`. -/
def assigning (cell : SignalId) (value : Value) : Instruction :=
  ⟨"signal.set", [("signal", .value (.signal cell)), ("value", .value value)], .unit⟩

/-- Replaces the value of a cell by a function of it in one step. -/
def modification (cell : SignalId) (f : Value → Value) : Program :=
  modify (.value (.signal cell)) f

/-- Replaces the value of a cell by a function of it in two steps. -/
def assignment (cell : SignalId) (f : Value → Value) : Program :=
  (sample (.value (.signal cell))).bind fun value =>
    set (.value (.signal cell)) (.value (f value))

end Catalog.Signals

namespace Exec

/-- Ends with unit when the call has succeeded. -/
def thenUnit (call : Exec (Except Failure Unit)) : Exec (Except Interrupt Value) := do
  match ← call with
  | .error failure => return .error (.ofFailure failure)
  | .ok () => return .ok .unit

/-- Writes a function of its value into a cell. -/
def update (session : Session) (hooks : Hooks) (cell : SignalId) (f : Value → Value) :
    Exec (Except Failure Unit) := do
  match (← modifyGet (World.answer session (.sample cell)) : Except Failure Value) with
  | .error failure => return .error failure
  | .ok value => writeCell hooks cell (f value)

/-- Writes what a value is read to into a cell. -/
def writeRead (session : Session) (hooks : Hooks) (cell : SignalId) (value : Value) :
    Exec (Except Failure Unit) := do
  match (← modifyGet (World.answer session (.read value)) : Except Failure Value) with
  | .error failure => return .error failure
  | .ok next => writeCell hooks cell next

/-- Writes what a function of its value is read to into a cell. -/
def assign (session : Session) (hooks : Hooks) (cell : SignalId) (f : Value → Value) :
    Exec (Except Failure Unit) := do
  match (← modifyGet (World.answer session (.sample cell)) : Except Failure Value) with
  | .error failure => return .error failure
  | .ok value => writeRead session hooks cell (f value)

variable {e : Exchange} {session : Session} {hooks : Hooks} {cell : SignalId} {w : World}

theorem mirrors_thenUnit {x y : Exec (Except Failure Unit)} (h : x.Mirrors e y) :
    (thenUnit x).Mirrors e (thenUnit y) := by
  refine h.bind fun reply => ?_
  cases reply with
  | error failure => exact mirrored_pure _
  | ok _ => exact mirrored_pure _

/-- What is no cell cannot be written, whatever the value. -/
theorem writeCell_of_not_isCell (h : ¬ w.graph.IsCell cell) (value value' : Value) :
    writeCell hooks cell value w = writeCell hooks cell value' w := by
  unfold writeCell
  rw [get_bind_eq, get_bind_eq]
  cases hnode : w.graph.node cell with
  | error failure => rfl
  | ok node =>
    have hkind : node.kind.isCell = false := by
      cases hk : node.kind with
      | cell => exact absurd ⟨node, Graph.node_eq_ok.1 hnode, hk⟩ h
      | derived operands compute => rfl
      | watch input effect => rfl
    simp only [hkind]
    rfl

/-- If what the function gives can be read, and is read to itself where that matters, then it makes no
difference whether it is read. -/
theorem assign_eq_update {f : Value → Value}
    (hread : ∀ x, w.graph.value cell = .ok x →
      ∃ y, w.graph.resolve (f x) = .ok y ∧ (w.graph.IsCell cell → y = f x)) :
    assign session hooks cell f w = update session hooks cell f w := by
  have hsampled : (modifyGet (World.answer session (.sample cell)) : Exec (Except Failure Value)) w =
      (some (w.graph.value cell), w) := rfl
  refine (bind_eq_of_eq_some hsampled).trans (Eq.trans ?_ (bind_eq_of_eq_some hsampled).symm)
  cases hvalue : w.graph.value cell with
  | error failure => rfl
  | ok x =>
    obtain ⟨y, hy, hsame⟩ := hread x hvalue
    have hresolved : (modifyGet (World.answer session (.read (f x))) : Exec (Except Failure Value)) w =
        (some (.ok y), w) := congrArg (fun reply => (some reply, w)) hy
    refine (bind_eq_of_eq_some hresolved).trans ?_
    -- What is to be written matters only for a cell.
    by_cases hcell : w.graph.IsCell cell
    · exact congrArg (writeCell hooks cell · w) (hsame hcell)
    · exact writeCell_of_not_isCell hcell y (f x)

end Exec

namespace Session

open Catalog.Signals

variable {e : Exchange} {session : Session} {hooks : Hooks} {cell : SignalId} {f : Value → Value}
  {w : World}

/-! ## Handlers -/

/-- An instruction that yields unit passes the check of its result. -/
theorem dispatch_eq_thenUnit {i : Instruction} {handler : Handler}
    (hfound : Keyed.get? i.tag session.handlers = some handler) (hresult : i.result = .unit)
    {call : Exec (Except Failure Unit)} (hhandler : (handler i).exec session hooks = thenUnit call) :
    dispatch session hooks i = thenUnit call := by
  rw [← hhandler]
  refine dispatch_eq_exec hfound fun w => ?_
  rw [hhandler, hresult]
  refine leaves_bind.2 ((leaves_self call w).mono fun reply v _ => ?_)
  cases reply with
  | error failure => exact leaves_pure.2 nofun
  | ok _ =>
    refine leaves_pure.2 fun value hvalue => ?_
    cases hvalue
    rfl

theorem exec_handleModify : (handleModify (modifying cell f)).exec session hooks = thenUnit (do
      match (← modifyGet (World.answer session (.sample cell)) : Except Failure Value) with
      | .error failure => return .error failure
      | .ok value =>
        match ← runProgram session.settings hooks.dispatch (.pure (f value)) with
        | .error failure => return .error failure
        | .ok next => writeCell hooks cell next) := by
  unfold thenUnit
  rw [bind_assoc]
  refine congrArg (modifyGet (World.answer session (.sample cell)) >>= ·) (funext fun reply => ?_)
  cases reply with
  | error failure => rfl
  | ok value =>
    refine Eq.trans ?_ (bind_assoc _ _ _).symm
    refine congrArg (runProgram _ _ _ >>= ·) (funext fun result => ?_)
    cases result with
    | error failure => rfl
    | ok next =>
      refine congrArg (writeCell hooks cell next >>= ·) (funext fun result => ?_)
      cases result with
      | ok _ => rfl
      | error failure => rfl

theorem exec_handleSet (value : Value) :
    (handleSet (assigning cell value)).exec session hooks =
      thenUnit (writeRead session hooks cell value) := by
  unfold thenUnit writeRead
  rw [bind_assoc]
  refine congrArg (modifyGet (World.answer session (.read value)) >>= ·) (funext fun reply => ?_)
  cases reply with
  | error failure => rfl
  | ok next =>
    refine congrArg (writeCell hooks cell next >>= ·) (funext fun result => ?_)
    cases result with
    | ok _ => rfl
    | error failure => rfl

theorem exec_handleSample : (handleSample (sampling cell)).exec session hooks = (do
      match (← modifyGet (World.answer session (.read (.signal cell))) : Except Failure Value) with
      | .error failure => return .error (.ofFailure failure)
      | .ok value => return .ok value) := by
  refine congrArg (modifyGet (World.answer session (.read (.signal cell))) >>= ·)
    (funext fun reply => ?_)
  cases reply with
  | error failure => rfl
  | ok value => rfl

section

variable (hoffers : session.Offers Catalog.Signals.bundle)

include hoffers

/-- Modifying a cell updates it, but for what is reported. -/
theorem mirrors_dispatch_modify (hlimit : session.settings.stepLimit = none)
    (hhooks : hooks.Mirrored e) (cell : SignalId) (f : Value → Value) :
    (dispatch session hooks (modifying cell f)).Mirrors e (thenUnit (update session hooks cell f)) := by
  have hfound : Keyed.get? (modifying cell f).tag session.handlers = some handleModify :=
    hoffers (_, _) (.tail _ (.tail _ (.tail _ (.head _))))
  rw [dispatch_eq_thenUnit hfound rfl exec_handleModify]
  refine mirrors_thenUnit ?_
  refine (mirrored_ask session (.sample cell)).bind fun reply => ?_
  cases reply with
  | error failure => exact mirrored_pure _
  | ok value =>
    simp only [runProgram_pure hlimit, bind_assoc, pure_bind]
    exact mirrors_report_bind (mirrored_writeCell hhooks cell (f value))

theorem dispatch_sample :
    dispatch session hooks (sampling cell) w =
      (some ((w.graph.value cell).mapError .ofFailure), w) := by
  have hfound : Keyed.get? (sampling cell).tag session.handlers = some handleSample :=
    hoffers (_, _) (.tail _ (.head _))
  rw [dispatch_eq_exec hfound fun w => (leaves_self _ w).mono fun _ _ _ _ _ => rfl, exec_handleSample]
  have hread : (modifyGet (World.answer session (.read (.signal cell))) :
      Exec (Except Failure Value)) w = (some (w.graph.value cell), w) := rfl
  refine (bind_eq_of_eq_some hread).trans ?_
  cases w.graph.value cell with
  | error failure => rfl
  | ok value => rfl

/-- Setting a cell to a function of its value after sampling it assigns to it. -/
theorem eval_assignment (hooks : Hooks) (cell : SignalId) (f : Value → Value) (w : World) :
    (assignment cell f).eval (dispatch session hooks) w = thenUnit (assign session hooks cell f) w := by
  have hfound (value : Value) :
      Keyed.get? (assigning cell value).tag session.handlers = some handleSet :=
    hoffers (_, _) (.tail _ (.tail _ (.head _)))
  have hsampled : (modifyGet (World.answer session (.sample cell)) : Exec (Except Failure Value)) w =
      (some (w.graph.value cell), w) := rfl
  have hstart : (assignment cell f).eval (dispatch session hooks) w =
      Ending.andThen (dispatch session hooks (sampling cell) w) fun value =>
        (Program.perform (assigning cell (f value))).eval (dispatch session hooks) :=
    congrArg (Ending.andThen · _) (Program.eval_perform_of_pending?_eq_none _ rfl w)
  rw [hstart, dispatch_sample hoffers, thenUnit, assign, bind_assoc]
  refine Eq.trans ?_ (bind_eq_of_eq_some hsampled).symm
  cases w.graph.value cell with
  | error failure => rfl
  | ok value =>
    refine (Program.eval_perform_of_pending?_eq_none _ rfl w).trans ?_
    rw [dispatch_eq_thenUnit (hfound _) rfl (exec_handleSet _)]
    rfl

end

/-! ## Programs -/

/-- A program that is evaluated like such a call is run like it. -/
theorem sameFrom_run (hlimit : session.settings.stepLimit = none) (hhooks : hooks.Mirrored .empty)
    {program : Program} {call : Exec (Except Failure Unit)}
    (h : SameFrom (program.eval hooks.dispatch : Exec (Except Interrupt Value)) (thenUnit call) w) :
    ((Routine.run program).script.exec session hooks).SameFrom (thenUnit call) w := by
  let escape (answer : Except Interrupt Value) : Exec (Except Failure Value) :=
    pure (answer.mapError Interrupt.toFailure)
  let finish (reply : Except Failure Value) : Exec (Except Interrupt Value) :=
    (Routine.ofExcept reply Script.done).exec session hooks
  have hfinish (reply : Except Failure Value) : (finish reply).Mirrored .empty :=
    Script.mirrored_exec hhooks session _
  have hevaluated : (program.evaluated hooks.dispatch : Exec (Except Failure Value)) =
      (program.eval hooks.dispatch : Exec (Except Interrupt Value)) >>= escape := by
    funext w
    rcases heval : program.eval hooks.dispatch w with ⟨_ | answer, v⟩
    · rw [bind_eq_of_eq_none heval, Program.evaluated, heval]
      rfl
    · rw [bind_eq_of_eq_some heval, Program.evaluated, heval]
      rfl
  have hunchanged : (thenUnit call >>= escape) >>= finish = thenUnit call := by
    rw [thenUnit, bind_assoc, bind_assoc]
    refine congrArg (call >>= ·) (funext fun reply => ?_)
    cases reply with
    | error failure => cases failure <;> rfl
    | ok _ => rfl
  have hran := (mirrors_evaluated hlimit program hhooks.dispatch).sameFrom w
  rw [hevaluated] at hran
  have hended := (h.bind (f := escape) fun _ => mirrored_pure _).bind hfinish
  rw [hunchanged] at hended
  exact (hran.bind hfinish).trans hended

section

variable (hoffers : session.Offers Catalog.Signals.bundle)
  (hlimit : session.settings.stepLimit = none)

include hoffers hlimit

/-- Modifying a cell in one step updates it. -/
theorem sameFrom_modification (level : Nat) (cell : SignalId) (f : Value → Value) (w : World) :
    ((Routine.run (modification cell f)).script.exec session (session.hooksAt (level + 1))).SameFrom
      (thenUnit (update session (session.hooksAt level) cell f)) w := by
  have hhooks (level : Nat) : (session.hooksAt level).Mirrored .empty :=
    mirrored_hooksAt (Exchange.standsIn_empty session) level
  refine sameFrom_run hlimit (hhooks (level + 1)) ?_
  have hdispatched := (mirrors_dispatch_modify hoffers hlimit (hhooks level) cell f).sameFrom w
  have heval : (modification cell f).eval (session.hooksAt (level + 1)).dispatch w =
      dispatch session (session.hooksAt level) (modifying cell f) w :=
    Program.eval_perform_of_pending?_eq_none _ rfl w
  unfold SameFrom at hdispatched ⊢
  rwa [heval]

/-- Modifying a cell in two steps assigns to it. -/
theorem sameFrom_assignment (level : Nat) (cell : SignalId) (f : Value → Value) (w : World) :
    ((Routine.run (assignment cell f)).script.exec session (session.hooksAt (level + 1))).SameFrom
      (thenUnit (assign session (session.hooksAt level) cell f)) w := by
  have hhooks := mirrored_hooksAt (Exchange.standsIn_empty session) (level + 1)
  refine sameFrom_run hlimit hhooks ?_
  unfold SameFrom
  rw [← eval_assignment hoffers (session.hooksAt level) cell f w]
  exact ⟨rfl, .refl _⟩

omit hoffers in
/-- A program that starts with an instruction gets nowhere at level zero. -/
theorem sameFrom_failure {program : Program}
    (h : program.eval (session.hooksAt 0).dispatch w = (none, w)) :
    ((Routine.run program).script.exec session (session.hooksAt 0)).SameFrom
      (thenUnit failure) w := by
  have hhooks := mirrored_hooksAt (Exchange.standsIn_empty session) 0
  refine sameFrom_run hlimit hhooks ?_
  unfold SameFrom
  rw [h]
  exact ⟨rfl, .refl w⟩

/-- **Modifying is sampling and setting.** Wherever a session has got to, without a limit of steps, let
a function be such that its result for the value of a signal can be read, and is read to itself if the
signal is a cell. Then modifying the signal by the function ends in the same way as setting it to the
result of the function after sampling it, and leaves the same graph, sources, queue and document, and
the same notes of the host. This holds for cells, for derived nodes and for handles of no signal. -/
theorem modify_is_sample_and_set (level : Nat)
    (hread : ∀ x, w.graph.value cell = .ok x →
      ∃ y, w.graph.resolve (f x) = .ok y ∧ (w.graph.IsCell cell → y = f x)) :
    let modified := session.advance level (Routine.run (modification cell f)).script w
    let assigned := session.advance level (Routine.run (assignment cell f)).script w
    assigned.1 = modified.1 ∧ assigned.2.graph = modified.2.graph ∧
      assigned.2.hub = modified.2.hub ∧ assigned.2.queue = modified.2.queue ∧
      assigned.2.settling = modified.2.settling ∧ assigned.2.document = modified.2.document ∧
      assigned.2.notes = modified.2.notes := by
  have hsame : ((Routine.run (modification cell f)).script.exec session
      (session.hooksAt level)).SameFrom
        ((Routine.run (assignment cell f)).script.exec session (session.hooksAt level)) w := by
    cases level with
    | zero =>
      -- At level zero nothing is dispatched, and both runs are cut off at their first instruction.
      have hmodified : (modification cell f).eval (session.hooksAt 0).dispatch w = (none, w) :=
        Program.eval_perform_of_pending?_eq_none _ rfl w
      have hassigned : (assignment cell f).eval (session.hooksAt 0).dispatch w = (none, w) :=
        congrArg (Ending.andThen · _) (Program.eval_perform_of_pending?_eq_none _ rfl w)
      exact (sameFrom_failure hlimit hmodified).trans (sameFrom_failure hlimit hassigned).symm
    | succ n =>
      have hassigned := sameFrom_assignment hoffers hlimit n cell f w
      unfold SameFrom at hassigned
      rw [thenUnit, bind_eq_of_eq (assign_eq_update hread)] at hassigned
      exact (sameFrom_modification hoffers hlimit n cell f w).trans (SameFrom.symm hassigned)
  obtain ⟨hreply, hlike⟩ := hsame
  exact ⟨hreply, hlike.graph_eq, hlike.hub.eq_of_empty, hlike.queue_eq, hlike.settling_eq,
    hlike.document_eq, hlike.notes_eq⟩

end

/-! ## A function that gives a handle -/

/-- The session with some handlers. -/
private def keeper (handlers : List (Tag × Handler)) : Session := { handlers }

private def cellHandlers : List (Tag × Handler) :=
  (HandlerTable.empty.install Catalog.Signals.bundle).handlers

private theorem offers_keeper : (keeper cellHandlers).Offers Catalog.Signals.bundle :=
  offers_install (by decide) {}

/-- A cell, a node that follows it, and a watch that notes down what the node holds. -/
private def followed : Script :=
  .ask (.cell (.bool false)) fun (cell : SignalId) =>
  .derive [.signal cell] (fun inputs => .done (.ok (.list inputs))) fun _ =>
  .watch (.signal ⟨1⟩) (fun value => .ask (.record (.note value)) fun _ => .done (.ok .unit)) fun _ =>
  .done (.ok .unit)

private def flipped (value : Value) : Value := .bool (value == .bool false)

private theorem followed_update (handlers : List (Tag × Handler)) :
    ∃ w v, Reachable (keeper handlers) w ∧
      thenUnit (update (keeper handlers) ((keeper handlers).hooksAt 2) ⟨0⟩ flipped) w =
        (some (.ok .unit), v) ∧
      v.graph.value ⟨1⟩ = .ok (.list [.bool true]) ∧
      v.notes = [.list [.bool false], .list [.bool true]] := by
  rcases hrun : (keeper handlers).advance 1 followed {} with ⟨result, w⟩
  have hended := hrun
  cbv at hended
  obtain ⟨rfl, hw⟩ := Prod.mk.inj hended
  rcases hupdate : thenUnit (update (keeper handlers) ((keeper handlers).hooksAt 2) ⟨0⟩ flipped) w
    with ⟨result, v⟩
  have hupdated := hupdate
  rw [← hw] at hupdated
  cbv at hupdated
  obtain ⟨rfl, hv⟩ := Prod.mk.inj hupdated
  refine ⟨w, v, .run (.start .empty #[]) (execute_eq_of_advance_eq hrun), hupdate, ?_, ?_⟩
  · rw [← hv]
    rfl
  · rw [← hv]
    rfl

/-- A cell that a node and a watch follow is flipped by sampling and setting it. -/
theorem modify_is_sample_and_set_inverting : ∃ w, Reachable (keeper cellHandlers) w ∧
    let assigned :=
      (keeper cellHandlers).advance 3 (Routine.run (assignment ⟨0⟩ flipped)).script w
    assigned.1 = some (.ok .unit) ∧ assigned.2.graph.value ⟨1⟩ = .ok (.list [.bool true]) ∧
      assigned.2.notes = [.list [.bool false], .list [.bool true]] := by
  obtain ⟨w, v, hreach, hupdated, hvalue, hnotes⟩ := followed_update cellHandlers
  obtain ⟨hreply, hlike⟩ := sameFrom_modification offers_keeper rfl 2 ⟨0⟩ flipped w
  rw [hupdated] at hreply hlike
  have hread (x : Value) (_ : w.graph.value ⟨0⟩ = .ok x) :
      ∃ y, w.graph.resolve (flipped x) = .ok y ∧ (w.graph.IsCell ⟨0⟩ → y = flipped x) :=
    ⟨_, rfl, fun _ => rfl⟩
  obtain ⟨hsame, hgraph, -, -, -, -, hnoted⟩ := modify_is_sample_and_set offers_keeper rfl 3 hread
  refine ⟨w, hreach, hsame.trans hreply.symm, ?_, hnoted.trans (hlike.notes_eq.symm.trans hnotes)⟩
  rw [hgraph]
  exact (congrArg (·.value ⟨1⟩) hlike.graph_eq).symm.trans hvalue

/-- Two cells. -/
private def twoCells : Script :=
  .ask (.cell (.bool true)) fun _ => .ask (.cell (.bool false)) fun _ => .done (.ok .unit)

/-- The handle of the first cell, whatever the value. -/
private def first (_ : Value) : Value := .signal ⟨0⟩

private theorem twoCells_run (handlers : List (Tag × Handler)) :
    ∃ w v v', Reachable (keeper handlers) w ∧
      thenUnit (update (keeper handlers) ((keeper handlers).hooksAt 2) ⟨1⟩ first) w =
        (some (.ok .unit), v) ∧
      thenUnit (assign (keeper handlers) ((keeper handlers).hooksAt 2) ⟨1⟩ first) w =
        (some (.ok .unit), v') ∧
      v.graph.value ⟨1⟩ = .ok (.signal ⟨0⟩) ∧ v'.graph.value ⟨1⟩ = .ok (.bool true) := by
  rcases hrun : (keeper handlers).advance 1 twoCells {} with ⟨result, w⟩
  have hended := hrun
  cbv at hended
  obtain ⟨rfl, hw⟩ := Prod.mk.inj hended
  rcases hupdate : thenUnit (update (keeper handlers) ((keeper handlers).hooksAt 2) ⟨1⟩ first) w
    with ⟨result, v⟩
  have hupdated := hupdate
  rw [← hw] at hupdated
  cbv at hupdated
  obtain ⟨rfl, hv⟩ := Prod.mk.inj hupdated
  rcases hassign : thenUnit (assign (keeper handlers) ((keeper handlers).hooksAt 2) ⟨1⟩ first) w
    with ⟨result, v'⟩
  have hassigned := hassign
  rw [← hw] at hassigned
  cbv at hassigned
  obtain ⟨rfl, hv'⟩ := Prod.mk.inj hassigned
  refine ⟨w, v, v', .run (.start .empty #[]) (execute_eq_of_advance_eq hrun), hupdate, hassign, ?_, ?_⟩
  · rw [← hv]
    rfl
  · rw [← hv']
    rfl

/-- For a function that gives the handle of a cell, modifying another cell stores the handle, and
setting it after sampling it stores the value of the cell. -/
theorem modify_stores_handle : ∃ w, Reachable (keeper cellHandlers) w ∧
    let modified :=
      (keeper cellHandlers).advance 3 (Routine.run (modification ⟨1⟩ first)).script w
    let assigned :=
      (keeper cellHandlers).advance 3 (Routine.run (assignment ⟨1⟩ first)).script w
    modified.1 = some (.ok .unit) ∧ modified.2.graph.value ⟨1⟩ = .ok (.signal ⟨0⟩) ∧
      assigned.1 = some (.ok .unit) ∧ assigned.2.graph.value ⟨1⟩ = .ok (.bool true) := by
  obtain ⟨w, v, v', hreach, hupdated, hassigned, hvalue, hvalue'⟩ := twoCells_run cellHandlers
  obtain ⟨hreply, hlike⟩ := sameFrom_modification offers_keeper rfl 2 ⟨1⟩ first w
  rw [hupdated] at hreply hlike
  obtain ⟨hreply', hlike'⟩ := sameFrom_assignment offers_keeper rfl 2 ⟨1⟩ first w
  rw [hassigned] at hreply' hlike'
  refine ⟨w, hreach, hreply.symm, ?_, hreply'.symm, ?_⟩
  · exact (congrArg (·.value ⟨1⟩) hlike.graph_eq).symm.trans hvalue
  · exact (congrArg (·.value ⟨1⟩) hlike'.graph_eq).symm.trans hvalue'

end Session

end EffectGraph
