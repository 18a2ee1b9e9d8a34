import EffectGraph.Proofs.Session.Folds
import EffectGraph.Proofs.Session.Transient

/-!
# What an effectful fold stores

The program of an effectful fold ends with a value, and the fold stores what this value is read to:
every handle in it is replaced by what its signal holds. What the signal holds is not read again. So
the state is plain exactly if no signal that the value refers to holds a handle
(`state_plain_iff_read_plain`). A cell that holds the handle of another cell is enough for a handle
to get into the state (`state_holds_handle`).
-/

namespace EffectGraph

open Exec World

/-! ## Programs whose value is read -/

namespace Session

variable {session : Session} {hooks : Hooks} {program : Program} {w w' : World}

/-- The program ends with a value in some state, and is read to a value there. -/
def Reads (session : Session) (hooks : Hooks) (program : Program) (w : World) (value : Value)
    (ended : World) (state : Value) : Prop :=
  runProgram session.settings hooks.dispatch program w = (some (.ok value), ended) ∧
    ended.graph.resolve value = .ok state

/-- A reaction goes on with what the value of its program is read to, or with a failure. -/
theorem react_reads {next : Except Failure Value → Script}
    {Q : Except Interrupt Value → World → Prop}
    (hread : ∀ value ended state w₁, session.Reads hooks program w value ended state →
      ((next (.ok state)).exec session hooks).Leaves Q (fun _ => True) w₁)
    (hfailed : ∀ failure w₁,
      ((next (.error failure)).exec session hooks).Leaves Q (fun _ => True) w₁) :
    ((Script.react program next).exec session hooks).Leaves Q (fun _ => True) w := by
  refine leaves_bind.2 (leaves_modifyGet.2 (leaves_bind.2 ((leaves_self _ _).mono ?_)))
  intro result ended hran
  -- What the program has created is discarded before the script goes on.
  cases result with
  | error failure => exact discardSince_leaves (hfailed _ _) fun _ => hfailed _ _
  | ok value =>
    refine leaves_bind.2 (leaves_modifyGet.2 (discardSince_leaves ?_ fun _ => hfailed _ _))
    dsimp only [answer]
    cases hstate : ended.graph.resolve value with
    | error failure => exact hfailed failure _
    | ok state => exact hread value ended state _ ⟨hran, hstate⟩

/-- The cell holds what the value of a program is read to. The handles in it are those that the
signals hold to which the value refers, so it is plain exactly if none of these holds a handle. -/
def HoldsReading (session : Session) (hooks : Hooks) (program : Program) (w : World)
    (cell : SignalId) (w' : World) : Prop :=
  ∃ value ended state, session.Reads hooks program w value ended state ∧
    w'.graph.value cell = .ok state ∧
    state.handles = value.handles.flatMap (fun id => Value.handlesIn (ended.graph.value id)) ∧
    (state.isReactive = false ↔
      ∀ id ∈ value.handles, ∀ held, ended.graph.value id = .ok held → held.isReactive = false)

theorem Reads.holdsReading {value state : Value} {ended : World} {cell : SignalId}
    (h : session.Reads hooks program w value ended state)
    (hcell : w'.graph.value cell = .ok state) :
    session.HoldsReading hooks program w cell w' :=
  ⟨value, ended, state, h, hcell, Value.handles_resolveWith h.2,
    Value.not_isReactive_resolveWith_iff h.2⟩

/-- A reducer that gives programs gives what the value of its program is read to. -/
theorem reduceProgram_reads {target : SignalId} {payload : Value} {reducer : Value → Program} :
    (reduceProgram session hooks payload target reducer).Leaves (fun next _ => ∀ state,
      next = .ok state → ∃ current value ended, w.graph.value target = .ok current ∧
        session.Reads hooks (reducer current) (w.begin (.reducing target current payload)) value
          ended state) (fun _ => True) w := by
  refine leaves_bind.2 (leaves_get.2 ?_)
  cases hcurrent : w.graph.value target with
  | error failure => exact leaves_pure.2 fun state h => by cases h
  | ok current =>
    refine leaves_bind.2 (leaves_modify.2 (leaves_bind.2 (react_reads ?_ ?_)))
    · intro value ended state w₁ hreads
      refine leaves_pure.2 (leaves_pure.2 fun state' h => ?_)
      obtain rfl := Except.ok.inj h
      exact ⟨current, value, ended, rfl, hreads⟩
    · exact fun failure w₁ => leaves_pure.2 (leaves_pure.2 fun state h => by cases h)

/-- A reducer that succeeds has stored what the value of its program is read to. -/
theorem runJob_foldProgram_reads {target : SignalId} {payload : Value}
    {reducer : Value → Value → Program}
    (hran : runJob session hooks (.foldProgram target reducer payload) w = (some (.ok ()), w')) :
    ∃ current, w.graph.value target = .ok current ∧ session.HoldsReading hooks
      (reducer current payload) (w.begin (.reducing target current payload)) target w' := by
  have hleaves : (runJob session hooks (.foldProgram target reducer payload)).Leaves
      (fun result w' => result = .ok () → ∃ current, w.graph.value target = .ok current ∧
        session.HoldsReading hooks (reducer current payload)
          (w.begin (.reducing target current payload)) target w') (fun _ => True) w := by
    refine leaves_bind.2 (reduceProgram_reads.mono fun next w₁ hreads => ?_)
    cases next with
    | error failure => exact leaves_pure.2 fun h => by cases h
    | ok state =>
      obtain ⟨current, value, ended, hcurrent, hread⟩ := hreads state rfl
      refine write_leaves (fun graph hstore _ => ?_) fun failure _ h => by cases h
      exact ⟨current, hcurrent, hread.holdsReading (Graph.value_of_settle hstore)⟩
  exact hleaves.of_eq_some hran rfl

end Session

/-- Creates an effectful fold, and ends with the handle of its cell. -/
def Script.foldMCell (source : SourceId) (initial : Program) (reducer : Value → Value → Program) :
    Script :=
  foldM source initial reducer fun created =>
    .done ((created.map Value.signal).mapError Interrupt.ofFailure)

namespace Session

variable {session : Session} {hooks : Hooks} {w w' : World}

/-- A new effectful fold holds what the value of its first program is read to. -/
theorem foldMCell_reads {source : SourceId} {initial : Program} {reducer : Value → Value → Program}
    {target : SignalId} (hran : (Script.foldMCell source initial reducer).exec session hooks w =
      (some (.ok (.signal target)), w')) : session.HoldsReading hooks initial w target w' := by
  have hleaves : ((Script.foldMCell source initial reducer).exec session hooks).Leaves
      (fun result w' => result = .ok (.signal target) →
        session.HoldsReading hooks initial w target w') (fun _ => True) w := by
    refine leaves_bind.2 (leaves_modifyGet.2 ?_)
    dsimp only [answer]
    cases (w.hub.get source).map (·.name) with
    | error failure => exact leaves_pure.2 fun h => by cases h
    | ok name =>
      refine react_reads (fun value ended state w₁ hreads => ?_) fun failure w₁ => ?_
      · refine leaves_bind.2 ((leaves_self _ _).mono fun created w₂ hattached => ?_)
        cases created with
        | error failure => exact leaves_pure.2 fun h => by cases h
        | ok cell =>
          refine leaves_pure.2 fun h => ?_
          obtain rfl : cell = target := by simpa [Except.map, Except.mapError] using h
          obtain ⟨-, hub, -, rfl, -, rfl⟩ := attach_eq_ok hattached
          exact hreads.holdsReading
            (Graph.value_of_node? (Graph.grows_insertCell w₁.graph state).node?_self)
      · exact leaves_pure.2 fun h => by cases h
  exact hleaves.of_eq_some hran rfl

/-- **The state of an effectful fold is read one level deep.** In any state of a session, let an
effectful fold be created, or let a reducer of one run and succeed. Then the program that was run
has ended with a value, and the cell of the fold holds what this value is read to in the state in
which the program has ended. The handles in it are those that the signals hold to which the value
refers. So the state is plain exactly if none of these signals holds a handle. -/
theorem state_plain_iff_read_plain (session : Session) (level : Nat) {w w' : World}
    {target : SignalId} :
    (∀ {source : SourceId} {initial : Program} {reducer : Value → Value → Program},
      (Script.foldMCell source initial reducer).exec session (session.hooksAt level) w =
        (some (.ok (.signal target)), w') →
          session.HoldsReading (session.hooksAt level) initial w target w') ∧
    ∀ {reducer : Value → Value → Program} {payload : Value},
      runJob session (session.hooksAt level) (.foldProgram target reducer payload) w =
        (some (.ok ()), w') →
          ∃ current, w.graph.value target = .ok current ∧
            session.HoldsReading (session.hooksAt level) (reducer current payload)
              (w.begin (.reducing target current payload)) target w' :=
  ⟨foldMCell_reads, runJob_foldProgram_reads⟩

/-- A cell, a cell that holds the handle of the first one, and a source. -/
private def nesting : Script :=
  .ask (.cell (.bool true)) fun (cell : SignalId) =>
  .ask (.cell (.signal cell)) fun _ =>
  .ask (.source "clicks") fun _ => .done (.ok .unit)

/-- The handle of the first cell in a list, and then that of the second cell. -/
private def nested (current _payload : Value) : Program :=
  match current with
  | .unit => .pure (.list [.signal ⟨0⟩])
  | _ => .pure (.signal ⟨1⟩)

private theorem nesting_run : ∃ w₀ w₁ w₂, Reachable {} w₀ ∧
    (Script.foldMCell ⟨0⟩ (nested .unit .unit) nested).exec {} (hooksAt {} 0) w₀ =
      (some (.ok (.signal ⟨2⟩)), w₁) ∧
    runJob {} (hooksAt {} 0) (.foldProgram ⟨2⟩ nested .unit) w₁ = (some (.ok ()), w₂) ∧
    w₀.graph.value ⟨0⟩ = .ok (.bool true) ∧ w₁.graph.value ⟨1⟩ = .ok (.signal ⟨0⟩) ∧
    w₁.graph.value ⟨2⟩ = .ok (.list [.bool true]) := by
  rcases hrun : advance {} 0 nesting {} with ⟨result, w₀⟩
  have hended := hrun
  cbv at hended
  obtain ⟨rfl, hw₀⟩ := Prod.mk.inj hended
  have hreach : Reachable {} w₀ := .run (.start .empty #[]) (execute_eq_of_advance_eq hrun)
  rcases hcreate : (Script.foldMCell ⟨0⟩ (nested .unit .unit) nested).exec {} (hooksAt {} 0) w₀
    with ⟨result, w₁⟩
  have hended := hcreate
  rw [← hw₀] at hended
  cbv at hended
  obtain ⟨rfl, hw₁⟩ := Prod.mk.inj hended
  rcases hreduce : runJob {} (hooksAt {} 0) (.foldProgram ⟨2⟩ nested .unit) w₁ with ⟨result, w₂⟩
  have hended := hreduce
  rw [← hw₁] at hended
  cbv at hended
  obtain ⟨rfl, -⟩ := Prod.mk.inj hended
  refine ⟨w₀, w₁, w₂, hreach, hcreate, hreduce, ?_, ?_, ?_⟩
  · rw [← hw₀]
    rfl
  · rw [← hw₁]
    rfl
  · rw [← hw₁]
    rfl

/-- A list with the handle of a cell is read to a plain list. The handle of a cell that holds a
handle is read to that handle. -/
theorem state_plain_iff_read_plain_nested : ∃ w₀ w₁ w₂, Reachable {} w₀ ∧
    (Script.foldMCell ⟨0⟩ (nested .unit .unit) nested).exec {} (hooksAt {} 0) w₀ =
      (some (.ok (.signal ⟨2⟩)), w₁) ∧
    runJob {} (hooksAt {} 0) (.foldProgram ⟨2⟩ nested .unit) w₁ = (some (.ok ()), w₂) ∧
    (∃ state, w₁.graph.value ⟨2⟩ = .ok state ∧ state.isReactive = false) ∧
    ∃ state, w₂.graph.value ⟨2⟩ = .ok state ∧ state.isReactive = true := by
  obtain ⟨w₀, w₁, w₂, hreach, hcreate, hreduce, hcell, hnested, hlist⟩ := nesting_run
  refine ⟨w₀, w₁, w₂, hreach, hcreate, hreduce, ?_, ?_⟩
  · obtain ⟨value, ended, state, hreads, hstate, -, hplain⟩ :=
      (state_plain_iff_read_plain {} 0).1 hcreate
    have hran := hreads.1
    cbv at hran
    obtain ⟨hvalue, rfl⟩ := Prod.mk.inj hran
    obtain rfl := Except.ok.inj (Option.some.inj hvalue)
    refine ⟨state, hstate, hplain.2 fun id hid held hheld => ?_⟩
    obtain rfl : id = ⟨0⟩ := by simpa [Value.handles, Value.handlesOfItems] using hid
    obtain rfl := Except.ok.inj (hcell.symm.trans hheld)
    rfl
  · obtain ⟨current, hcurrent, value, ended, state, hreads, hstate, -, hplain⟩ :=
      (state_plain_iff_read_plain {} 0).2 hreduce
    obtain rfl := Except.ok.inj (hlist.symm.trans hcurrent)
    have hran := hreads.1
    cbv at hran
    obtain ⟨hvalue, rfl⟩ := Prod.mk.inj hran
    obtain rfl := Except.ok.inj (Option.some.inj hvalue)
    refine ⟨state, hstate, Bool.eq_true_of_not_eq_false fun hflat => ?_⟩
    cases hplain.1 hflat ⟨1⟩ (List.mem_singleton_self _) _ hnested

/-- An effectful fold is created from the handle of a cell that holds a handle, and another one is
written with it when the source is fired. -/
theorem state_holds_handle : ∃ w₀ w₁ w₂ w₃, Reachable {} w₀ ∧
    (Script.foldMCell ⟨0⟩ (.pure (.signal ⟨1⟩)) fun current _ => .pure current).exec {}
      (hooksAt {} 1) w₀ = (some (.ok (.signal ⟨2⟩)), w₁) ∧
    w₁.graph.value ⟨2⟩ = .ok (.signal ⟨0⟩) ∧
    (Script.foldMCell ⟨0⟩ (.pure .unit) fun _ _ => .pure (.signal ⟨1⟩)).exec {} (hooksAt {} 1) w₁ =
      (some (.ok (.signal ⟨3⟩)), w₂) ∧
    Exec.fire (hooksAt {} 2) ⟨0⟩ .unit w₂ = (some (.ok ()), w₃) ∧
    w₃.graph.value ⟨3⟩ = .ok (.signal ⟨0⟩) ∧ (Value.signal ⟨0⟩).isReactive = true := by
  rcases hrun : advance {} 0 nesting {} with ⟨result, w₀⟩
  have hended := hrun
  cbv at hended
  obtain ⟨rfl, hw₀⟩ := Prod.mk.inj hended
  have hreach : Reachable {} w₀ := .run (.start .empty #[]) (execute_eq_of_advance_eq hrun)
  rcases hfirst : (Script.foldMCell ⟨0⟩ (.pure (.signal ⟨1⟩)) fun current _ => .pure current).exec
    {} (hooksAt {} 1) w₀ with ⟨result, w₁⟩
  have hended := hfirst
  rw [← hw₀] at hended
  cbv at hended
  obtain ⟨rfl, hw₁⟩ := Prod.mk.inj hended
  rcases hsecond : (Script.foldMCell ⟨0⟩ (.pure .unit) fun _ _ => .pure (.signal ⟨1⟩)).exec {}
    (hooksAt {} 1) w₁ with ⟨result, w₂⟩
  have hended := hsecond
  rw [← hw₁] at hended
  cbv at hended
  obtain ⟨rfl, hw₂⟩ := Prod.mk.inj hended
  rcases hfire : Exec.fire (hooksAt {} 2) ⟨0⟩ .unit w₂ with ⟨result, w₃⟩
  have hended := hfire
  rw [← hw₂] at hended
  cbv at hended
  obtain ⟨rfl, hw₃⟩ := Prod.mk.inj hended
  refine ⟨w₀, w₁, w₂, w₃, hreach, hfirst, ?_, hsecond, hfire, ?_, rfl⟩
  · rw [← hw₁]
    rfl
  · rw [← hw₃]
    rfl

end Session

end EffectGraph
