import EffectGraph.Proofs.Session.Checks
import EffectGraph.Proofs.Session.Dispatching
import EffectGraph.Proofs.Program.Running

/-!
# The catalog passes all checks

Every handler of the catalog produces a value of the shape that its instructions declare, or a signal
whose value has this shape, and finds all the operands that it asks for. So a program of the catalog
does the same whether results are checked or not, and is never stopped by a check
(`Session.HandlesCatalog.checks_neutral`). For the instructions with effects this is read off the calls
that their handlers make; pure instructions derive signals, whose first values are computed from the
operands there and then.
-/

namespace EffectGraph

open Exec World

/-! ## Routines -/

namespace Routine

variable {P : Failure → Prop} {shape : Shape} {α β : Type} {routine : Routine α}

/-- The routine keeps to the catalog, and is interrupted for these reasons only. -/
def Keeps (P : Failure → Prop) (routine : Routine α) : Prop :=
  ∀ shape next, (∀ result, Fails (Interrupt.AbortsWith P) result → (next result).Yields P shape) →
    (routine next).Yields P shape

theorem Keeps.bind {f : α → Routine β} (h : routine.Keeps P) (hf : ∀ a, (f a).Keeps P) :
    (routine >>= f).Keeps P := by
  refine fun shape next hnext => h shape _ fun result hresult => ?_
  cases result with
  | error interrupt => exact hnext _ (fails_error (hresult interrupt rfl))
  | ok a => exact hf a shape next hnext

/-- What a script yields is what its last part does. -/
theorem Keeps.bind_script {f : α → Routine Value} (h : routine.Keeps P)
    (hf : ∀ a, (f a).script.Yields P shape) : (routine >>= f).script.Yields P shape := by
  refine h shape _ fun result hresult => ?_
  cases result with
  | error interrupt => exact .done nofun (fails_error (hresult interrupt rfl))
  | ok a => exact hf a

theorem Keeps.script {routine : Routine Value} (h : routine.Keeps P) : routine.script.Yields P .any :=
  h .any _ fun result hresult => .done (.any result) hresult

theorem yields_pure {value : Value} (h : shape.admits value.shape) :
    (pure value : Routine Value).script.Yields P shape := .done (.ok h) (fails_ok value)

theorem keeps_ofExcept {result : Except Failure α} (h : Fails P result) :
    (ofExcept result).Keeps P := by
  intro shape next hnext
  cases result with
  | error failure =>
    exact hnext _ (fails_error (Interrupt.abortsWith_ofFailure (h failure rfl)))
  | ok a => exact hnext _ (fails_ok a)

/-- What comes after a function that was read matters only if there is one. -/
theorem ofExcept_bind_yields {result : Except Failure α} {f : α → Routine Value} (h : Fails P result)
    (hf : ∀ a, result = .ok a → (f a).script.Yields P shape) :
    (ofExcept result >>= f).script.Yields P shape := by
  cases result with
  | error failure =>
    exact .done nofun (fails_error (Interrupt.abortsWith_ofFailure (h failure rfl)))
  | ok a => exact hf a rfl

theorem keeps_call {script : (Except Failure α → Script) → Script}
    (h : ∀ shape next, (∀ reply, Fails P reply → (next reply).Yields P shape) →
      (script next).Yields P shape) : (call script).Keeps P :=
  fun shape _ hnext => h shape _ fun _ hreply => keeps_ofExcept hreply shape _ hnext

theorem keeps_ask {request : Request} (h : request ≠ .settings) : (ask request).Keeps P :=
  fun _ _ hnext => .ask h fun reply _ => hnext _ (fails_ok reply)

theorem keeps_read (value : Value) : (read value).Keeps P :=
  keeps_call fun _ _ hnext => .ask nofun fun reply hreply => hnext reply hreply

theorem keeps_sample (id : SignalId) : (sample id).Keeps P :=
  keeps_call fun _ _ hnext => .ask nofun fun reply hreply => hnext reply hreply

theorem keeps_set (cell : SignalId) (value : Value) : (set cell value).Keeps P :=
  keeps_call fun _ _ hnext => .set hnext

theorem keeps_merge (left right : SourceId) : (merge left right).Keeps P :=
  keeps_call fun _ _ hnext => .ask nofun fun reply hreply => hnext reply hreply

theorem keeps_property (id : ElementId) (name : String) : (property id name).Keeps P :=
  keeps_call fun _ _ hnext => .ask nofun fun reply hreply => hnext reply hreply

theorem keeps_setProperty (id : ElementId) (name : String) (value : Value) :
    (setProperty id name value).Keeps P :=
  keeps_call fun _ _ hnext => .ask nofun fun reply hreply => hnext reply hreply

theorem keeps_run {program : Program} (hprogram : program.Keeps) : (run program).Keeps P :=
  keeps_call fun _ _ hnext => .run hprogram hnext

theorem keeps_watch (input : Value) {effect : Value → Routine Value}
    (heffect : ∀ (P : Failure → Prop) value, (effect value).Keeps P) : (watch input effect).Keeps P :=
  fun _ _ hnext => .watch (fun value => (heffect _ value).script) (fun value => (heffect P value).script)
    hnext

theorem keeps_fold (source : SourceId) (initial : Value) {reducer : Value → Value → Routine Value}
    (hreducer : ∀ current payload, (reducer current payload).Keeps fun _ => True) :
    (fold source initial reducer).Keeps P :=
  keeps_call fun _ _ hnext => .fold (fun current payload => (hreducer current payload).script) hnext

theorem keeps_constantOn (source : SourceId) (value : Value) : (constantOn source value).Keeps P :=
  keeps_call fun _ _ hnext => .fold (fun _ _ => .done (.any _) (fails_ok _)) hnext

theorem keeps_foldM (source : SourceId) {initial : Program} (hinitial : initial.Keeps)
    {reducer : Value → Value → Program} (hreducer : ∀ current payload, (reducer current payload).Keeps) :
    (foldM source initial reducer).Keeps P := by
  refine keeps_call fun _ _ hnext => .ask nofun fun name hname => ?_
  cases name with
  | error failure => exact hnext _ (fails_error (hname failure rfl))
  | ok _ =>
    refine .react hinitial fun seed hseed => ?_
    cases seed with
    | error failure => exact hnext _ (fails_error (hseed failure rfl))
    | ok value => exact .foldProgram hreducer hnext

theorem keeps_react {program : Program} (hprogram : program.Keeps) : (react program).Keeps P :=
  keeps_call fun _ _ hnext => .react hprogram hnext

theorem keeps_listen (source : SourceId) {listener : Value → Routine Value}
    (hlistener : ∀ payload, (listener payload).Keeps fun _ => True) : (listen source listener).Keeps P :=
  keeps_call fun _ _ hnext => .listen (fun payload => (hlistener payload).script) hnext

theorem yields_derive (operands : List Value) {compute : List Value → Routine Value}
    (hcompute : ∀ inputs, (compute inputs).Keeps fun _ => True) :
    (derive operands compute).script.Yields (fun _ => True) .any :=
  .derive (fun inputs => (hcompute inputs).script) fun _ => .done (.any _) fun _ _ _ _ => trivial

end Routine

namespace Catalog

open Routine

/-! ## Instructions with effects -/

section

variable {P : Failure → Prop} {i : Instruction}

theorem Log.handleLog_yields (h : Signature.Declares ⟨"debug.log", ["message"], .unit⟩ i)
    (hreads : i.Reads P) : (Log.handleLog i).Yields P .unit := by
  refine Keeps.bind_script (keeps_ofExcept (h.fails_value (by decide) hreads)) fun message => ?_
  refine Keeps.bind_script (keeps_watch _ fun P current => ?_) fun _ => yields_pure rfl
  exact Keeps.bind (keeps_ask nofun) fun _ _ _ hnext => hnext _ (fails_ok _)

namespace Elements

theorem handleGetElementById_yields
    (h : Signature.Declares ⟨"dom.get_element_by_id", ["id"], .record⟩ i) (hreads : i.Reads P) :
    (handleGetElementById i).Yields P .record := by
  refine Keeps.bind_script (keeps_ofExcept (h.fails_read (by decide) hreads _ _)) fun domId => ?_
  refine Keeps.bind_script (keeps_ask nofun) fun found => yields_pure ?_
  unfold outcome
  split <;> rfl

theorem handleGetProperty_yields
    (h : Signature.Declares ⟨"dom.get_property", ["prop", "target"], .any⟩ i) (hreads : i.Reads P) :
    (handleGetProperty i).Yields P .any := by
  refine Keeps.bind_script (keeps_ofExcept (h.fails_read (by decide) hreads _ _)) fun prop => ?_
  refine Keeps.bind_script (keeps_ofExcept (h.fails_read (by decide) hreads _ _)) fun target => ?_
  exact (keeps_property target prop).script

theorem handleSetProperty_yields
    (h : Signature.Declares ⟨"dom.set_property", ["prop", "value", "target"], .unit⟩ i)
    (hreads : i.Reads P) : (handleSetProperty i).Yields P .unit := by
  refine Keeps.bind_script (keeps_ofExcept (h.fails_read (by decide) hreads _ _)) fun prop => ?_
  refine Keeps.bind_script (keeps_ofExcept (h.fails_read (by decide) hreads _ _)) fun target => ?_
  refine Keeps.bind_script (keeps_ofExcept (h.fails_value (by decide) hreads)) fun value => ?_
  refine Keeps.bind_script (keeps_watch _ fun P current => ?_) fun _ => yields_pure rfl
  exact Keeps.bind (keeps_setProperty _ _ _) fun _ _ _ hnext => hnext _ (fails_ok _)

end Elements

namespace Signals

theorem handleCell_yields (h : Signature.Declares ⟨"signal.cell", ["initial"], .signal⟩ i)
    (hreads : i.Reads P) : (handleCell i).Yields P .signal := by
  refine Keeps.bind_script (keeps_ofExcept (h.fails_value (by decide) hreads)) fun initial => ?_
  refine Keeps.bind_script (keeps_read _) fun value => ?_
  exact Keeps.bind_script (keeps_ask nofun) fun id => yields_pure rfl

theorem handleSample_yields (h : Signature.Declares ⟨"signal.sample", ["signal"], .any⟩ i)
    (hreads : i.Reads P) : (handleSample i).Yields P .any := by
  refine Keeps.bind_script (keeps_ofExcept (h.fails_value (by decide) hreads)) fun value => ?_
  exact (keeps_read value).script

theorem handleSet_yields (h : Signature.Declares ⟨"signal.set", ["signal", "value"], .unit⟩ i)
    (hreads : i.Reads P) : (handleSet i).Yields P .unit := by
  refine Keeps.bind_script (keeps_ofExcept (h.fails_read (by decide) hreads _ _)) fun target => ?_
  refine Keeps.bind_script (keeps_ofExcept (h.fails_value (by decide) hreads)) fun value => ?_
  refine Keeps.bind_script (keeps_read _) fun plain => ?_
  exact Keeps.bind_script (keeps_set _ _) fun _ => yields_pure rfl

theorem handleModify_yields (hi : i.Performs Forms)
    (h : Signature.Declares ⟨"signal.modify", ["signal", "update"], .unit⟩ i) (hreads : i.Reads P) :
    (handleModify i).Yields P .unit := by
  refine Keeps.bind_script (keeps_ofExcept (h.fails_read (by decide) hreads _ _)) fun target => ?_
  refine ofExcept_bind_yields (h.fails_function (by decide) hreads) fun update hupdate => ?_
  refine Keeps.bind_script (keeps_sample _) fun current => ?_
  refine Keeps.bind_script (keeps_run (hi.function hupdate [current])) fun next => ?_
  exact Keeps.bind_script (keeps_set _ _) fun _ => yields_pure rfl

end Signals

namespace Events

theorem handleOn_yields (h : Signature.Declares ⟨"event.on", ["event", "target"], .source⟩ i)
    (hreads : i.Reads P) : (handleOn i).Yields P .source := by
  refine Keeps.bind_script (keeps_ofExcept (h.fails_read (by decide) hreads _ _)) fun event => ?_
  refine Keeps.bind_script (keeps_ofExcept (h.fails_read (by decide) hreads _ _)) fun target => ?_
  exact Keeps.bind_script (keeps_ask nofun) fun source => yields_pure rfl

theorem handleSource_yields (h : Signature.Declares ⟨"event.source", ["name"], .source⟩ i)
    (hreads : i.Reads P) : (handleSource i).Yields P .source := by
  refine Keeps.bind_script (keeps_ofExcept (h.fails_value (by decide) hreads)) fun name => ?_
  exact Keeps.bind_script (keeps_ask nofun) fun source => yields_pure rfl

/-- The program of a pure reducer runs on its own. -/
theorem keeps_runPure {program : Program} (hprogram : program.Keeps) :
    (runPure program).Keeps fun _ => True :=
  fun _ _ hnext => .runWith forms_fills hprogram
    (fun _ _ => .done nofun fun _ _ _ _ => trivial) fun _ =>
      keeps_ofExcept (fun _ _ => trivial) _ _ hnext

theorem handleFold_yields (hi : i.Performs Forms)
    (h : Signature.Declares ⟨"event.fold", ["source", "initial", "reducer"], .signal⟩ i)
    (hreads : i.Reads P) : (handleFold i).Yields P .signal := by
  refine Keeps.bind_script (keeps_ofExcept (h.fails_read (by decide) hreads _ _)) fun source => ?_
  refine Keeps.bind_script (keeps_ofExcept (h.fails_value (by decide) hreads)) fun initial => ?_
  refine Keeps.bind_script (keeps_read _) fun value => ?_
  refine ofExcept_bind_yields (h.fails_function (by decide) hreads) fun reducer hreducer => ?_
  refine Keeps.bind_script (keeps_fold _ _ fun state event => ?_) fun id => yields_pure rfl
  exact keeps_runPure (hi.function hreducer _)

theorem handleFoldM_yields (hi : i.Performs Forms)
    (h : Signature.Declares ⟨"event.fold_m", ["source", "initial", "reducer"], .signal⟩ i)
    (hreads : i.Reads P) : (handleFoldM i).Yields P .signal := by
  refine Keeps.bind_script (keeps_ofExcept (h.fails_read (by decide) hreads _ _)) fun source => ?_
  refine Keeps.bind_script (keeps_ofExcept (h.fails_value (by decide) hreads)) fun initial => ?_
  refine Keeps.bind_script (keeps_read _) fun value => ?_
  refine ofExcept_bind_yields (h.fails_function (by decide) hreads) fun reducer hreducer => ?_
  refine Keeps.bind_script (keeps_foldM _ (.pure value) fun state event => ?_) fun id =>
    yields_pure rfl
  exact hi.function hreducer _

theorem handleConstantOn_yields
    (h : Signature.Declares ⟨"event.constant_on", ["source", "value"], .signal⟩ i)
    (hreads : i.Reads P) : (handleConstantOn i).Yields P .signal := by
  refine Keeps.bind_script (keeps_ofExcept (h.fails_read (by decide) hreads _ _)) fun source => ?_
  refine Keeps.bind_script (keeps_ofExcept (h.fails_value (by decide) hreads)) fun value => ?_
  refine Keeps.bind_script (keeps_read _) fun plain => ?_
  exact Keeps.bind_script (keeps_constantOn _ _) fun id => yields_pure rfl

theorem handleListen_yields (hi : i.Performs Forms)
    (h : Signature.Declares ⟨"event.listen", ["source", "handler"], .unit⟩ i) (hreads : i.Reads P) :
    (handleListen i).Yields P .unit := by
  refine Keeps.bind_script (keeps_ofExcept (h.fails_read (by decide) hreads _ _)) fun source => ?_
  refine ofExcept_bind_yields (h.fails_function (by decide) hreads) fun handler hhandler => ?_
  refine Keeps.bind_script (keeps_listen _ fun payload => ?_) fun _ => yields_pure rfl
  exact keeps_react (hi.function hhandler [payload])

theorem handleMerge_yields (h : Signature.Declares ⟨"event.merge", ["left", "right"], .source⟩ i)
    (hreads : i.Reads P) : (handleMerge i).Yields P .source := by
  refine Keeps.bind_script (keeps_ofExcept (h.fails_read (by decide) hreads _ _)) fun left => ?_
  refine Keeps.bind_script (keeps_ofExcept (h.fails_read (by decide) hreads _ _)) fun right => ?_
  exact Keeps.bind_script (keeps_merge _ _) fun source => yields_pure rfl

end Events

variable {s : Signature} {formatters : Formatters} {handler : Handler}

/-- Each tag of the catalog has one handler. -/
theorem handler_eq {other : Handler} (hhandler : (s.tag, handler) ∈ handlers formatters)
    (hother : (s.tag, other) ∈ handlers formatters) : handler = other :=
  congrArg Prod.snd (List.inj_on_of_nodup_map (handlers_nodup formatters) hhandler hother rfl)

/-- The handler of an instruction with effects yields what the instruction declares, and finds all that
it asks for. -/
theorem yields_of_effect (hs : s ∈ effectSignatures)
    (hhandler : (s.tag, handler) ∈ handlers formatters) (hi : i.Performs Forms) (h : s.Declares i)
    (hreads : i.Reads P) : (handler i).Yields P s.result := by
  have hevents : Events.bundle.handlers ⊆ handlers formatters :=
    bundle_subset_handlers (by simp [bundles])
  have hsignals : Signals.bundle.handlers ⊆ handlers formatters :=
    bundle_subset_handlers (by simp [bundles])
  have helements : Elements.bundle.handlers ⊆ handlers formatters :=
    bundle_subset_handlers (by simp [bundles])
  have hlog : Log.bundle.handlers ⊆ handlers formatters :=
    bundle_subset_handlers (by simp [bundles])
  simp only [effectSignatures, List.mem_cons, List.not_mem_nil, or_false] at hs
  rcases hs with rfl | rfl | rfl | rfl | rfl | rfl | rfl | rfl | rfl | rfl | rfl | rfl | rfl | rfl |
    rfl
  · rw [handler_eq hhandler (hlog (List.mem_of_getElem? (i := 0) rfl))]
    exact Log.handleLog_yields h hreads
  · rw [handler_eq hhandler (helements (List.mem_of_getElem? (i := 0) rfl))]
    exact Elements.handleGetElementById_yields h hreads
  · rw [handler_eq hhandler (helements (List.mem_of_getElem? (i := 1) rfl))]
    exact Elements.handleGetProperty_yields h hreads
  · rw [handler_eq hhandler (helements (List.mem_of_getElem? (i := 2) rfl))]
    exact Elements.handleSetProperty_yields h hreads
  · rw [handler_eq hhandler (hsignals (List.mem_of_getElem? (i := 0) rfl))]
    exact Signals.handleCell_yields h hreads
  · rw [handler_eq hhandler (hsignals (List.mem_of_getElem? (i := 1) rfl))]
    exact Signals.handleSample_yields h hreads
  · rw [handler_eq hhandler (hsignals (List.mem_of_getElem? (i := 2) rfl))]
    exact Signals.handleSet_yields h hreads
  · rw [handler_eq hhandler (hsignals (List.mem_of_getElem? (i := 3) rfl))]
    exact Signals.handleModify_yields hi h hreads
  · rw [handler_eq hhandler (hevents (List.mem_of_getElem? (i := 0) rfl))]
    exact Events.handleOn_yields h hreads
  · rw [handler_eq hhandler (hevents (List.mem_of_getElem? (i := 1) rfl))]
    exact Events.handleSource_yields h hreads
  · rw [handler_eq hhandler (hevents (List.mem_of_getElem? (i := 2) rfl))]
    exact Events.handleFold_yields hi h hreads
  · rw [handler_eq hhandler (hevents (List.mem_of_getElem? (i := 3) rfl))]
    exact Events.handleFoldM_yields hi h hreads
  · rw [handler_eq hhandler (hevents (List.mem_of_getElem? (i := 4) rfl))]
    exact Events.handleConstantOn_yields h hreads
  · rw [handler_eq hhandler (hevents (List.mem_of_getElem? (i := 5) rfl))]
    exact Events.handleListen_yields hi h hreads
  · rw [handler_eq hhandler (hevents (List.mem_of_getElem? (i := 6) rfl))]
    exact Events.handleMerge_yields h hreads

end

/-! ## Pure instructions -/

section

variable {s : Signature} {formatters : Formatters} {handler : Handler}

theorem keeps_total {α : Type} (result : Except Interrupt α) :
    Keeps (fun _ => True) fun next => next result :=
  fun _ _ hnext => hnext _ fun _ _ _ _ => trivial

theorem binaryHandler_yields (first second : String)
    (compute : Tag → List Value → Except Interrupt Value) (i : Instruction) :
    (binaryHandler first second compute i).Yields (fun _ => True) .any := by
  refine Keeps.bind_script (keeps_ofExcept fun _ _ => trivial) fun a => ?_
  refine Keeps.bind_script (keeps_ofExcept fun _ _ => trivial) fun b => ?_
  exact yields_derive _ fun inputs => keeps_total _

theorem Logic.handler_yields (rule : Rule) (i : Instruction) :
    (Logic.handler rule i).Yields (fun _ => True) .any := by
  refine Keeps.bind_script (keeps_ofExcept fun _ _ => trivial) fun operands => ?_
  exact yields_derive _ fun inputs => keeps_ofExcept fun _ _ => trivial

theorem Show.reportMissing_keeps {P : Failure → Prop} (shapes : List Shape) :
    (Show.reportMissing shapes).Keeps P := by
  induction shapes with
  | nil => exact fun _ _ hnext => hnext _ (fails_ok _)
  | cons shape rest ih => exact Keeps.bind (keeps_ask nofun) fun _ => ih

theorem Show.bundle_yields (i : Instruction) : ∀ entry ∈ (Show.bundle formatters).handlers,
    (entry.2 i).Yields (fun _ => True) .any := by
  simp only [Show.bundle, List.forall_mem_singleton]
  refine Keeps.bind_script (keeps_ofExcept fun _ _ => trivial) fun value => ?_
  refine yields_derive _ fun inputs => Keeps.bind (keeps_ofExcept fun _ _ => trivial) fun value => ?_
  exact Keeps.bind (Show.reportMissing_keeps _) fun _ => keeps_total _

/-- The handler of a pure instruction keeps to the catalog. -/
theorem yields_of_pure (hs : s ∈ pureSignatures)
    (hhandler : (s.tag, handler) ∈ handlers formatters) (i : Instruction) :
    (handler i).Yields (fun _ => True) .any := by
  have hbundle : ∃ bundle ∈ bundles formatters, (s.tag, handler) ∈ bundle.handlers :=
    List.mem_flatMap.1 hhandler
  obtain ⟨bundle, hbundle, hmem⟩ := hbundle
  have hother (effects : Bundle) (hdisjoint : ∀ s ∈ pureSignatures,
      s.tag ∉ effects.handlers.map (·.1)) : (s.tag, handler) ∉ effects.handlers :=
    fun hin => hdisjoint s hs (List.mem_map_of_mem hin)
  simp only [bundles, List.mem_cons, List.not_mem_nil, or_false] at hbundle
  rcases hbundle with rfl | rfl | rfl | rfl | rfl | rfl | rfl | rfl | rfl
  · exact absurd hmem (hother _ (by decide))
  · exact absurd hmem (hother _ (by decide))
  · simp only [Arithmetic.bundle, List.mem_cons, List.not_mem_nil, or_false, Prod.mk.injEq] at hmem
    rcases hmem with ⟨-, rfl⟩ | ⟨-, rfl⟩ | ⟨-, rfl⟩ | ⟨-, rfl⟩
    all_goals exact binaryHandler_yields _ _ _ i
  · simp only [Texts.bundle, List.mem_singleton, Prod.mk.injEq] at hmem
    obtain ⟨-, rfl⟩ := hmem
    exact binaryHandler_yields _ _ _ i
  · simp only [Lists.bundle, List.mem_cons, List.not_mem_nil, or_false, Prod.mk.injEq] at hmem
    rcases hmem with ⟨-, rfl⟩ | ⟨-, rfl⟩
    all_goals exact binaryHandler_yields _ _ _ i
  · simp only [Logic.bundle, List.mem_cons, List.not_mem_nil, or_false, Prod.mk.injEq] at hmem
    rcases hmem with ⟨-, rfl⟩ | ⟨-, rfl⟩ | ⟨-, rfl⟩ | ⟨-, rfl⟩ | ⟨-, rfl⟩ | ⟨-, rfl⟩ | ⟨-, rfl⟩ |
      ⟨-, rfl⟩
    all_goals exact Logic.handler_yields _ i
  · exact Show.bundle_yields i _ hmem
  · exact absurd hmem (hother _ (by decide))
  · exact absurd hmem (hother _ (by decide))

end

end Catalog

namespace Session

variable {session : Session} {a b : Hooks} {w : World} {i : Instruction} {s : Signature}
  {P : Failure → Prop}

/-! ## First values -/

/-- The value passes a check for the shape. -/
def Passes (shape : Shape) (value : Value) (w : World) : Prop :=
  shape.admits value.shape ∨ ∃ found, currentShape w value = .ok found ∧ shape.admits found

/-- What is derived from the operands of a pure instruction passes the check: it is computed now, or it
is a signal that has just got its value. -/
theorem derive_passes {handler : Handler} {compute : List Value → Script}
    {f : List Value → Except Interrupt Value} (hpure : s.IsPure handler compute f)
    {values : List Value} (hlength : values.length = s.names.length) (w : World) :
    (Exec.derive values (.derived values compute) fun inputs =>
      (compute inputs).exec session a).Leaves
      (fun outcome w' => Fails (Interrupt.AbortsWith Failure.IsOrdinary) outcome ∧
        ∀ value, outcome = .ok value → Passes s.result value w') (fun _ => True) w := by
  have hnodup := Value.nodup_dependencies values
  unfold Exec.derive
  revert hnodup
  cases Value.dependencies values with
  | nil =>
    intro _
    obtain ⟨journal, hcomputed⟩ := hpure.computes session values a w
    exact leaves_of_eq_some hcomputed ⟨hpure.fails values hlength,
      fun value hvalue => .inl (hpure.covers values value hvalue)⟩
  | cons first rest =>
    intro hnodup
    have hordinary {failure : Failure} (h : failure.IsOrdinary) :
        Fails (Interrupt.AbortsWith Failure.IsOrdinary)
          (.error (.ofFailure failure) : Except Interrupt Value) :=
      fails_error (Interrupt.abortsWith_ofFailure h)
    refine leaves_bind.2 (create_leaves (fun failure hfailed => ?_) fun id graph hinsert => ?_)
    · exact leaves_pure.2 ⟨hordinary (w.graph.fails_insert _ _ failure hfailed), nofun⟩
    obtain ⟨rank, -, hg⟩ := Graph.grows_insert hnodup hinsert
    refine evaluateOn_cases (fun failure hfailed => ?_) fun inputs hread => ?_
    · refine finishFirst_leaves (fun hgone => ?_) nofun fun interrupt removed graph' hresult _ => ?_
      · cases hgone.symm.trans hg.node?_self
      · obtain rfl := Except.error.inj hresult
        exact leaves_pure.2 ⟨hordinary (graph.fails_inputsOf _ failure hfailed), nofun⟩
    have hinputs : inputs.length = s.names.length :=
      (Graph.forall₂_of_mapM_resolve hread).length_eq.symm.trans hlength
    obtain ⟨journal, hcomputed⟩ :=
      hpure.computes session inputs a (World.begin { w with graph } (.evaluating id inputs))
    refine leaves_of_eq_some hcomputed (finishFirst_leaves (fun hgone => ?_)
      (fun value graph' hresult hstore => ?_) fun interrupt removed graph' hresult _ => ?_)
    · cases hgone.symm.trans hg.node?_self
    · refine leaves_bind.2 (leaves_modify.2 (leaves_pure.2 ⟨fails_ok _, fun signal hsignal => ?_⟩))
      obtain rfl := Except.ok.inj hsignal
      refine .inr ⟨value.shape, ?_, hpure.covers inputs value hresult⟩
      change (graph'.value id).map Value.shape = .ok value.shape
      rw [Graph.value_of_settle hstore]
      rfl
    · exact leaves_pure.2 ⟨fails_error (hpure.fails inputs hinputs interrupt hresult), nofun⟩

/-! ## Dispatching -/

/-- A handler that does the same with and without checks, and whose result passes the check, is
dispatched to the same end. -/
theorem alike_dispatch_of_handler {handler : Handler} (hfound : Keyed.get? i.tag session.handlers =
    some handler) (hhandler : Alike (fun r v => Fails (Interrupt.AbortsWith P) r ∧
      ∀ value, r = .ok value → Passes i.result value v)
      ((handler i).exec (session.checking true) a) ((handler i).exec (session.checking false) b) w) :
    Alike (fun r _ => Fails (Interrupt.AbortsWith P) r) (dispatch (session.checking true) a i)
      (dispatch (session.checking false) b i) w := by
  have hfound' (checks : Bool) : Keyed.get? i.tag (session.checking checks).handlers = some handler :=
    hfound
  unfold dispatch
  rw [hfound' true, hfound' false]
  refine hhandler.bind fun result v hresult hv => ?_
  obtain ⟨hfails, hpasses⟩ := hresult
  cases result with
  | error interrupt => exact alike_pure hv (fails_error (hfails interrupt rfl))
  | ok value =>
    have hchecked : (checkShape i value).Leaves (fun r v' => r = .ok value ∧ v' = v)
        (fun _ => False) v := checkShape_leaves (hpasses value rfl)
    obtain ⟨_, _, hran, rfl, rfl⟩ := hchecked.exists
    exact ⟨hran, leaves_of_eq_some hran ⟨fails_ok _, hv⟩⟩

/-- An instruction of the catalog is dispatched to the same end with and without checks. -/
theorem HandlesCatalog.alike_dispatch (hcatalog : session.HandlesCatalog) (hhooks : a.Agree b)
    (hi : i.Performs Catalog.Forms) (hreads : i.Reads P) (hw : w.Keeps) :
    Alike (fun r _ => Fails (Interrupt.AbortsWith P) r) (dispatch (session.checking true) a i)
      (dispatch (session.checking false) b i) w := by
  obtain ⟨s, hs, hdeclares⟩ := hi.self
  cases hfound : Keyed.get? i.tag session.handlers with
  | none =>
    have hfound' (checks : Bool) : Keyed.get? i.tag (session.checking checks).handlers = none := hfound
    unfold dispatch
    rw [hfound' true, hfound' false]
    refine alike_pure hw (fails_error fun failure hfailed => ?_)
    obtain rfl := Interrupt.aborted.inj hfailed
    exact hreads.ordinary _ trivial
  | some handler =>
    refine alike_dispatch_of_handler hfound ?_
    have hnames : ∀ s ∈ Catalog.signatures, Catalog.Names s.tag := by decide
    obtain ⟨formatters, hhandler⟩ := hcatalog i.tag handler (hdeclares.tag_eq ▸ hnames s hs) hfound
    rw [hdeclares.tag_eq] at hhandler
    rw [hdeclares.result_eq]
    rcases List.mem_append.1 hs with hpure | heffect
    · -- What a pure instruction fails with and what shape it gives is seen in its computation.
      have hyields := Catalog.yields_of_pure hpure hhandler i
      refine Alike.mono ((hyields.alike hhooks (fun _ _ => trivial) hw).and_leaves ?_) fun _ _ h => h.2
      rcases Catalog.handled_of_pure hpure hdeclares hhandler with
        ⟨hpending, interrupt, hrefused⟩ | ⟨values, hlength, rfl⟩
      · rw [hrefused]
        have hall := hreads.resolved.resolve_left hpending
        exact leaves_pure.2 ⟨fails_error fun failure _ => hall failure, nofun⟩
      · obtain ⟨compute, f, hispure⟩ := Catalog.exists_isPure hpure hhandler
        rw [hispure.derives values hlength]
        refine leaves_bind.2 ((derive_passes hispure hlength w).mono fun outcome v houtcome => ?_)
        refine leaves_pure.2 ⟨houtcome.1.mono fun interrupt h failure hfailed => ?_, houtcome.2⟩
        exact hreads.ordinary failure (h failure hfailed)
    · have hyields := Catalog.yields_of_effect heffect hhandler hi hdeclares hreads
      refine (hyields.alike hhooks hreads.ordinary hw).mono fun r v h => ⟨h.2, fun value hvalue => ?_⟩
      exact .inl (h.1 value hvalue)

/-- At every level, what is done elsewhere is the same with and without checks. -/
theorem HandlesCatalog.hooksAt_agree (hcatalog : session.HandlesCatalog) (level : Nat) :
    ((session.checking true).hooksAt level).Agree ((session.checking false).hooksAt level) := by
  induction level with
  | zero => exact ⟨fun _ _ hw => alike_failure hw, fun hw => alike_failure hw⟩
  | succ n ih =>
    exact ⟨fun hi hreads hw => hcatalog.alike_dispatch ih hi hreads hw,
      fun hw => alike_settle session ih n hw _⟩

/-! ## Programs of the catalog -/

/-- A script that keeps to the catalog does the same with and without checks of results, from any state
that keeps to the catalog, and the state that it leaves keeps to the catalog again. -/
theorem HandlesCatalog.advance_agree (hcatalog : session.HandlesCatalog) {script : Script}
    (hordinary : ∀ failure, Failure.IsOrdinary failure → P failure) (hscript : script.Yields P .any)
    (hw : w.Keeps) (level : Nat) :
    (session.checking true).advance level script w = (session.checking false).advance level script w ∧
      ((session.checking true).advance level script w).2.Keeps ∧
      ∀ result, ((session.checking true).advance level script w).1 = some result →
        Fails (Interrupt.AbortsWith P) result := by
  obtain ⟨hsame, hleaves⟩ := hscript.alike (hcatalog.hooksAt_agree level) hordinary hw
  refine ⟨hsame, (hleaves.imp (fun _ _ h => h.2) fun _ h => h).left, fun result hresult => ?_⟩
  exact (hleaves.of_eq_some (Prod.ext hresult rfl)).1.2

/-- A program that performs instructions which the catalog builds does the same with and without
checks of results, from any state whose nodes and subscribers keep to the catalog: it ends with the
same result, or is cut off, and leaves the same state, whose nodes and subscribers keep to the catalog
again. No instruction is blamed for a failure. -/
theorem HandlesCatalog.checks_neutral (hcatalog : session.HandlesCatalog) {program : Program}
    (hprogram : program.Performs fun i => Catalog.Builds (.perform i)) (hw : w.Keeps) (level : Nat) :
    (session.checking true).advance level (Routine.run program).script w =
        (session.checking false).advance level (Routine.run program).script w ∧
      ((session.checking true).advance level (Routine.run program).script w).2.Keeps ∧
      ∀ result, ((session.checking true).advance level (Routine.run program).script w).1 = some result →
        Fails (Interrupt.AbortsWith Failure.IsOrdinary) result := by
  have hkeeps : program.Keeps := hprogram.mono fun _ hbuilt => hbuilt.forms
  exact hcatalog.advance_agree (fun _ h => h) (Routine.keeps_run hkeeps).script hw level

/-- The catalog, to which the host has added an instruction whose results are not what it declares. -/
private def lying : Session where
  handlers := ("host.lie", fun _ => .done (.ok (.text "x"))) :: Catalog.handlers .default

private theorem lying_handlesCatalog : lying.HandlesCatalog := by
  intro tag handler hnames hfound
  have hmem : (tag, handler) ∈ lying.handlers := Keyed.mem_of_get?_eq_some hfound
  rcases List.mem_cons.1 hmem with hlie | hcatalog
  · obtain ⟨rfl, -⟩ := Prod.mk.inj hlie
    exact absurd hnames (by decide)
  · exact ⟨.default, hcatalog⟩

private theorem keeps_start : World.Keeps {} where
  nodes _ _ hnode := by cases hnode
  subscribers subscriber hs := absurd hs (Hub.not_subscribed_empty subscriber)

/-- A program that is run without a limit ends as its evaluation does. -/
private theorem runProgram_result {settings : Settings} (hlimit : settings.stepLimit = none)
    (htrace : settings.traceSteps = false)
    (interpreter : Instruction → Exec (Except Interrupt Value)) (program : Program) (w : World) :
    (runProgram settings interpreter program w).1 =
      (program.eval interpreter w).1.map (·.mapError Interrupt.toFailure) := by
  have hinterpreter : announced settings interpreter = fun _ => interpreter := by
    funext step i
    unfold announced
    rw [htrace]
    rfl
  have hget : (get : Exec World) w = (some w, w) := rfl
  have hending := Program.run_eq_eval interpreter program w
  rcases hrun : program.run (fun _ => interpreter) none w with ⟨outcome, steps, last⟩
  rw [hrun] at hending
  unfold runProgram
  rw [bind_eq_of_eq_some hget, hinterpreter, hlimit, hrun, ← hending]
  cases outcome <;> rfl

/-- A script that runs a program ends as its evaluation does. -/
private theorem run_eval {level : Nat} {program : Program} {answer : Except Interrupt Value}
    (hlimit : session.settings.stepLimit = none) (htrace : session.settings.traceSteps = false)
    (h : (program.eval (dispatch session (session.hooksAt level)) w).1 = some answer) :
    (session.advance (level + 1) (Routine.run program).script w).1 =
      some ((answer.mapError Interrupt.toFailure).mapError .ofFailure) := by
  have hran := runProgram_result hlimit htrace (dispatch session (session.hooksAt level)) program w
  rw [h] at hran
  refine congrArg Prod.fst (bind_eq_of_eq_some (Prod.ext hran rfl)) |>.trans ?_
  cases answer with
  | error interrupt => rfl
  | ok value => rfl

/-- A cell. -/
private def creating : Instruction := ⟨"signal.cell", [("initial", .value (.bool false))], .signal⟩

/-- The negation of a value. -/
private def negating (value : Value) : Instruction := ⟨"logic.not", [("value", .value value)], .bool⟩

/-- A log of a value. -/
private def logging (value : Value) : Instruction := ⟨"debug.log", [("message", .value value)], .unit⟩

/-- A source. -/
private def offering : Instruction := ⟨"event.source", [("name", .value (.text "pings"))], .source⟩

/-- A listener that writes the payloads of a source into a cell. -/
private def listening (source cell : Value) : Instruction :=
  ⟨"event.listen", [("source", .value source), ("handler", .function fun args =>
    Catalog.Signals.set (.value cell) (.value (Catalog.Events.argument args 0)))], .unit⟩

/-- A cell, its negation, a log of the negation, and a source with a listener. -/
private def furnishing : Script :=
  .dispatch creating fun
  | .error interrupt => .done (.error interrupt)
  | .ok cell => .dispatch (negating cell) fun
    | .error interrupt => .done (.error interrupt)
    | .ok negated => .dispatch (logging negated) fun _ => .dispatch offering fun
      | .error interrupt => .done (.error interrupt)
      | .ok source => .dispatch (listening source cell) .done

private theorem furnishing_keeps : furnishing.Keeps := by
  have hdone (result : Except Interrupt Value) : (Script.done result).Keeps :=
    .done (.any result) fun _ _ _ _ => trivial
  have hvalues {i : Instruction} (hbuilt : Catalog.Builds (.perform i))
      (h : ∀ operand ∈ i.operands, ∃ value, operand.2 = .value value) :
      i.Performs Catalog.Forms := Instruction.Performs.of_values hbuilt.forms h
  have hlistening (source cell : Value) : (listening source cell).Performs Catalog.Forms := by
    have hsource : (Operand.value source).IsData := rfl
    have hbuilt : Catalog.Builds (.perform (listening source cell)) :=
      .listen hsource fun payload => Catalog.Signals.set (.value cell) (.value payload)
    refine .perform hbuilt.forms ?_ ?_
    · intro name p hp
      simp [listening] at hp
    · intro name f hf args
      obtain ⟨-, rfl⟩ : name = "handler" ∧ f = _ := by simpa [listening] using hf
      exact hvalues (.set rfl rfl) (by simp)
  refine .dispatch (hvalues (.cell rfl) (by simp [creating])) fun reply => ?_
  cases reply with
  | error interrupt => exact hdone _
  | ok cell =>
    refine .dispatch (hvalues (.not rfl) (by simp [negating])) fun reply => ?_
    cases reply with
    | error interrupt => exact hdone _
    | ok negated =>
      refine .dispatch (hvalues (.log rfl) (by simp [logging])) fun _ => ?_
      refine .dispatch (hvalues (.source rfl) (by simp [offering])) fun reply => ?_
      cases reply with
      | error interrupt => exact hdone _
      | ok source => exact .dispatch (hlistening source cell) hdone

private def furnished : World := ((lying.checking true).advance 1 furnishing {}).2

private theorem keeps_furnished : furnished.Keeps :=
  (lying_handlesCatalog.advance_agree (fun _ _ => trivial) furnishing_keeps keeps_start 1).2.1

/-- A program that sets the cell and negates its negation. -/
private def renegating : Program :=
  (Catalog.Signals.set (.value (.signal ⟨0⟩)) (.value (.bool true))).bind fun _ =>
  Catalog.Logic.not (.value (.signal ⟨1⟩))

/-- In a state with a derived signal, a watch and a listener a cell is set, whose change goes through
the signal and the watch, and one more signal is derived, whether results are checked or not. -/
theorem HandlesCatalog.checks_neutral_lying :
    lying.HandlesCatalog ∧ renegating.Performs (fun i => Catalog.Builds (.perform i)) ∧
      furnished.Keeps ∧
      (furnished.graph.node? ⟨1⟩).map (·.kind.label) = some "derived" ∧
      (furnished.graph.node? ⟨2⟩).map (·.kind.label) = some "watch" ∧
      furnished.hub.sources.toList.map (·.subscribers.length) = [1] ∧
      ((lying.checking true).advance 3 (Routine.run renegating).script furnished).1 =
        some (.ok (.signal ⟨3⟩)) ∧
      ((lying.checking false).advance 3 (Routine.run renegating).script furnished).1 =
        some (.ok (.signal ⟨3⟩)) := by
  have hprogram : renegating.Performs (fun i => Catalog.Builds (.perform i)) :=
    .bind (Instruction.Performs.of_values (.set rfl rfl) (by simp)) fun _ =>
      Instruction.Performs.of_values (.not rfl) (by simp)
  have hdone : (renegating.eval (dispatch (lying.checking true) (hooksAt (lying.checking true) 2))
      furnished).1 = some (.ok (.signal ⟨3⟩)) := by
    cbv
  have hchecked : ((lying.checking true).advance 3 (Routine.run renegating).script furnished).1 =
      some (.ok (.signal ⟨3⟩)) := run_eval rfl rfl hdone
  refine ⟨lying_handlesCatalog, hprogram, keeps_furnished, by cbv, by cbv, by cbv, hchecked, ?_⟩
  rw [← (lying_handlesCatalog.checks_neutral hprogram keeps_furnished 3).1]
  exact hchecked

/-- A cell, and a watch that performs the added instruction when the cell holds true. -/
private def trusting : Script :=
  .ask (.cell (.bool false)) fun (cell : SignalId) =>
  .watch (.signal cell) (fun value =>
    if value.holds then .dispatch ⟨"host.lie", [], .number⟩ .done else .done (.ok .unit))
    fun _ => .done (.ok .unit)

private def trusted : World := (advance lying 0 trusting {}).2

/-- An instruction that sets the cell. -/
private def setting : Instruction :=
  ⟨"signal.set", [("signal", .value (.signal ⟨0⟩)), ("value", .value (.bool true))], .unit⟩

/-- The check counts for instructions of the host too, which a program of the catalog may lead to: in a
state with a watch that performs such an instruction, setting a cell fails if results are checked, and
succeeds if they are not. -/
theorem checks_reach_stored_scripts : lying.HandlesCatalog ∧
    (∀ checks, Reachable (lying.checking checks) trusted) ∧
    (Program.perform setting).Performs (fun i => Catalog.Builds (.perform i)) ∧
    ((lying.checking true).advance 3 (Routine.run (.perform setting)).script trusted).1 =
      some (.error (.aborted (.propagation [.resultShape "host.lie" .number .text]))) ∧
    ((lying.checking false).advance 3 (Routine.run (.perform setting)).script trusted).1 =
      some (.ok .unit) := by
  refine ⟨lying_handlesCatalog, fun checks => ?_, ?_, ?_, ?_⟩
  · have hrun : execute (lying.checking checks) 0 trusting {} = some (.ok .unit, trusted) := rfl
    exact .run (.start .empty #[]) hrun
  · exact Instruction.Performs.of_values (.set rfl rfl) (by simp [setting])
  · have hfailed : ((Program.perform setting).eval
        (dispatch (lying.checking true) (hooksAt (lying.checking true) 2)) trusted).1 =
        some (.error (.aborted (.propagation [.resultShape "host.lie" .number .text]))) := by
      cbv
    exact run_eval rfl rfl hfailed
  · have hdone : ((Program.perform setting).eval
        (dispatch (lying.checking false) (hooksAt (lying.checking false) 2)) trusted).1 = some (.ok .unit) := by
      cbv
    exact run_eval rfl rfl hdone

end Session

end EffectGraph
