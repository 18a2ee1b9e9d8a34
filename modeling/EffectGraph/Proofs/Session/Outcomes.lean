import EffectGraph.Proofs.Program.Running
import EffectGraph.Proofs.Session.Stages

/-!
# What comes of an action

`Exec.Ends x w a w'` says that the action `x` ends with `a` when it starts in `w`, and that it leaves
`w'` behind, whatever has been noted before and is noted meanwhile. Notes are never looked at, so such
facts can be put together one after another. There is a lemma for each action of a session that says
what comes of it when nothing fails.
-/

namespace EffectGraph

open Exec World

/-! ## Notes -/

namespace World

/-- The states differ in what was noted only. -/
def Alike (w w' : World) : Prop := ∃ journal past, w' = { w with journal, past }

namespace Alike

variable {w w₁ w' : World}

theorem refl (w : World) : Alike w w := ⟨w.journal, w.past, rfl⟩

theorem trans (h : Alike w w₁) (h' : Alike w₁ w') : Alike w w' := by
  obtain ⟨journal, past, rfl⟩ := h
  obtain ⟨journal', past', rfl⟩ := h'
  exact ⟨journal', past', rfl⟩

end Alike

end World

namespace Exec

variable {α β : Type}

/-- Started in the state, whatever has been noted there, the action ends with the result and leaves
the other state but for what is noted. -/
def Ends (x : Exec α) (w : World) (a : α) (w' : World) : Prop :=
  ∀ v, w.Alike v → ∃ v', x v = (some a, v') ∧ w'.Alike v'

section

variable {x : Exec α} {f : α → Exec β} {w w₁ w' : World} {a : α} {b : β}

theorem ends_pure (a : α) (w : World) : (pure a : Exec α).Ends w a w := fun v hv => ⟨v, rfl, hv⟩

theorem Ends.bind (h : x.Ends w a w₁) (hnext : (f a).Ends w₁ b w') : (x >>= f).Ends w b w' := by
  intro v hv
  obtain ⟨v₁, hrun, hv₁⟩ := h v hv
  obtain ⟨v', hrun', hv'⟩ := hnext v₁ hv₁
  exact ⟨v', (bind_eq_of_eq_some hrun).trans hrun', hv'⟩

/-- What is done with the state does not depend on what has been noted. -/
theorem ends_get_bind {f : World → Exec β}
    (h : ∀ journal past, (f { w with journal, past }).Ends w b w') : (get >>= f).Ends w b w' := by
  rintro v ⟨journal, past, rfl⟩
  exact h journal past _ ⟨journal, past, rfl⟩

theorem ends_modifyGet {f : World → α × World}
    (h : ∀ journal past, (f { w with journal, past }).1 = a ∧
      w'.Alike (f { w with journal, past }).2) : (modifyGet f : Exec α).Ends w a w' := by
  rintro v ⟨journal, past, rfl⟩
  obtain ⟨rfl, halike⟩ := h journal past
  exact ⟨_, rfl, halike⟩

theorem ends_tryWorld {f : World → Except Failure (α × World)}
    (h : ∀ journal past, ∃ v', f { w with journal, past } = .ok (a, v') ∧ w'.Alike v') :
    (tryWorld f).Ends w (.ok a) w' := by
  rintro v ⟨journal, past, rfl⟩
  obtain ⟨v', heq, halike⟩ := h journal past
  refine ⟨v', ?_, halike⟩
  unfold tryWorld
  rw [heq]

end

/-! ## Noting -/

variable {w w₁ w' : World} {id : SignalId} {value : Value} {graph : Graph}

theorem ends_report (event : Event) (w : World) : (report event).Ends w () w := by
  rintro v ⟨journal, past, rfl⟩
  exact ⟨_, rfl, _, _, rfl⟩

theorem ends_begin (activity : Activity) (w : World) : (begin activity).Ends w () w := by
  rintro v ⟨journal, past, rfl⟩
  exact ⟨_, rfl, _, _, rfl⟩

/-! ## Nodes -/

theorem ends_settleNode (h : w.graph.settle id value = .ok graph) :
    (settleNode id value).Ends w (.ok ()) { w with graph } := by
  refine ends_tryWorld fun journal past => ⟨{ w with graph, journal, past }, ?_, _, _, rfl⟩
  dsimp only
  rw [h]
  rfl

theorem ends_insertNode {kind : NodeKind} {inputs : List SignalId}
    (h : w.graph.insert kind inputs = .ok (id, graph)) :
    (insertNode kind inputs).Ends w (.ok id) { w with graph } := by
  refine ends_tryWorld fun journal past => ⟨{ w with graph, journal, past }, ?_, _, _, rfl⟩
  dsimp only
  rw [h]
  rfl

theorem ends_write (h : w.graph.settle id value = .ok graph) :
    (write id value).Ends w (.ok ()) { w with graph } :=
  (ends_settleNode h).bind ((ends_begin _ _).bind (ends_pure _ _))

theorem ends_evaluateOn {kind : NodeKind} {inputs : List Value}
    {compute : List Value → Exec (Except Interrupt Value)} {result : Except Interrupt Value}
    (hinputs : w.graph.inputsOf kind = .ok inputs) (hcompute : (compute inputs).Ends w result w') :
    (evaluateOn id kind compute).Ends w result w' := by
  refine ends_get_bind fun journal past => ?_
  dsimp only
  rw [hinputs]
  exact (ends_begin _ _).bind hcompute

theorem ends_finishFirst (h : w.graph.settle id value = .ok graph) :
    (finishFirst id (.ok value)).Ends w (.ok ()) { w with graph } :=
  (ends_settleNode h).bind ((ends_pure _ _).bind (ends_pure _ _))

/-- A new node is evaluated on its inputs, and its value is stored. -/
theorem ends_create {kind : NodeKind} {inputs : List SignalId} {values : List Value}
    {compute : List Value → Exec (Except Interrupt Value)} {grown : Graph}
    (hinsert : w.graph.insert kind inputs = .ok (id, grown))
    (hinputs : grown.inputsOf kind = .ok values)
    (hcompute : (compute values).Ends { w with graph := grown } (.ok value) w₁)
    (hstore : w₁.graph.settle id value = .ok graph) :
    (create kind inputs compute).Ends w (.ok id) { w₁ with graph } := by
  refine (ends_insertNode hinsert).bind ?_
  refine (ends_evaluateOn (w := { w with graph := grown }) hinputs hcompute).bind ?_
  exact (ends_finishFirst hstore).bind (ends_pure _ _)

/-- A computation on operands with handles becomes a derived node. -/
theorem ends_derive {operands : List Value} {kind : NodeKind} {values : List Value}
    {compute : List Value → Exec (Except Interrupt Value)} {grown : Graph}
    (hreactive : Value.dependencies operands ≠ [])
    (hinsert : w.graph.insert kind (Value.dependencies operands) = .ok (id, grown))
    (hinputs : grown.inputsOf kind = .ok values)
    (hcompute : (compute values).Ends { w with graph := grown } (.ok value) w₁)
    (hstore : w₁.graph.settle id value = .ok graph) :
    (derive operands kind compute).Ends w (.ok (.signal id)) { w₁ with graph } := by
  have hcreate := ends_create hinsert hinputs hcompute hstore
  unfold derive
  split
  · rename_i hnone
    exact absurd hnone hreactive
  · exact hcreate.bind ((ends_report _ _).bind (ends_pure _ _))

theorem ends_effectOn {effect : Value → Exec (Except Interrupt Value)} {input : Value}
    {result : Value} (h : (effect input).Ends w (.ok result) w') :
    (effectOn effect [input]).Ends w (.ok .unit) w' :=
  h.bind (ends_pure _ _)

/-- An effect on an input with handles becomes a watch. -/
theorem ends_watch {input : Value} {kind : NodeKind} {values : Value}
    {effect : Value → Exec (Except Interrupt Value)} {grown : Graph} {result : Value}
    (hreactive : input.isReactive = true)
    (hinsert : w.graph.insert kind (input.collectSignals []) = .ok (id, grown))
    (hinputs : grown.inputsOf kind = .ok [values])
    (heffect : (effect values).Ends { w with graph := grown } (.ok result) w₁)
    (hstore : w₁.graph.settle id .unit = .ok graph) :
    (watch input kind effect).Ends w (.ok (some id)) { w₁ with graph } := by
  unfold watch
  rw [if_pos hreactive]
  exact (ends_create hinsert hinputs (ends_effectOn heffect) hstore).bind (ends_pure _ _)

/-! ## Sources -/

/-- A new cell is written by a subscriber of the source. -/
theorem ends_attach {source : SourceId} {initial : Value} {subscriber : SignalId → Subscriber}
    {event : SignalId → Event} {found : Source} {hub : Hub} (hfound : w.hub.get source = .ok found)
    (hsubscribe : w.hub.subscribe source (subscriber (w.graph.insertCell initial).1) = .ok hub) :
    (attach source initial subscriber event).Ends w (.ok (w.graph.insertCell initial).1)
      { w with graph := (w.graph.insertCell initial).2, hub } := by
  refine ends_get_bind fun journal past => ?_
  dsimp only
  rw [hfound]
  have hcell : (modifyGet (·.createCell initial) : Exec SignalId).Ends w
      (w.graph.insertCell initial).1 { w with graph := (w.graph.insertCell initial).2 } :=
    ends_modifyGet fun journal past => ⟨rfl, _, _, rfl⟩
  have hsubscribed : (subscribe source (subscriber (w.graph.insertCell initial).1)).Ends
      { w with graph := (w.graph.insertCell initial).2 } (.ok ())
      { w with graph := (w.graph.insertCell initial).2, hub } := by
    refine ends_tryWorld fun journal past => ⟨{ w with
      graph := (w.graph.insertCell initial).2, hub, journal, past }, ?_, _, _, rfl⟩
    dsimp only
    rw [hsubscribe]
    rfl
  exact hcell.bind (hsubscribed.bind ((ends_report _ _).bind (ends_pure _ _)))

end Exec

/-! ## Programs -/

namespace Program

variable {interpreter : Instruction → Exec (Except Interrupt Value)} {i : Instruction}
  {program first : Program} {next : Value → Program} {w w₁ w₂ w' : World} {v value : Value}

/-- Evaluated in the state, the program gives the value and leaves the other state. -/
def Gives (interpreter : Instruction → Exec (Except Interrupt Value)) (program : Program) (w : World)
    (value : Value) (w' : World) : Prop :=
  Exec.Ends (program.eval interpreter) w (.ok value) w'

theorem gives_pure (value : Value) (w : World) : Gives interpreter (.pure value) w value w :=
  fun v hv => ⟨v, rfl, hv⟩

theorem Gives.bind (h : Gives interpreter program w v w₁)
    (hnext : Gives interpreter (next v) w₁ value w') :
    Gives interpreter (program.bind next) w value w' := by
  intro u hu
  obtain ⟨u₁, hfirst, hu₁⟩ := h u hu
  obtain ⟨u', hrest, hu'⟩ := hnext u₁ hu₁
  have heval : (program.bind next).eval interpreter u =
      (program.eval interpreter u).andThen fun v u => (next v).eval interpreter u := rfl
  refine ⟨u', ?_, hu'⟩
  rw [heval, hfirst]
  exact hrest

/-- An instruction without programs is handed to the interpreter. -/
theorem gives_perform (hvalues : i.pending? = none)
    (h : (interpreter i).Ends w (.ok value) w') : Gives interpreter (.perform i) w value w' := by
  intro u hu
  obtain ⟨u', hrun, hu'⟩ := h u hu
  exact ⟨u', (eval_perform_of_pending?_eq_none interpreter hvalues u).trans hrun, hu'⟩

/-- The first program among the operands comes before the instruction. -/
theorem Gives.operand {fill : Value → Instruction} (hpending : i.pending? = some (first, fill))
    (h : Gives interpreter first w v w₁)
    (hrest : Gives interpreter (.perform (fill v)) w₁ value w') :
    Gives interpreter (.perform i) w value w' := by
  intro u hu
  obtain ⟨u₁, hfirst, hu₁⟩ := h u hu
  obtain ⟨u', hlater, hu'⟩ := hrest u₁ hu₁
  refine ⟨u', ?_, hu'⟩
  rw [eval_perform_of_pending?_eq_some interpreter hpending, hfirst]
  exact hlater

/-- The value of a successful outcome is required. -/
theorem Gives.requireOutcome (h : Gives interpreter program w (.ok value) w') :
    Gives interpreter program.requireOutcome w value w' :=
  h.bind (gives_pure value w')

end Program

namespace Exec

variable {w w' : World} {value : Value}

/-- A program whose evaluation ends with a value is run to it, if there is no limit. -/
theorem ends_runProgram {settings : Settings} {program : Program}
    {interpreter : Instruction → Exec (Except Interrupt Value)}
    (hlimit : settings.stepLimit = none) (htrace : settings.traceSteps = false)
    (h : Program.Gives interpreter program w value w') :
    (runProgram settings interpreter program).Ends w (.ok value) w' := by
  have hinterpreter : announced settings interpreter = fun _ => interpreter := by
    funext step i
    unfold announced
    rw [htrace]
    rfl
  intro v hv
  obtain ⟨v', heval, hv'⟩ := h v hv
  have hending := (Program.run_eq_eval interpreter program v).trans heval
  rcases hrun : program.run (fun _ => interpreter) none v with ⟨outcome, steps, last⟩
  rw [hrun] at hending
  obtain ⟨hanswer, rfl⟩ := Prod.mk.inj hending
  obtain rfl : outcome = .yielded value := by
    cases outcome with
    | yielded other =>
      obtain rfl := Except.ok.inj (Option.some.inj hanswer)
      rfl
    | raised | aborted | exhausted | unanswered => cases hanswer
  refine ⟨last.report (.programFinished steps), ?_, hv'.trans ⟨_, _, rfl⟩⟩
  have hget : (get : Exec World) v = (some v, v) := rfl
  unfold runProgram
  rw [bind_eq_of_eq_some hget, hinterpreter, hlimit, hrun]
  rfl

end Exec

namespace Session

variable {session : Session} {hooks : Hooks} {w w₁ w' : World} {id : SignalId} {value : Value}
  {graph : Graph}

/-! ## Requests -/

/-- A request is answered, and the script goes on with the reply. -/
theorem ends_ask (request : Request) (reply : request.Reply) {next : request.Reply → Script}
    {result : Except Interrupt Value}
    (hanswer : ∀ journal past, (answer session request { w with journal, past }).1 = reply ∧
      w₁.Alike (answer session request { w with journal, past }).2)
    (hnext : ((next reply).exec session hooks).Ends w₁ result w') :
    ((Script.ask request next).exec session hooks).Ends w result w' :=
  (ends_modifyGet (f := World.answer session request) hanswer).bind hnext

/-! ## Passes -/

theorem ends_evaluate {node : Node} {inputs : List Value} (hnode : w.graph.node? id = some node)
    (hcell : node.kind.isCell = false) (hinputs : w.graph.inputsOf node.kind = .ok inputs)
    (hcompute : (computation session hooks node.kind inputs).Ends w (.ok value) w₁)
    (hstore : w₁.graph.settle id value = .ok graph) :
    (evaluate session hooks id).Ends w (.ok ()) { w₁ with graph } := by
  refine ends_get_bind fun journal past => ?_
  simp only [Graph.node_eq_ok.2 hnode, hcell, Bool.false_eq_true, if_false]
  exact (ends_evaluateOn hinputs hcompute).bind (ends_settleNode hstore)

theorem ends_evaluateAll_nil (w : World) : (evaluateAll session hooks []).Ends w [] w :=
  ends_pure _ _

theorem ends_evaluateAll_cons {rest : List SignalId} {failures : List Failure}
    (hid : w.graph.contains id = true) (hfirst : (evaluate session hooks id).Ends w (.ok ()) w₁)
    (hrest : (evaluateAll session hooks rest).Ends w₁ failures w') :
    (evaluateAll session hooks (id :: rest)).Ends w failures w' := by
  refine ends_get_bind fun journal past => ?_
  rw [if_pos hid]
  exact hfirst.bind hrest

/-- A pass evaluates the derived nodes of its plan and then the watches. -/
theorem ends_propagate {roots watches derived : List SignalId} {failures : List Failure}
    (hroots : roots ≠ [])
    (hplan : (w.graph.plan roots).partition (isWatch w.graph) = (watches, derived))
    (hall : (evaluateAll session hooks (derived ++ watches)).Ends w failures w') :
    (propagate session hooks roots).Ends w failures w' := by
  unfold propagate
  rw [if_neg (by simpa using hroots)]
  refine ends_get_bind fun journal past => ?_
  dsimp only
  rw [hplan]
  exact (ends_report _ _).bind ((ends_begin _ _).bind hall)

/-! ## Reducers -/

/-- The value that a reducer gave is stored, and the other reducers follow. -/
theorem ends_finish {payload state : Value} {target : SignalId} {written : List SignalId}
    {rest : List Subscriber} {result : List SignalId × List Failure}
    (hstore : w.graph.settle target state = .ok graph)
    (hrest : (reduceAll session hooks payload (if target ∈ written then written else
      written ++ [target]) rest).Ends { w with graph } result w') :
    (reduceAll.finish session hooks payload written target (.ok state) rest).Ends w result w' := by
  unfold reduceAll.finish
  exact (ends_write hstore).bind hrest

theorem ends_reduceAll_fold {payload current state : Value} {target : SignalId}
    {reducer : Value → Value → Script} {written : List SignalId} {rest : List Subscriber}
    {result : List SignalId × List Failure} (hcurrent : w.graph.value target = .ok current)
    (hrun : ((reducer current payload).exec session hooks).Ends w (.ok value) w₁)
    (hread : w₁.graph.resolve value = .ok state) (hstore : w₁.graph.settle target state = .ok graph)
    (hrest : (reduceAll session hooks payload (if target ∈ written then written else
      written ++ [target]) rest).Ends { w₁ with graph } result w') :
    (reduceAll session hooks payload written (.fold target reducer :: rest)).Ends w result w' := by
  have hreduce : (reduce session hooks payload target fun current => reducer current payload).Ends w
      (.ok state) w₁ := by
    refine ends_get_bind fun journal past => ?_
    dsimp only
    rw [hcurrent]
    refine (ends_begin _ _).bind (hrun.bind (ends_get_bind fun journal past => ?_))
    dsimp only
    rw [hread]
    exact ends_pure _ _
  rw [reduceAll]
  exact hreduce.bind (ends_finish hstore hrest)

/-- A reaction goes on with the value of its program, which is read where the program has ended, if
this has created no node. -/
theorem ends_react {program : Program} {state : Value} {next : Except Failure Value → Script}
    {result : Except Interrupt Value}
    (hrun : (runProgram session.settings hooks.dispatch program).Ends w (.ok value) w₁)
    (hread : w₁.graph.resolve value = .ok state)
    (hnone : w₁.graph.createdSince w.graph.mark = [])
    (hnext : ((next (.ok state)).exec session hooks).Ends w₁ result w') :
    ((Script.react program next).exec session hooks).Ends w result w' := by
  refine ends_ask .mark w.graph.mark (fun _ _ => ⟨rfl, _, _, rfl⟩) (hrun.bind ?_)
  refine ends_ask (.read value) (.ok state) (fun _ _ => ⟨hread, _, _, rfl⟩) ?_
  refine ends_ask (.discardSince w.graph.mark) (.ok ()) (fun journal past => ?_) hnext
  dsimp only [answer]
  rw [hnone]
  exact ⟨rfl, journal, past, rfl⟩

theorem ends_reduceAll_foldProgram {payload current state : Value} {target : SignalId}
    {reducer : Value → Value → Program} {written : List SignalId} {rest : List Subscriber}
    {result : List SignalId × List Failure} (hcurrent : w.graph.value target = .ok current)
    (hrun : (runProgram session.settings hooks.dispatch (reducer current payload)).Ends w (.ok value)
      w₁)
    (hread : w₁.graph.resolve value = .ok state)
    (hnone : w₁.graph.createdSince w.graph.mark = [])
    (hstore : w₁.graph.settle target state = .ok graph)
    (hrest : (reduceAll session hooks payload (if target ∈ written then written else
      written ++ [target]) rest).Ends { w₁ with graph } result w') :
    (reduceAll session hooks payload written (.foldProgram target reducer :: rest)).Ends w result
      w' := by
  have hreduce : (reduceProgram session hooks payload target fun current =>
      reducer current payload).Ends w (.ok state) w₁ := by
    refine ends_get_bind fun journal past => ?_
    dsimp only
    rw [hcurrent]
    exact (ends_begin _ _).bind ((ends_react hrun hread hnone (ends_pure _ _)).bind (ends_pure _ _))
  rw [reduceAll]
  exact hreduce.bind (ends_finish hstore hrest)

theorem ends_reduceAll_nil (payload : Value) (written : List SignalId) (w : World) :
    (reduceAll session hooks payload written []).Ends w (written, []) w := by
  rw [reduceAll]
  exact ends_pure _ _

/-- Nothing is done where there are no listeners. -/
theorem ends_notifyAll {payload : Value} {subscribers : List Subscriber}
    (hnone : ∀ s ∈ subscribers, s.listening? payload = none) (w : World) :
    (notifyAll session hooks payload subscribers).Ends w [] w := by
  induction subscribers with
  | nil => exact ends_pure _ _
  | cons subscriber rest ih =>
    have hrest := ih fun s hs => hnone s (List.mem_cons_of_mem _ hs)
    cases subscriber with
    | listener listener => cases hnone _ List.mem_cons_self
    | fold | foldProgram | forward =>
      unfold notifyAll
      exact hrest

/-! ## Changes -/

/-- An occurrence without listeners: its reducers write cells, and a pass starts from these. -/
theorem ends_deliver {source : SourceId} {payload : Value} {subscribers : List Subscriber} {hub : Hub}
    {written : List SignalId} (hdeliver : w.hub.deliver source = .ok (subscribers, hub))
    (hreduce : (reduceAll session hooks payload [] subscribers).Ends { w with hub } (written, []) w₁)
    (hpass : (propagate session hooks written).Ends w₁ [] w')
    (hnone : ∀ s ∈ subscribers, s.listening? payload = none) :
    (deliver session hooks source payload).Ends w [] w' := by
  refine ends_get_bind fun journal past => ?_
  dsimp only
  rw [hdeliver]
  have hcounted : (set { w with hub, journal, past } : Exec PUnit).Ends w ⟨⟩ { w with hub } := by
    intro v hv
    exact ⟨_, rfl, _, _, rfl⟩
  refine hcounted.bind ((ends_report _ _).bind (hreduce.bind (hpass.bind ?_)))
  exact (ends_notifyAll hnone w').bind (ends_pure _ _)

/-- A change that is applied without failure and brings no other is settled by that. -/
theorem ends_settle {change : Change} {bound : Nat}
    (happly : (apply session hooks change).Ends { w with settling := true } [] w₁)
    (hqueue : w₁.queue = []) :
    (settle session hooks (bound + 1) change).Ends w (.ok ()) { w₁ with settling := false } := by
  have hstart : (modify fun w => { w with settling := true } : Exec PUnit).Ends w ⟨⟩
      { w with settling := true } := ends_modifyGet fun journal past => ⟨rfl, _, _, rfl⟩
  have hend : (modify fun w => { w with settling := false } : Exec PUnit).Ends w₁ ⟨⟩
      { w₁ with settling := false } := ends_modifyGet fun journal past => ⟨rfl, _, _, rfl⟩
  have hdrain : (drain session hooks (bound + 1) change).Ends { w with settling := true } [] w₁ := by
    rw [drain]
    refine happly.bind (ends_get_bind fun journal past => ?_)
    dsimp only
    rw [hqueue]
    exact ends_pure _ _
  exact hstart.bind (hdrain.bind (hend.bind (ends_pure _ _)))

/-- Firing a source while nothing is being settled settles its occurrence. -/
theorem ends_fire {source : SourceId} {payload : Value} {found : Source} {level : Nat}
    (hfound : w.hub.get source = .ok found) (hcalm : w.settling = false)
    (hdeliver : (deliver session (session.hooksAt (level + 1)) source payload).Ends
      { w with settling := true } [] w₁) (hqueue : w₁.queue = []) :
    (Exec.fire (session.hooksAt (level + 2)) source payload).Ends w (.ok ())
      { w₁ with settling := false } := by
  have happly : (apply session (session.hooksAt (level + 1)) (.fired source payload)).Ends
      { w with settling := true } [] w₁ := (ends_begin _ _).bind hdeliver
  refine ends_get_bind fun journal past => ?_
  dsimp only
  rw [hfound]
  refine ends_get_bind fun journal past => ?_
  rw [if_neg (by simp [hcalm])]
  exact ends_settle happly hqueue

/-! ## Calls -/

/-- A call replies and leaves a state: whatever follows it goes on with the reply in that state. -/
def Replies {α : Type} (session : Session) (level : Nat) (call : (α → Script) → Script) (reply : α)
    (w w' : World) : Prop :=
  ∀ next, (call next).exec session (session.hooksAt level) w =
    (next reply).exec session (session.hooksAt level) w'

/-- Steps are taken one after another. -/
def OneByOne {α : Type} (step : α → World → World → Prop) : List α → World → World → Prop
  | [], w, w' => w' = w
  | a :: rest, w, w' => ∃ w₁, step a w w₁ ∧ OneByOne step rest w₁ w'

/-- If each step leads to one state at most, so do steps that are taken one after another. -/
theorem OneByOne.unique {α : Type} {step : α → World → World → Prop}
    (hstep : ∀ a {w w₁ w₂}, step a w w₁ → step a w w₂ → w₂ = w₁) {steps : List α} {w w₁ w₂ : World}
    (h₁ : OneByOne step steps w w₁) (h₂ : OneByOne step steps w w₂) : w₂ = w₁ := by
  induction steps generalizing w with
  | nil => exact h₂.trans h₁.symm
  | cons a rest ih =>
    obtain ⟨v₁, hfirst₁, hrest₁⟩ := h₁
    obtain ⟨v₂, hfirst₂, hrest₂⟩ := h₂
    rw [hstep a hfirst₁ hfirst₂] at hrest₂
    exact ih hrest₁ hrest₂

theorem Replies.unique {α : Type} {level : Nat} {call : (α → Script) → Script} {reply : α}
    {w w₁ w₂ : World} (h₁ : session.Replies level call reply w w₁)
    (h₂ : session.Replies level call reply w w₂) : w₂ = w₁ :=
  congrArg Prod.snd ((h₂ fun _ => .done (.ok .unit)).symm.trans (h₁ fun _ => .done (.ok .unit)))

/-- A program that gives a value is run to it. -/
theorem replies_run {level : Nat} {program : Program}
    (hlimit : session.settings.stepLimit = none) (htrace : session.settings.traceSteps = false)
    (h : Program.Gives (session.hooksAt level).dispatch program w value w') :
    ∃ v, w'.Alike v ∧ session.Replies level (Script.run program) (.ok value) w v := by
  obtain ⟨v, hran, hv⟩ := ends_runProgram hlimit htrace h w (.refl w)
  exact ⟨v, hv, fun next => bind_eq_of_eq_some hran⟩

/-- An event that is bound to one source fires it. -/
theorem replies_dispatchEvent {level : Nat} {element : ElementId} {event : String}
    {source : SourceId} {payload : Value} (hbound : w.hub.bound element event = [source])
    (hfire : (Exec.fire (session.hooksAt level) source payload).Ends w (.ok ()) w') :
    ∃ v, w'.Alike v ∧
      session.Replies level (Script.dispatchEvent element event payload) (.ok 1) w v := by
  obtain ⟨v, hran, hv⟩ := hfire w (.refl w)
  refine ⟨v, hv, fun next => ?_⟩
  have hask : (modifyGet (World.answer session (.bound element event)) : Exec (List SourceId)) w =
      (some [source], w) := congrArg (fun sources => (some sources, w)) hbound
  exact (bind_eq_of_eq_some hask).trans (bind_eq_of_eq_some hran)

end Session

end EffectGraph
