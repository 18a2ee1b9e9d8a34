import EffectGraph.Proofs.Session.Steady

/-!
# Scripts are steady

Creating a derived node looks unsound in between: the node is there and has no value yet. But its
computation is pure, so nobody gets to see it before the value is stored or the node removed. The
effect of a watch on the other hand may do anything while its node waits for its end.
-/

namespace EffectGraph

open Exec World

namespace Session

variable {session : Session}

/-- A pure computation leaves its result and an entry or two in the journal. -/
theorem IsPure.leaves {compute : List Value → Script} (hpure : session.IsPure compute)
    {level : Nat} {inputs : List Value} {w : World} {Q : Except Interrupt Value → World → Prop}
    {E : World → Prop} (hended : ∀ result journal, session.Yields (compute inputs) result →
      Q result { w with journal }) (hbroken : ∀ journal, E { w with journal }) :
    ((compute inputs).exec session (session.hooksAt level)).Leaves Q E w := by
  obtain ⟨f, hf⟩ := hpure
  obtain ⟨-, journal, hjournal⟩ := hf inputs level w
  refine leaves_of_eq (fun result w' hexec => ?_) fun w' hexec => ?_
  · have hadvance : session.advance level (compute inputs) w = (some result, w') := hexec
    obtain rfl : w' = { w with journal } := by rwa [hadvance] at hjournal
    exact hended result journal ⟨level, w, _, by rw [execute, hadvance]⟩
  · have hadvance : session.advance level (compute inputs) w = (none, w') := hexec
    obtain rfl : w' = { w with journal } := by rwa [hadvance] at hjournal
    exact hbroken journal

/-! ## Creating nodes -/

/-- A node whose inputs exist is evaluated on their values. -/
theorem evaluateOn_leaves {id : SignalId} {kind : NodeKind}
    {compute : List Value → Exec (Except Interrupt Value)} {w : World}
    {Q : Except Interrupt Value → World → Prop} {E : World → Prop}
    (hlive : ∀ p ∈ kind.dependencies, w.graph.contains p)
    (h : ∀ inputs, w.graph.inputsOf kind = .ok inputs →
      (compute inputs).Leaves Q E (w.begin (.evaluating id inputs))) :
    (evaluateOn id kind compute).Leaves Q E w := by
  obtain ⟨inputs, hinputs⟩ := Graph.exists_inputsOf_eq_ok hlive
  refine leaves_bind.2 (leaves_get.2 ?_)
  rw [hinputs]
  exact leaves_bind.2 (leaves_modify.2 (h inputs hinputs))

/-- What is known of a node that was added. -/
private theorem inserted {roots : List SignalId} {w : World} (h : session.Sound roots [] w)
    {kind : NodeKind} {id : SignalId} {graph : Graph} (hkind : kind ≠ .cell)
    (hinsert : w.graph.insert kind kind.dependencies = .ok (id, graph)) :
    ∃ rank, Graph.Grows w.graph graph id (Graph.freshNode kind kind.dependencies rank) ∧
      w.Steps { w with graph } ∧ graph.WellFormed ∧ ∀ p ∈ kind.dependencies, graph.contains p := by
  obtain ⟨rank, hrank, hg⟩ := Graph.grows_insert kind.nodup_dependencies hinsert
  have hsteps : w.Steps { w with graph } := .single (.insert hkind hinsert)
  refine ⟨rank, hg, hsteps, (hsteps.wellFormed h.wellFormed).now.graph, fun p hp => ?_⟩
  exact hg.contains_old ((Graph.rankAbove_eq_ok hrank).1 p hp)

/-- Removing a node takes it off the list of those still to be computed. -/
private theorem Sound.dropped {roots todo : List SignalId} {w : World} {id : SignalId}
    (h : session.Sound roots todo w) (htodo : ∀ k ∈ todo, k = id) (hcell : ¬ w.graph.IsCell id)
    {removed : List SignalId} {graph : Graph}
    (hremove : w.graph.remove id = .ok (removed, graph)) :
    session.Sound roots [] { w with graph } := by
  have hstep : w.Steps { w with graph } := .single (.drop hcell hremove)
  obtain ⟨hid, rfl, rfl⟩ := Graph.remove_eq_ok.1 hremove
  have hgraph := h.wellFormed.now.graph
  refine h.erase (Graph.removable_subtree hgraph (Graph.contains_iff.2 hid)) hstep fun k hk => ?_
  exact .inr ((Graph.mem_subtree hgraph).2 (.inl (htodo k hk)))

/-- When the computation of a new node has ended, the node gets its value or goes. -/
private theorem Sound.finishFirst {roots : List SignalId} {w : World} {E : World → Prop}
    {id : SignalId} (h : session.Sound roots [id] w) {node : Node} {operands : List Value}
    {compute : List Value → Script} {inputs : List Value} {result : Except Interrupt Value}
    (hnode : w.graph.node? id = some node) (hkind : node.kind = .derived operands compute)
    (houtputs : node.outputs = []) (hinputs : operands.mapM w.graph.resolve = .ok inputs)
    (hyields : session.Yields (compute inputs) result) :
    (finishFirst id result).Leaves
      (fun _ w' => session.Sound roots [] w' ∧ w'.settling = w.settling) E w := by
  refine finishFirst_leaves (fun hgone => ?_) (fun value graph hresult hstore => ?_)
    fun interrupt removed graph _ hremove => ?_
  · rw [hnode] at hgone
    cases hgone
  · -- Nothing has the new node as an input yet.
    refine ⟨h.store_derived hnode hkind hinputs (hresult ▸ hyields) ?_ hstore, rfl⟩
    intro k child _ _ hchild _ hinput
    have houtput := (h.wellFormed.now.graph.linked hnode hchild).1 hinput
    rw [houtputs] at houtput
    exact houtput
  · refine ⟨h.dropped (fun k hk => List.mem_singleton.1 hk) ?_ hremove, rfl⟩
    rintro ⟨node', hnode', hcell⟩
    obtain rfl := Option.some.inj (hnode.symm.trans hnode')
    rw [hkind] at hcell
    cases hcell

/-- Creating a derived node is steady: either its computation is pure, or the past tells. -/
theorem steady_create_derived {level : Nat} (hhooks : (session.hooksAt level).Stepwise)
    (operands : List Value) (compute : List Value → Script) :
    session.Steady (create (.derived operands compute) (Value.dependencies operands)
      fun inputs => (compute inputs).exec session (session.hooksAt level)) := by
  have hcompute (inputs : List Value) :
      ((compute inputs).exec session (session.hooksAt level)).Stepwise :=
    Script.exec_stepwise session hhooks _
  have hkind : NodeKind.derived operands compute ≠ .cell := by simp
  refine ⟨admits_steps.create hkind nofun hcompute, fun {roots w} h => ?_⟩
  refine create_leaves (fun _ _ _ => ⟨h, rfl⟩) fun id graph hinsert => ?_
  obtain ⟨rank, hg, hsteps, hgraph, hlive⟩ := inserted h hkind hinsert
  refine evaluateOn_leaves hlive fun inputs hinputs => ?_
  by_cases hpure : session.IsPure compute
  · have hadded : session.Sound roots [id] { w with graph } := by
      refine h.grow hg hsteps rfl (fun hwatch => by cases hwatch) (fun _ _ heq => ?_)
        (fun k hk => absurd hk List.not_mem_nil) (.inl List.mem_cons_self)
      obtain ⟨rfl, rfl⟩ := NodeKind.derived.inj heq
      exact hpure
    have hbegun : session.Sound roots [id]
        (World.begin { w with graph } (.evaluating id inputs)) := by
      refine hadded.begin_evaluating hg.node?_self hinputs (fun p hp hmem => ?_)
        (.inl List.mem_cons_self)
      have holder := hgraph.inputs_older hg.node?_self p hp
      rw [List.mem_singleton.1 hmem] at holder
      exact lt_irrefl _ holder
    refine hpure.leaves (fun result journal hyields => ?_) fun _ _ => hbegun.allGood
    exact ((hbegun.journal journal).finishFirst hg.node?_self rfl rfl hinputs hyields).mono
      fun finished w₃ h₃ _ => h₃
  · -- The moment at which the computation starts stays in the past.
    have htold {w' : World} (hsteps : (World.begin { w with graph } (.evaluating id inputs)).Steps w') :
        ¬ session.PureSoFar w'.past := by
      intro hsofar
      have hmoment := hsofar _ ((Steps.follows hsteps).past_suffix.subset List.mem_cons_self)
      rw [Ghost.value_of] at hmoment
      exact hpure (hmoment id _ operands compute hg.node?_self rfl)
    refine (hcompute inputs _).imp (fun result w₂ hexecuted => ?_)
      fun w₂ hexecuted hsofar => absurd hsofar (htold hexecuted)
    have hfollows : Follows { w with graph } w₂ :=
      Steps.follows ((steps_begin _ _).trans hexecuted)
    have hcell := not_isCell_of_insert hkind hinsert hfollows
    exact (finishFirst_steps hcell result).mono fun finished w₃ hfinished hsofar =>
      absurd hsofar (htold (hexecuted.trans hfinished))

/-- Creating a watch is steady. -/
theorem steady_create_watch (input : Value) (effect : Value → Script)
    {run : Value → Exec (Except Interrupt Value)} (hrun : ∀ value, session.Steady (run value)) :
    session.Steady (create (.watch input effect) (input.collectSignals []) (effectOn run)) := by
  have hkind : NodeKind.watch input effect ≠ .cell := by simp
  have heffect := admits_steps.effectOn fun value => (hrun value).stepwise
  refine ⟨admits_steps.create hkind (fun _ => givesUnit_effectOn _) heffect, fun {roots w} h => ?_⟩
  refine create_leaves (fun _ _ _ => ⟨h, rfl⟩) fun id graph hinsert => ?_
  obtain ⟨rank, hg, hsteps, hgraph, hlive⟩ := inserted h hkind hinsert
  refine evaluateOn_leaves hlive fun inputs hinputs => ?_
  have hadded : session.Sound roots [] { w with graph } :=
    h.grow hg hsteps rfl (fun _ => rfl) (fun _ _ heq => by cases heq) (fun _ hk => hk)
      (.inr fun _ _ heq => by cases heq)
  have hbegun : session.Sound roots [] (World.begin { w with graph } (.evaluating id inputs)) :=
    hadded.begin_evaluating hg.node?_self hinputs (fun p _ hmem => absurd hmem List.not_mem_nil)
      (.inr rfl)
  refine leaves_bind.2 ?_
  refine (Leaves.and ((hrun _).sound hbegun) ((hrun _).stepwise _)).imp
    (fun result w₂ hleft => leaves_pure.2 ?_) fun _ hbroken => hbroken.1
  obtain ⟨h₂, hran⟩ := hleft
  have hfollows : Follows { w with graph } w₂ := Steps.follows ((steps_begin _ _).trans hran)
  have hcell := not_isCell_of_insert hkind hinsert hfollows
  have hwatch : w₂.graph.OnlyEver (fun kind => kind.isWatch) id := by
    refine Graph.OnlyEver.follows ⟨Graph.index_lt hg.node?_self, fun node hnode => ?_⟩ hfollows
    obtain rfl := Option.some.inj (hnode.symm.trans hg.node?_self)
    rfl
  refine finishFirst_leaves (fun _ interrupt hpure => h₂ hpure)
    (fun value graph' hresult hstore hpure => ?_) fun interrupt removed graph' _ hremove hpure => ?_
  · cases result with
    | error interrupt => cases hresult
    | ok _ =>
      obtain rfl := Except.ok.inj hresult
      obtain ⟨h₂, hsettling⟩ := h₂ hpure
      exact ⟨h₂.store_unit hwatch hstore, hsettling⟩
  · obtain ⟨h₂, hsettling⟩ := h₂ hpure
    exact ⟨h₂.dropped (fun k hk => absurd hk List.not_mem_nil) hcell hremove, hsettling⟩

/-! ## Scripts -/

theorem steady_derive {level : Nat} (hhooks : (session.hooksAt level).Stepwise)
    (operands : List Value) {compute : List Value → Script}
    (hcompute : ∀ inputs, session.Steady ((compute inputs).exec session (session.hooksAt level))) :
    session.Steady (derive operands (.derived operands compute)
      fun inputs => (compute inputs).exec session (session.hooksAt level)) := by
  unfold derive
  split
  · exact hcompute operands
  · refine (steady_create_derived hhooks operands compute).bind fun result => ?_
    cases result with
    | error interrupt => exact steady_pure _
    | ok id => exact (steady_report _).bind fun _ => steady_pure _

theorem steady_watch (input : Value) (effect : Value → Script)
    {run : Value → Exec (Except Interrupt Value)} (hrun : ∀ value, session.Steady (run value)) :
    session.Steady (watch input (.watch input effect) run) := by
  unfold watch
  split
  · exact (steady_create_watch input effect hrun).bind fun _ => steady_pure _
  · exact (hrun input).bind fun _ => steady_pure _

theorem steady_announced (settings : Settings)
    {interpreter : Instruction → Exec (Except Interrupt Value)} (step : Nat) (i : Instruction)
    (hinterpreter : session.Steady (interpreter i)) :
    session.Steady (announced settings interpreter step i) := by
  unfold announced
  dsimp only
  split
  · exact (steady_report _).bind fun _ => hinterpreter
  · exact hinterpreter

/-- A run of a program is steady if its interpreter is. -/
theorem steady_runProgram (settings : Settings)
    {interpreter : Instruction → Exec (Except Interrupt Value)} (program : Program)
    (hinterpreter : ∀ i, session.Steady (interpreter i)) :
    session.Steady (runProgram settings interpreter program) := by
  refine ⟨admits_steps.reports.runProgram settings program.over_all fun i _ => (hinterpreter i).stepwise,
    fun {roots w} h => ensures_get_bind ?_⟩
  have hannounced (step : Nat) (i : Instruction) :=
    steady_announced settings step i (hinterpreter i)
  -- What holds when the interpreter comes back, and what does when it does not.
  have hkept : (program.run (announced settings interpreter) settings.stepLimit w).Keeps
      (fun w' => session.PureSoFar w'.past →
        session.Sound roots [] w' ∧ w'.settling = w.settling)
      (fun w' => session.PureSoFar w'.past → session.AllGood w'.past) :=
    program.run_keeps
      (fun step i w₁ a w₂ h₁ hcall => ((hannounced step i).follow h₁).of_eq_some hcall)
      (fun step i w₁ w₂ h₁ hcall => ((hannounced step i).follow h₁).of_eq_none hcall)
      fun _ => ⟨h, rfl⟩
  generalize program.run (announced settings interpreter) settings.stepLimit w = halt at hkept ⊢
  obtain ⟨outcome, steps, w'⟩ := halt
  refine leaves_bind.2 (leaves_set.2 ?_)
  cases outcome with
  | yielded value => exact ((steady_report _).bind fun _ => steady_pure _).follow hkept
  | raised payload => exact ((steady_report _).bind fun _ => steady_pure _).follow hkept
  | exhausted limit => exact ((steady_report _).bind fun _ => steady_pure _).follow hkept
  | aborted failure => exact leaves_pure.2 hkept
  | unanswered => exact leaves_failure.2 hkept

end Session

open Session

/-- Scripts are steady. -/
theorem Script.exec_steady {session : Session} {level : Nat}
    (hhooks : (session.hooksAt level).Steady session) (script : Script) :
    session.Steady (script.exec session (session.hooksAt level)) := by
  induction script with
  | done result => exact steady_pure _
  | ask request next ih => exact (steady_ask request).bind fun reply => ih reply
  | derive operands compute next ihcompute ih =>
    exact (steady_derive hhooks.stepwise operands ihcompute).bind fun reply => ih reply
  | watch input effect next iheffect ih =>
    exact (steady_watch input effect iheffect).bind fun reply => ih reply
  | set cell value next ih => exact (steady_writeCell hhooks cell value).bind fun reply => ih reply
  | fire source payload next ih =>
    exact (steady_fire hhooks source payload).bind fun reply => ih reply
  | fold source initial reducer next _ ih =>
    exact (steady_attach source initial _ fun _ => rfl).bind fun reply => ih reply
  | foldProgram source initial reducer next ih =>
    exact (steady_attach source initial _ fun _ => rfl).bind fun reply => ih reply
  | listen source listener next _ ih =>
    exact (steady_listen source listener).bind fun reply => ih reply
  | run program next ih =>
    exact (steady_runProgram _ program hhooks.dispatch).bind fun reply => ih reply
  | runWith settings program interpreter next ihinterpreter ih =>
    exact (steady_runProgram settings program ihinterpreter).bind fun reply => ih reply
  | dispatch instruction next ih => exact (hhooks.dispatch instruction).bind fun reply => ih reply

end EffectGraph
