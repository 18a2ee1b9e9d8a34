import EffectGraph.Proofs.Program.Limits
import EffectGraph.Proofs.Program.Over

/-!
# What a run calls

`Program.RunsTo` says of a run without a limit how it ends, where it leaves the interpreter and which
instructions it hands to it. Every run comes to exactly one such end (`Program.exists_runsTo`,
`Program.RunsTo.unique`). The calls of a program that continues another one, or that runs a body under
a handler, are the calls of its parts in a row: recording does not depend on what was recorded before
(`Program.eval_logged`).

A run with a limit makes the first of the calls that the run without one makes
(`Program.calls_prefix`).
-/

namespace EffectGraph

namespace Ending

variable {σ α β : Type}

/-- The end of an evaluation whose calls come after others. -/
def logged (log : List Instruction) (ending : Ending (σ × List Instruction) α) :
    Ending (σ × List Instruction) α :=
  (ending.1, ending.2.1, log ++ ending.2.2)

theorem logged_logged (front back : List Instruction)
    (ending : Ending (σ × List Instruction) α) :
    (ending.logged back).logged front = ending.logged (front ++ back) := by
  simp only [logged, List.append_assoc]

/-- What only adds to the record does so whatever is in it. -/
def Adds (next : σ × List Instruction → Ending (σ × List Instruction) α) : Prop :=
  ∀ s log, next (s, log) = (next (s, [])).logged log

/-- What only adds to the record goes on so. -/
theorem logged_andThen {ending : Ending (σ × List Instruction) α}
    {next : α → σ × List Instruction → Ending (σ × List Instruction) β}
    (hnext : ∀ a, Adds (next a)) (log : List Instruction) :
    (ending.logged log).andThen next = (ending.andThen next).logged log := by
  rcases ending with ⟨_ | _ | a, s, calls⟩
  · rfl
  · rfl
  · simp only [logged, andThen_ok]
    rw [hnext a s (log ++ calls), hnext a s calls, ← logged_logged]
    rfl

theorem logged_rescue {ending : Ending (σ × List Instruction) α}
    {handler : Value → σ × List Instruction → Ending (σ × List Instruction) α}
    (hhandler : ∀ payload, Adds (handler payload)) (log : List Instruction) :
    (ending.logged log).rescue handler = (ending.rescue handler).logged log := by
  rcases ending with ⟨_ | (payload | _) | _, s, calls⟩
  · rfl
  · simp only [logged, rescue_raised]
    rw [hhandler payload s (log ++ calls), hhandler payload s calls, ← logged_logged]
    rfl
  · rfl
  · rfl

theorem Adds.andThen {first : σ × List Instruction → Ending (σ × List Instruction) α}
    {next : α → σ × List Instruction → Ending (σ × List Instruction) β} (hfirst : Adds first)
    (hnext : ∀ a, Adds (next a)) : Adds fun s => (first s).andThen next := by
  intro s log
  simp only [hfirst s log, logged_andThen hnext]

theorem Adds.rescue {first : σ × List Instruction → Ending (σ × List Instruction) α}
    {handler : Value → σ × List Instruction → Ending (σ × List Instruction) α} (hfirst : Adds first)
    (hhandler : ∀ payload, Adds (handler payload)) : Adds fun s => (first s).rescue handler := by
  intro s log
  simp only [hfirst s log, logged_rescue hhandler]

theorem adds_ok (a : α) : Adds fun s : σ × List Instruction => (some (.ok a), s) := by
  intro s log
  simp only [logged, List.append_nil]

end Ending

namespace Program

variable {σ : Type} (answers : Answers σ)

theorem adds_recording (i : Instruction) : Ending.Adds (recording answers i) := fun _ _ => rfl

mutual

/-- A recorded evaluation does the same whatever was recorded before, and adds its calls to it. -/
theorem eval_logged : ∀ p : Program, Ending.Adds (p.eval (recording answers))
  | .pure value => by
    have hvalue := Ending.adds_ok (σ := σ) value
    intro s log
    simpa only [eval] using hvalue s log
  | .throw payload => by
    intro s log
    simp only [eval, Ending.logged, List.append_nil]
  | .perform ⟨tag, operands, result⟩ => by
    have hboth := (evalOperands_logged operands).andThen fun operands =>
      adds_recording answers ⟨tag, operands, result⟩
    intro s log
    simpa only [eval] using hboth s log
  | .bind first next => by
    have hboth := (eval_logged first).andThen fun value => eval_logged (next value)
    intro s log
    simpa only [eval] using hboth s log
  | .attempt body handler => by
    have hboth := (eval_logged body).rescue fun payload => eval_logged (handler payload)
    intro s log
    simpa only [eval] using hboth s log

theorem evalOperands_logged : ∀ operands : List (String × Operand),
    Ending.Adds (evalOperands (recording answers) operands)
  | [] => by
    intro s log
    simp only [evalOperands, Ending.logged, List.append_nil]
  | (name, .program p) :: rest => by
    have hall := (eval_logged p).andThen fun value =>
      (evalOperands_logged rest).andThen fun rest => Ending.adds_ok ((name, .value value) :: rest)
    intro s log
    simpa only [evalOperands] using hall s log
  | (name, .value value) :: rest => by
    have hall := (evalOperands_logged rest).andThen fun rest =>
      Ending.adds_ok ((name, .value value) :: rest)
    intro s log
    simpa only [evalOperands] using hall s log
  | (name, .function apply) :: rest => by
    have hall := (evalOperands_logged rest).andThen fun rest =>
      Ending.adds_ok ((name, .function apply) :: rest)
    intro s log
    simpa only [evalOperands] using hall s log

end

/-! ## The end of a run and its calls -/

/-- Started from `s`, the run of a program without a limit hands the interpreter these calls, in
this order, ends with this answer, and leaves the interpreter in the state `t`. -/
def RunsTo (p : Program) (s : σ) (calls : List Instruction) (answer : Option (Except Interrupt Value))
    (t : σ) : Prop :=
  (p.run (fun _ => recording answers) none (s, [])).ending = (answer, t, calls)

variable {answers}

theorem runsTo_iff {p : Program} {s t : σ} {calls : List Instruction}
    {answer : Option (Except Interrupt Value)} :
    p.RunsTo answers s calls answer t ↔
      p.eval (recording answers) (s, []) = (answer, t, calls) := by
  rw [RunsTo, run_eq_eval]

theorem exists_runsTo (answers : Answers σ) (p : Program) (s : σ) :
    ∃ calls answer t, p.RunsTo answers s calls answer t := by
  rcases hend : (p.run (fun _ => recording answers) none (s, [])).ending with ⟨answer, t, calls⟩
  exact ⟨calls, answer, t, hend⟩

namespace RunsTo

variable {p first body : Program} {next handler : Continuation} {s s' t t' : σ}
  {calls calls' : List Instruction} {answer answer' : Option (Except Interrupt Value)}

theorem unique (h : p.RunsTo answers s calls answer t) (h' : p.RunsTo answers s calls' answer' t') :
    calls = calls' ∧ answer = answer' ∧ t = t' := by
  have heq := h.symm.trans h'
  simp only [Prod.mk.injEq] at heq
  exact ⟨heq.2.2, heq.1, heq.2.1⟩

/-- The calls of a run come after what was recorded before. -/
theorem eval_eq (h : p.RunsTo answers s calls answer t) (log : List Instruction) :
    p.eval (recording answers) (s, log) = (answer, t, log ++ calls) := by
  rw [eval_logged answers p s log, runsTo_iff.1 h]
  rfl

/-- The run that keeps its calls is the run that does not. -/
theorem calls_eq (h : p.RunsTo answers s calls answer t) :
    p.calls (fun _ => answers) none s = calls :=
  congrArg (·.2.2) h

/-- The run that records nothing ends in the same way. -/
theorem eval_unrecorded (h : p.RunsTo answers s calls answer t) : p.eval answers s = (answer, t) := by
  have hforget : (p.run (fun _ => recording answers) none (s, [])).forget =
      p.run (fun _ => answers) none s := Machine.run_forget _
  rw [← run_eq_eval, ← hforget]
  exact congrArg (fun ending => (ending.1, ending.2.1)) h

/-- What every answer keeps, the run keeps, if it ends with one. -/
theorem keeps {P : σ → Prop} {result : Except Interrupt Value}
    (hanswers : ∀ i s reply s', P s → answers i s = (some reply, s') → P s')
    (h : p.RunsTo answers s calls (some result) t) (hs : P s) : P t := by
  have hrun : (p.run (fun _ => answers) none s).Keeps P fun _ => True :=
    p.run_keeps (fun _ => hanswers) (fun _ _ _ _ _ _ => trivial) hs
  have hending := (run_eq_eval answers p s).trans h.eval_unrecorded
  have hstate : (p.run (fun _ => answers) none s).state = t := congrArg Prod.snd hending
  have hanswer : (p.run (fun _ => answers) none s).outcome.answer = some result :=
    congrArg Prod.fst hending
  unfold Halt.Keeps at hrun
  rw [hstate] at hrun
  split at hrun
  · rename_i hunanswered
    rw [hunanswered] at hanswer
    cases hanswer
  · exact hrun

theorem ofPure (answers : Answers σ) (value : Value) (s : σ) :
    (Program.pure value).RunsTo answers s [] (some (.ok value)) s := by
  rw [runsTo_iff, Program.eval]

theorem ofThrow (answers : Answers σ) (payload : Value) (s : σ) :
    (Program.throw payload).RunsTo answers s [] (some (.error (.raised payload))) s := by
  rw [runsTo_iff, Program.eval]

/-- What continues a value runs after the program that yields it. -/
theorem bind {value : Value} (hfirst : first.RunsTo answers s calls (some (.ok value)) s')
    (hnext : (next value).RunsTo answers s' calls' answer t) :
    (first.bind next).RunsTo answers s (calls ++ calls') answer t := by
  rw [runsTo_iff, Program.eval, runsTo_iff.1 hfirst, Ending.andThen_ok]
  exact hnext.eval_eq calls

/-- Without a value, nothing continues. -/
theorem bind_of_fails (hfirst : first.RunsTo answers s calls answer t)
    (hfails : ∀ value, answer ≠ some (.ok value)) (next : Continuation) :
    (first.bind next).RunsTo answers s calls answer t := by
  rw [runsTo_iff, Program.eval, runsTo_iff.1 hfirst]
  rcases answer with _ | _ | value
  · rfl
  · rfl
  · exact absurd rfl (hfails value)

/-- A handler runs after the body that raises a payload. -/
theorem attempt {payload : Value}
    (hbody : body.RunsTo answers s calls (some (.error (.raised payload))) s')
    (hhandler : (handler payload).RunsTo answers s' calls' answer t) :
    (body.attempt handler).RunsTo answers s (calls ++ calls') answer t := by
  rw [runsTo_iff, Program.eval, runsTo_iff.1 hbody, Ending.rescue_raised]
  exact hhandler.eval_eq calls

/-- Without a raised payload, a handler does nothing. -/
theorem attempt_of_not_raised (hbody : body.RunsTo answers s calls answer t)
    (hraised : ∀ payload, answer ≠ some (.error (.raised payload))) (handler : Continuation) :
    (body.attempt handler).RunsTo answers s calls answer t := by
  rw [runsTo_iff, Program.eval, runsTo_iff.1 hbody]
  rcases answer with _ | (payload | _) | _
  · rfl
  · exact absurd rfl (hraised payload)
  · rfl
  · rfl

end RunsTo

end Program

/-! ## The calls of a run with a limit -/

namespace Machine

variable {σ : Type} {interpreter : Interpreter σ} {limit : Option Nat}

theorem resume_state (value : Value) (pending : Pending) (guards : List Guard) (steps : Nat) (s : σ) :
    (resume value pending guards steps s).state = s := by
  unfold resume
  split
  · rfl
  · split <;> rfl

theorem raise_state (payload : Value) (guards : List Guard) (steps : Nat) (s : σ) :
    (raise payload guards steps s).state = s := by
  cases guards <;> rfl

theorem perform_log (i : Instruction) (pending : Pending) (guards : List Guard) (steps : Nat)
    (s : σ × List Instruction) :
    s.2 <+: (perform interpreter.recorded i pending guards steps s).state.2 := by
  unfold perform
  split
  · exact List.prefix_rfl
  · simp only [Interpreter.recorded, Program.recording]
    rcases interpreter steps i s.1 with ⟨_ | (payload | failure) | value, s'⟩
    · exact List.prefix_append _ _
    · simp only [raise_state]
      exact List.prefix_append _ _
    · exact List.prefix_append _ _
    · simp only [resume_state]
      exact List.prefix_append _ _

/-- A step keeps what was recorded. -/
theorem step_log (m : Machine (σ × List Instruction)) :
    m.state.2 <+: (step interpreter.recorded limit m).state.2 := by
  unfold step
  split
  · exact List.prefix_rfl
  · dsimp only
    cases m.program.split.1 with
    | pure value => rw [dispatch, resume_state]
    | throw payload => rw [dispatch, raise_state]
    | perform i => exact perform_log i _ _ _ _
    | attempt body handler => exact List.prefix_rfl

/-- A run keeps what was recorded. -/
theorem run_log (m : Machine (σ × List Instruction)) :
    m.state.2 <+: (run interpreter.recorded limit m).state.2 := by
  induction m using (wellFounded_next interpreter.recorded limit).induction with
  | _ m ih =>
    have hstep : m.state.2 <+: (step interpreter.recorded limit m).state.2 := step_log m
    rw [run_eq]
    cases hnext : step interpreter.recorded limit m with
    | halt stop => rwa [hnext] at hstep
    | next m' =>
      rw [hnext] at hstep
      exact hstep.trans (ih m' hnext)

end Machine

namespace Program

variable {σ : Type}

/-- A run with a limit hands the interpreter the first of the instructions that the run without one
hands to it. -/
theorem calls_prefix (interpreter : Interpreter σ) (limit : Option Nat) (p : Program) (s : σ) :
    p.calls interpreter limit s <+: p.calls interpreter none s := by
  cases limit with
  | none => exact List.prefix_rfl
  | some n =>
    by_cases hle : (p.run interpreter none s).steps ≤ n
    · rw [(run_eq_of_steps_le hle).2]
    · rw [(run_eq_of_lt_steps (Nat.lt_of_not_le hle)).2]
      have hwhole := Machine.run_of_advance interpreter.recorded none n
        { program := p, state := (s, []) }
      unfold Unfolding.callsWithin calls run
      rw [hwhole]
      cases Machine.advance interpreter.recorded none n { program := p, state := (s, []) } with
      | halt stop => exact List.prefix_rfl
      | next m => exact Machine.run_log m

end Program

end EffectGraph
