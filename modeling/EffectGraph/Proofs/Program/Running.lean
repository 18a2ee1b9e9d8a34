import EffectGraph.Proofs.Program.Meaning

/-!
# Running a program does what the program means

The machine keeps queues of continuations, a stack of guards that each saved what waits for their
body, and instructions that it puts back to work with one more value in place. `Machine.meaning`
reads such a state as an evaluation: the program, then what waits for its value, then the guards from
the inside out. A step keeps the meaning (`Machine.meaning_step`), so a run ends with it
(`Machine.run_eq_meaning`).
-/

namespace EffectGraph

/-- How a run ended, as an evaluation ends. -/
def Outcome.answer : Outcome → Option (Except Interrupt Value)
  | .yielded value => some (.ok value)
  | .raised payload => some (.error (.raised payload))
  | .aborted failure => some (.error (.aborted failure))
  | .exhausted limit => some (.error (.aborted (.stepLimit limit)))
  | .unanswered => none

/-- A payload that nobody rescued is the failure `uncaught`. -/
theorem Outcome.map_answer (outcome : Outcome) :
    outcome.answer.map (·.mapError Interrupt.toFailure) = outcome.result := by
  cases outcome <;> rfl

namespace Halt

variable {σ : Type}

/-- The end of a run as the end of an evaluation. -/
def ending (halt : Halt σ) : Ending σ Value := (halt.outcome.answer, halt.state)

end Halt

namespace Machine

variable {σ : Type} (answers : Answers σ)

/-- Goes through guards from the inside out: a raised payload goes to the handler, and a value to
what was saved. -/
def unwind : List Guard → Ending σ Value → Ending σ Value
  | [], ending => ending
  | guard :: guards, ending =>
    unwind guards
      ((ending.rescue fun payload s => (guard.handler payload).eval answers s).andThen
        (Program.feed answers guard.saved.toList))

/-- What a machine is about to do. -/
def meaning (m : Machine σ) : Ending σ Value :=
  unwind answers m.guards
    ((m.program.eval answers m.state).andThen (Program.feed answers m.pending.toList))

end Machine

/-- What is about to happen after a step. -/
def Transition.meaning {σ : Type} (answers : Answers σ) : Transition σ → Ending σ Value
  | .next m => m.meaning answers
  | .halt stop => stop.ending

namespace Machine

variable {σ : Type} (answers : Answers σ)

theorem unwind_none (guards : List Guard) (s : σ) :
    unwind answers guards (none, s) = (none, s) := by
  induction guards with
  | nil => rfl
  | cons guard guards ih => exact ih

/-- No guard holds up a failure that is no raised payload. -/
theorem unwind_aborted (guards : List Guard) (failure : Failure) (s : σ) :
    unwind answers guards (some (.error (.aborted failure)), s) =
      (some (.error (.aborted failure)), s) := by
  induction guards with
  | nil => rfl
  | cons guard guards ih => exact ih

/-- A value that is handed on goes through what waits, and then to the guards. -/
theorem meaning_resume (value : Value) (pending : Pending) (guards : List Guard) (steps : Nat)
    (s : σ) :
    (resume value pending guards steps s).meaning answers =
      unwind answers guards (Program.feed answers pending.toList value s) := by
  unfold resume
  cases hpop : pending.pop with
  | some popped =>
    obtain ⟨k, rest⟩ := popped
    rw [Pending.pop_eq_some hpop]
    rfl
  | none =>
    rw [Pending.pop_eq_none.1 hpop]
    cases guards with
    | nil => rfl
    | cons guard guards =>
      simp only [Transition.meaning, meaning, unwind, Unfolding.finished, Program.eval, Program.feed,
        Ending.andThen_ok, Ending.rescue_ok]

/-- A raised payload passes over what waits and goes to the guards. -/
theorem meaning_raise (payload : Value) (guards : List Guard) (steps : Nat) (s : σ) :
    (raise payload guards steps s).meaning answers =
      unwind answers guards (some (.error (.raised payload)), s) := by
  cases guards with
  | nil => rfl
  | cons guard guards => rfl

/-- Performing an instruction keeps its meaning. -/
theorem meaning_perform (i : Instruction) (pending : Pending) (guards : List Guard) (steps : Nat)
    (s : σ) :
    (perform (fun _ => answers) i pending guards steps s).meaning answers =
      unwind answers guards
        (((Program.perform i).eval answers s).andThen (Program.feed answers pending.toList)) := by
  simp only [perform, Unfolding.pending?, Unfolding.single]
  cases hp : i.pending? with
  | some found =>
    obtain ⟨operand, fill⟩ := found
    rw [Program.eval_perform_of_pending?_eq_some answers hp]
    simp only [Transition.meaning, meaning, Pending.toList_push,
      List.cons_append, List.nil_append, Ending.andThen_assoc]
    rfl
  | none =>
    rw [Program.eval_perform_of_pending?_eq_none answers hp]
    simp only
    -- The interpreter does not come back, or answers with a value, a payload or a failure.
    rcases answers i s with ⟨_ | (payload | failure) | value, s'⟩
    · exact (unwind_none answers guards s').symm
    · exact meaning_raise answers payload guards steps s'
    · exact (unwind_aborted answers guards failure s').symm
    · exact meaning_resume answers value pending guards steps s'

/-- A step without a limit keeps the meaning of the machine. -/
theorem meaning_step (m : Machine σ) :
    (step (fun _ => answers) none m).meaning answers = m.meaning answers := by
  obtain ⟨program, pending, guards, steps, s⟩ := m
  have hsplit := Program.eval_split_push answers program pending s
  simp only [step, exceeded?, Option.filter_none, meaning, ← hsplit]
  generalize program.split.1 = head
  generalize pending.push program.split.2 = waiting
  cases head with
  | pure value => exact meaning_resume answers value waiting guards (steps + 1) s
  | throw payload => exact meaning_raise answers payload guards (steps + 1) s
  | perform i => exact meaning_perform answers i waiting guards (steps + 1) s
  | attempt body handler =>
    simp only [dispatch, Transition.meaning, meaning, unwind, Program.Head.eval,
      Program.eval, Pending.toList_empty, Program.feed_nil, Ending.andThen_pure]

/-- A run without a limit ends with the meaning of the machine. -/
theorem run_eq_meaning (m : Machine σ) :
    (run (fun _ => answers) none m).ending = m.meaning answers := by
  induction m using (wellFounded_next (fun _ => answers) none).induction with
  | _ m ih =>
    rw [run_eq, ← meaning_step]
    cases hstep : step (fun _ => answers) none m with
    | halt halt => rfl
    | next m' => exact ih m' hstep

end Machine

namespace Program

variable {σ : Type}

/-- A run of a program from its start ends as its evaluation does. -/
theorem run_eq_eval (answers : Answers σ) (p : Program) (s : σ) :
    (p.run (fun _ => answers) none s).ending = p.eval answers s := by
  rw [run, Machine.run_eq_meaning]
  simp only [Machine.meaning, Machine.unwind, Pending.toList_empty, feed_nil, Ending.andThen_pure]

/-- The interpreter that also keeps the instructions it is handed, the first one first. -/
def recording {I : Type} (answers : Answers σ I) : Answers (σ × List I) I :=
  fun i (s, calls) =>
    let (answer, s) := answers i s
    (answer, s, calls ++ [i])

/-- What a run yields, or why there is nothing, and the state that the interpreter was left in. There
is neither a value nor a failure if the interpreter does not come back. -/
def ran (answers : Answers σ) (p : Program) (s : σ) : Option (Except Failure Value) × σ :=
  let halt := p.run (fun _ => answers) none s
  (halt.outcome.result, halt.state)

/-- What an evaluation yields, or why there is nothing, and the state that the interpreter was left
in. A payload that nobody rescued is the failure `uncaught`. -/
def evaluated (answers : Answers σ) (p : Program) (s : σ) : Option (Except Failure Value) × σ :=
  let (answer, s) := p.eval answers s
  (answer.map (·.mapError Interrupt.toFailure), s)

theorem ran_eq_evaluated (answers : Answers σ) (p : Program) (s : σ) :
    p.ran answers s = p.evaluated answers s := by
  simp only [ran, evaluated, ← run_eq_eval, Halt.ending, Outcome.map_answer]

/-- **Runs are faithful.** Whatever the program and the interpreter, a run without a limit has the
result of the evaluation and leaves the interpreter in the same state; and it hands the interpreter
the same instructions, with the same operands and in the same order. This holds even if the
interpreter does not come back from one of them. -/
theorem run_has_result_and_calls_of_eval (answers : Answers σ) (p : Program) (s : σ) :
    p.ran answers s = p.evaluated answers s ∧
      p.ran (recording answers) (s, []) = p.evaluated (recording answers) (s, []) :=
  ⟨ran_eq_evaluated answers p s, ran_eq_evaluated (recording answers) p (s, [])⟩

end Program

end EffectGraph
