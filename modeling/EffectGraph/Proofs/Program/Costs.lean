import Mathlib
import EffectGraph.Proofs.Program.Contexts
import EffectGraph.Proofs.Program.Limits

/-!
# What a run costs

`Program.cost` counts the steps of a program by recursion on the program, where `Program.eval` says
what the program does: a value and a payload take one step, entering a body and leaving it take one
step each, and so do turning to a program operand and handing an instruction over. A bind takes none
of its own.

The machine takes exactly these steps (`Program.steps_run`). What it has still to take in some state
is `Machine.remaining`: the steps of its program, of what waits for the value, and of what the guards
bring, from the inside out. Each step takes one off (`Machine.remaining_step`). So the cost of a run
is the sum of the costs of its parts, however these are nested (`Program.costs_add`).
-/

namespace EffectGraph

namespace Ending

variable {σ α β : Type}

/-- What is to be counted after a value. -/
def ifValue (ending : Ending σ α) (count : α → σ → Nat) : Nat :=
  match ending with
  | (some (.ok a), s) => count a s
  | _ => 0

/-- What is to be counted after a raised payload. -/
def ifRaised (ending : Ending σ α) (count : Value → σ → Nat) : Nat :=
  match ending with
  | (some (.error (.raised payload)), s) => count payload s
  | _ => 0

theorem ifValue_andThen (ending : Ending σ α) (next : α → σ → Ending σ β) (count : β → σ → Nat) :
    (ending.andThen next).ifValue count = ending.ifValue fun a s => (next a s).ifValue count := by
  rcases ending with ⟨_ | _ | _, _⟩ <;> rfl

theorem ifValue_add (ending : Ending σ α) (count more : α → σ → Nat) :
    (ending.ifValue fun a s => count a s + more a s) = ending.ifValue count + ending.ifValue more := by
  rcases ending with ⟨_ | _ | _, _⟩ <;> rfl

end Ending

namespace Program

variable {σ : Type} (answers : Answers σ)

mutual

/-- The steps that a program takes. -/
def cost : Program → σ → Nat
  | .pure _, _ => 1
  | .throw _, _ => 1
  | .perform ⟨_, operands, _⟩, s => costOperands operands s
  | .bind first next, s =>
    cost first s + (first.eval answers s).ifValue fun value => cost (next value)
  | .attempt body handler, s =>
    1 + cost body s + (body.eval answers s).ifValue (fun _ _ => 1) +
      (body.eval answers s).ifRaised fun payload => cost (handler payload)

/-- The steps that an instruction with these operands takes. -/
def costOperands : List (String × Operand) → σ → Nat
  | [], _ => 1
  | (_, .program p) :: rest, s =>
    1 + cost p s + (p.eval answers s).ifValue fun _ => costOperands rest
  | (_, .value _) :: rest, s => costOperands rest s
  | (_, .function _) :: rest, s => costOperands rest s

end

/-- The steps that feeding a value through continuations takes. -/
def costFeed : List Continuation → Value → σ → Nat
  | [], _, _ => 0
  | k :: rest, value, s => cost answers (k value) s + ((k value).eval answers s).ifValue (costFeed rest)

/-- The steps that a head takes. -/
def Head.cost : Head → σ → Nat
  | .pure value => Program.cost answers (.pure value)
  | .throw payload => Program.cost answers (.throw payload)
  | .perform instruction => Program.cost answers (.perform instruction)
  | .attempt body handler => Program.cost answers (.attempt body handler)

theorem costFeed_append (front back : List Continuation) (value : Value) (s : σ) :
    costFeed answers (front ++ back) value s =
      costFeed answers front value s + (feed answers front value s).ifValue (costFeed answers back) := by
  induction front generalizing value s with
  | nil => simp only [List.nil_append, costFeed, feed, Nat.zero_add, Ending.ifValue]
  | cons k rest ih =>
    simp only [List.cons_append, costFeed, feed, Ending.ifValue_andThen]
    rw [funext fun v => funext fun s => ih v s, Ending.ifValue_add]
    omega

/-- Taking a program apart takes no steps: all are those of the head and of its queue. -/
theorem cost_splitOnto (queue : List Continuation) (p : Program) (s : σ) :
    (p.splitOnto queue).1.cost answers s +
        ((p.splitOnto queue).1.eval answers s).ifValue (costFeed answers (p.splitOnto queue).2) =
      cost answers p s + (p.eval answers s).ifValue (costFeed answers queue) := by
  induction p using Program.induction generalizing queue s with
  | ofPure value => rfl
  | ofThrow payload => rfl
  | ofPerform i _ => rfl
  | ofAttempt body handler _ _ => rfl
  | ofBind first next ih _ =>
    have hfeed : costFeed answers (next :: queue) = fun value s =>
        cost answers (next value) s + ((next value).eval answers s).ifValue (costFeed answers queue) :=
      rfl
    rw [splitOnto, ih, hfeed, Ending.ifValue_add]
    simp only [cost, eval, Ending.ifValue_andThen]
    omega

theorem ifValue_costFeed_nil (ending : Ending σ Value) : ending.ifValue (costFeed answers []) = 0 := by
  rcases ending with ⟨_ | _ | _, _⟩ <;> rfl

/-- The steps of a program are those of its head and of its queue. -/
theorem cost_split (p : Program) (s : σ) :
    p.split.1.cost answers s + (p.split.1.eval answers s).ifValue (costFeed answers p.split.2) =
      cost answers p s := by
  have hcost := cost_splitOnto answers [] p s
  rwa [ifValue_costFeed_nil, Nat.add_zero] at hcost

end Program

/-- An instruction that waits for no program has none among its operands. -/
theorem Instruction.programs_of_pending?_eq_none {i : Instruction} (h : i.pending? = none) :
    i.programs = [] := by
  have hnone := findPending?_eq_none h
  unfold programs
  generalize i.operands = operands at hnone
  induction operands with
  | nil => rfl
  | cons operand rest ih =>
    obtain ⟨name, operand⟩ := operand
    cases operand with
    | program p => simp [findPending?] at hnone
    | value v => exact ih (by simpa [findPending?] using hnone)
    | function f => exact ih (by simpa [findPending?] using hnone)

namespace Program

variable {σ : Type} (answers : Answers σ)

/-! ## Operands -/

theorem costOperands_of_findPending?_eq_none {operands : List (String × Operand)}
    (h : Instruction.findPending? operands = none) (s : σ) : costOperands answers operands s = 1 := by
  induction operands with
  | nil => simp only [costOperands]
  | cons operand rest ih =>
    obtain ⟨name, operand⟩ := operand
    cases operand with
    | program p => simp [Instruction.findPending?] at h
    | value v =>
      have hrest := ih (by simpa [Instruction.findPending?] using h)
      simpa only [costOperands] using hrest
    | function f =>
      have hrest := ih (by simpa [Instruction.findPending?] using h)
      simpa only [costOperands] using hrest

/-- The first program among some operands takes a step to turn to it, and then its own. -/
theorem costOperands_append {front back : List (String × Operand)} {name : String} {p : Program}
    (h : Instruction.programsOf front = []) (s : σ) :
    costOperands answers (front ++ (name, .program p) :: back) s =
      1 + cost answers p s + (p.eval answers s).ifValue fun value =>
        costOperands answers (front ++ (name, .value value) :: back) := by
  induction front with
  | nil => simp only [List.nil_append, costOperands]
  | cons operand rest ih =>
    obtain ⟨name', operand⟩ := operand
    cases operand with
    | program q => simp [Instruction.programsOf] at h
    | value v => simp only [List.cons_append, costOperands, ih h]
    | function f => simp only [List.cons_append, costOperands, ih h]

theorem cost_perform_of_pending?_eq_none {i : Instruction} (h : i.pending? = none) (s : σ) :
    cost answers (.perform i) s = 1 := by
  obtain ⟨tag, operands, result⟩ := i
  have hnone := Instruction.findPending?_eq_none h
  rw [cost, costOperands_of_findPending?_eq_none answers hnone]

theorem cost_perform_of_pending?_eq_some {i : Instruction} {p : Program}
    {fill : Value → Instruction} (h : i.pending? = some (p, fill)) (s : σ) :
    cost answers (.perform i) s =
      1 + cost answers p s + (p.eval answers s).ifValue fun value =>
        cost answers (.perform (fill value)) := by
  obtain ⟨tag, operands, result⟩ := i
  obtain ⟨front, name, back, rfl, hfront, rfl⟩ := Instruction.operands_of_pending h
  simp only [cost, costOperands_append answers hfront]

end Program

/-! ## Machines -/

namespace Machine

variable {σ : Type} (answers : Answers σ)

/-- The steps that guards bring, from the inside out. A value takes one to leave the body; a raised
payload goes to the handler at once. -/
def costGuards : List Guard → Ending σ Value → Nat
  | [], _ => 0
  | guard :: guards, ending =>
    (ending.ifValue fun value s => 1 + Program.costFeed answers guard.saved.toList value s) +
      (ending.ifRaised fun payload s => (guard.handler payload).cost answers s +
        ((guard.handler payload).eval answers s).ifValue
          (Program.costFeed answers guard.saved.toList)) +
      costGuards guards
        ((ending.rescue fun payload s => (guard.handler payload).eval answers s).andThen
          (Program.feed answers guard.saved.toList))

/-- The steps that are still to come when a program, what waits for its value and some guards are left.
-/
def costFrom (program : Program) (waiting : List Continuation) (guards : List Guard) (s : σ) : Nat :=
  program.cost answers s + (program.eval answers s).ifValue (Program.costFeed answers waiting) +
    costGuards answers guards
      ((program.eval answers s).andThen (Program.feed answers waiting))

/-- The steps that a machine has still to take. -/
def remaining (m : Machine σ) : Nat :=
  costFrom answers m.program m.pending.toList m.guards m.state

end Machine

/-- The steps that are still to come after a transition. -/
def Transition.remaining {σ : Type} (answers : Answers σ) : Transition σ → Nat
  | .next m => m.remaining answers
  | .halt _ => 0

namespace Machine

variable {σ : Type} (answers : Answers σ)

theorem costGuards_none (guards : List Guard) (s : σ) : costGuards answers guards (none, s) = 0 := by
  induction guards with
  | nil => rfl
  | cons guard guards ih =>
    simp only [costGuards, Ending.ifValue, Ending.ifRaised, Nat.zero_add]
    exact ih

theorem costGuards_aborted (guards : List Guard) (failure : Failure) (s : σ) :
    costGuards answers guards (some (.error (.aborted failure)), s) = 0 := by
  induction guards with
  | nil => rfl
  | cons guard guards ih =>
    simp only [costGuards, Ending.ifValue, Ending.ifRaised, Nat.zero_add]
    exact ih

/-- After a value there are the steps of what waits, and then of the guards. -/
theorem remaining_resume (value : Value) (pending : Pending) (guards : List Guard) (steps : Nat)
    (s : σ) :
    (resume value pending guards steps s).remaining answers =
      Program.costFeed answers pending.toList value s +
        costGuards answers guards (Program.feed answers pending.toList value s) := by
  unfold resume
  cases hpop : pending.pop with
  | some popped =>
    obtain ⟨k, rest⟩ := popped
    rw [Pending.pop_eq_some hpop]
    rfl
  | none =>
    rw [Pending.pop_eq_none.1 hpop]
    cases guards with
    | nil => rfl
    | cons guard guards =>
      simp only [Transition.remaining, remaining, costFrom, costGuards, Unfolding.finished,
        Program.cost, Program.eval, Program.costFeed, Program.feed, Ending.ifValue, Ending.ifRaised, Ending.andThen_ok,
        Ending.rescue_ok]
      omega

/-- After a raised payload there are the steps of the guards. -/
theorem remaining_raise (payload : Value) (guards : List Guard) (steps : Nat) (s : σ) :
    (raise payload guards steps s).remaining answers =
      costGuards answers guards (some (.error (.raised payload)), s) := by
  cases guards with
  | nil => rfl
  | cons guard guards =>
    simp only [raise, Transition.remaining, remaining, costFrom, costGuards, Ending.ifValue,
      Ending.ifRaised, Ending.rescue_raised]
    omega

/-- Performing an instruction takes one of its steps. -/
theorem remaining_perform (i : Instruction) (pending : Pending) (guards : List Guard) (steps : Nat)
    (s : σ) :
    (perform (fun _ => answers) i pending guards steps s).remaining answers + 1 =
      costFrom answers (.perform i) pending.toList guards s := by
  unfold costFrom
  simp only [perform, Unfolding.pending?, Unfolding.single]
  cases hp : i.pending? with
  | some found =>
    obtain ⟨operand, fill⟩ := found
    have hwaiting : Program.costFeed answers
        ((fun value => Program.perform (fill value)) :: pending.toList) = fun value s =>
          (Program.perform (fill value)).cost answers s +
            ((Program.perform (fill value)).eval answers s).ifValue
              (Program.costFeed answers pending.toList) := rfl
    rw [Program.cost_perform_of_pending?_eq_some answers hp,
      Program.eval_perform_of_pending?_eq_some answers hp]
    simp only [Transition.remaining, remaining, costFrom, Pending.toList_push, List.cons_append,
      List.nil_append, hwaiting, Ending.ifValue_add, Ending.ifValue_andThen, Ending.andThen_assoc]
    simp only [Program.feed]
    omega
  | none =>
    rw [Program.cost_perform_of_pending?_eq_none answers hp,
      Program.eval_perform_of_pending?_eq_none answers hp]
    dsimp only
    -- The interpreter does not come back, or answers with a value, a payload or a failure.
    rcases answers i s with ⟨_ | (payload | failure) | value, s'⟩
    · simp only [Transition.remaining, Ending.ifValue, Ending.andThen_none, costGuards_none]
    · have hraised := remaining_raise answers payload guards steps s'
      simp only [Ending.ifValue, Ending.andThen_error]
      omega
    · simp only [Transition.remaining, Ending.ifValue, Ending.andThen_error, costGuards_aborted]
    · have hresumed := remaining_resume answers value pending guards steps s'
      simp only [Ending.ifValue, Ending.andThen_ok]
      omega

/-- Each step takes one off. -/
theorem remaining_step (m : Machine σ) :
    (step (fun _ => answers) none m).remaining answers + 1 = m.remaining answers := by
  obtain ⟨program, pending, guards, steps, s⟩ := m
  -- The steps are those of the head, of all that waits for it by then, and of the guards.
  have hsplit : program.split.1.cost answers s +
        (program.split.1.eval answers s).ifValue
          (Program.costFeed answers (pending.push program.split.2).toList) =
      program.cost answers s +
        (program.eval answers s).ifValue (Program.costFeed answers pending.toList) := by
    have hfeed : Program.costFeed answers (program.split.2 ++ pending.toList) = fun value s =>
        Program.costFeed answers program.split.2 value s +
          (Program.feed answers program.split.2 value s).ifValue
            (Program.costFeed answers pending.toList) := by
      funext value s
      exact Program.costFeed_append answers _ _ value s
    rw [Pending.toList_push, hfeed, Ending.ifValue_add, ← Nat.add_assoc,
      Program.cost_split, ← Program.eval_split answers program s, Ending.ifValue_andThen]
  have hends := Program.eval_split_push answers program pending s
  simp only [step, exceeded?, Option.filter_none, Unfolding.split, remaining, costFrom, ← hsplit, ← hends]
  generalize program.split.1 = head
  generalize pending.push program.split.2 = waiting
  cases head with
  | pure value =>
    have hresumed := remaining_resume answers value waiting guards (steps + 1) s
    simp only [dispatch, Program.Head.cost, Program.Head.eval, Program.cost, Program.eval,
      Ending.ifValue, Ending.andThen_ok]
    omega
  | throw payload =>
    have hraised := remaining_raise answers payload guards (steps + 1) s
    simp only [dispatch, Program.Head.cost, Program.Head.eval, Program.cost, Program.eval,
      Ending.ifValue, Ending.andThen_error]
    omega
  | perform i => exact remaining_perform answers i waiting guards (steps + 1) s
  | attempt body handler =>
    simp only [dispatch, Transition.remaining, remaining, costFrom, costGuards, Program.Head.cost,
      Program.Head.eval, Program.cost, Program.eval, Pending.toList_empty, Program.feed_nil,
      Ending.andThen_pure]
    -- Either the body yields, or it raises a payload, or nothing more is to come.
    rcases body.eval answers s with ⟨_ | (payload | failure) | value, s'⟩ <;>
      simp only [Ending.ifValue, Ending.ifRaised, Program.costFeed, Ending.rescue_none,
        Ending.rescue_raised, Ending.rescue_aborted, Ending.rescue_ok] <;>
      omega

/-- A run takes the steps that the machine has still to take. -/
theorem run_steps (m : Machine σ) :
    (run (fun _ => answers) none m).steps = m.steps + m.remaining answers := by
  induction m using (wellFounded_next (fun _ => answers) none).induction with
  | _ m ih =>
    have hremaining := remaining_step answers m
    rw [run_eq]
    cases hstep : step (fun _ => answers) none m with
    | halt stop =>
      have hsteps := steps_of_halt hstep
      rw [hstep] at hremaining
      simp only [Transition.remaining] at hremaining
      dsimp only
      omega
    | next m' =>
      have hsteps := steps_of_next hstep
      have hrest := ih m' hstep
      rw [hstep] at hremaining
      simp only [Transition.remaining] at hremaining
      dsimp only
      omega

end Machine

namespace Program

variable {σ : Type} (answers : Answers σ)

/-- A run of a program takes the steps of the program. -/
theorem steps_run (p : Program) (s : σ) :
    (p.run (fun _ => answers) none s).steps = p.cost answers s := by
  rw [run, Machine.run_steps]
  simp only [Machine.remaining, Machine.costFrom, Machine.costGuards, Pending.toList_empty,
    ifValue_costFeed_nil, Nat.zero_add, Nat.add_zero]

/-! ## Costs in contexts -/

/-- An operand can be replaced by one with the same evaluation and the same cost. -/
theorem costOperands_congr {p q : Program} (heval : p.eval answers = q.eval answers)
    (hcost : p.cost answers = q.cost answers) (front : List (String × Operand)) (name : String)
    (back : List (String × Operand)) :
    costOperands answers (front ++ (name, .program p) :: back) =
      costOperands answers (front ++ (name, .program q) :: back) := by
  funext s
  induction front generalizing s with
  | nil => simp only [List.nil_append, costOperands, heval, hcost]
  | cons operand rest ih =>
    obtain ⟨name', operand⟩ := operand
    cases operand with
    | program r =>
      have hrest := funext ih
      simp only [List.cons_append, costOperands, hrest]
    | value v => simpa only [List.cons_append, costOperands] using ih s
    | function f => simpa only [List.cons_append, costOperands] using ih s

/-- Programs with the same evaluations and the same costs cost the same in every context. -/
theorem cost_fill_congr {ι : Type} {p q : ι → Program}
    (heval : ∀ name, (p name).eval answers = (q name).eval answers)
    (hcost : ∀ name, (p name).cost answers = (q name).cost answers) (context : Context ι) :
    (context.fill p).cost answers = (context.fill q).cost answers := by
  have hparts (part : Context ι) := Context.eval_fill_congr answers heval part
  induction context with
  | hole name => exact hcost name
  | whole program => rfl
  | bind first next ihfirst ihnext =>
    funext s
    simp only [Context.fill, cost, hparts, ihfirst, ihnext]
  | attempt body handler ihbody ihhandler =>
    funext s
    simp only [Context.fill, cost, hparts, ihbody, ihhandler]
  | operand tag front name inner back result ih =>
    funext s
    simp only [Context.fill, cost, costOperands_congr answers (hparts inner) ih]

theorem cost_bind_bind (p : Program) (next last : Continuation) :
    cost answers ((p.bind next).bind last) =
      cost answers (p.bind fun value => (next value).bind last) := by
  funext s
  simp only [cost, eval, Ending.ifValue_andThen, Ending.ifValue_add]
  omega

/-! ## Runs -/

/-- The number of steps that the run of a program takes without a limit. -/
def iterations (p : Program) (s : σ) : Nat := (p.run (fun _ => answers) none s).steps

/-- The run of a program without a limit ends like this, and leaves the interpreter in this state. -/
def EndsWith (p : Program) (s : σ) (outcome : Outcome) (s' : σ) : Prop :=
  (p.run (fun _ => answers) none s).outcome = outcome ∧
    (p.run (fun _ => answers) none s).state = s'

variable {answers} {p : Program} {s s' : σ}

theorem EndsWith.eval_eq {outcome : Outcome} (h : EndsWith answers p s outcome s') :
    p.eval answers s = (outcome.answer, s') := by
  rw [← run_eq_eval, ← h.1, ← h.2]
  rfl

/-- If the run does not yield, then neither does the evaluation. -/
theorem ifValue_of_not_yielded (h : ∀ value s', ¬ EndsWith answers p s (.yielded value) s')
    (count : Value → σ → Nat) : (p.eval answers s).ifValue count = 0 := by
  rw [← run_eq_eval]
  unfold Halt.ending
  cases houtcome : (p.run (fun _ => answers) none s).outcome with
  | yielded value => exact absurd ⟨houtcome, rfl⟩ (h value _)
  | raised | aborted | exhausted | unanswered => rfl

/-- Programs are run one after another, each from the state in which the one before has left the
interpreter, and all yield. Each takes as many steps as the list of numbers says. -/
inductive YieldInTurn (answers : Answers σ) : List Program → σ → List Nat → σ → Prop where
  | nil (s : σ) : YieldInTurn answers [] s [] s
  | cons {p : Program} {rest : List Program} {s s₁ s' : σ} {value : Value} {counts : List Nat}
    (hfirst : EndsWith answers p s (.yielded value) s₁)
    (hrest : YieldInTurn answers rest s₁ counts s') :
    YieldInTurn answers (p :: rest) s (p.iterations answers s :: counts) s'

/-- An instruction whose program operands all yield takes a step for itself, and for each of them one
more than the operand takes. -/
theorem cost_perform_of_yieldInTurn {programs : List Program} {counts : List Nat}
    (h : YieldInTurn answers programs s counts s') :
    ∀ {i : Instruction}, i.programs = programs →
      cost answers (.perform i) s = 1 + (counts.map (1 + ·)).sum := by
  induction h with
  | nil s =>
    intro i hi
    have hpending : i.pending? = none := by
      cases hp : i.pending? with
      | none => rfl
      | some found =>
        obtain ⟨rest, hprograms, -⟩ := Instruction.programs_of_pending hp
        rw [hi] at hprograms
        cases hprograms
    rw [cost_perform_of_pending?_eq_none answers hpending]
    rfl
  | @cons p rest s s₁ s' value counts hfirst _ ih =>
    intro i hi
    cases hp : i.pending? with
    | none =>
      -- An instruction with a program operand has a first one.
      have hempty := Instruction.programs_of_pending?_eq_none hp
      rw [hi] at hempty
      cases hempty
    | some found =>
      obtain ⟨operand, fill⟩ := found
      obtain ⟨rest', hprograms, hfill⟩ := Instruction.programs_of_pending hp
      rw [hi] at hprograms
      obtain ⟨rfl, rfl⟩ := List.cons.inj hprograms
      have hothers := ih (hfill value)
      rw [cost_perform_of_pending?_eq_some answers hp, hfirst.eval_eq]
      simp only [Outcome.answer, Ending.ifValue, hothers, List.map_cons, List.sum_cons, iterations,
        steps_run]
      omega

/-- **Costs add up.** Whatever the interpreter, a run without a limit takes one step for a value and
one for a payload. For an instruction whose program operands all yield it takes one step, and for each
of the operands one more than the operand takes. For a bind it takes the steps of the first program
and, if that yields, the steps of what the continuation gives for its value. For a body that yields
under a handler it takes two steps more than the body takes, and for one that raises a payload one
more than the body and what the handler gives take together. So it makes no difference in any context
how programs that continue each other are grouped. -/
theorem costs_add (answers : Answers σ) :
    (∀ value s, iterations answers (.pure value) s = 1) ∧
    (∀ payload s, iterations answers (.throw payload) s = 1) ∧
    (∀ i s counts s', YieldInTurn answers i.programs s counts s' →
      iterations answers (.perform i) s = 1 + (counts.map (1 + ·)).sum) ∧
    (∀ first next s value s', EndsWith answers first s (.yielded value) s' →
      iterations answers (first.bind next) s =
        iterations answers first s + iterations answers (next value) s') ∧
    (∀ first next s, (∀ value s', ¬ EndsWith answers first s (.yielded value) s') →
      iterations answers (first.bind next) s = iterations answers first s) ∧
    (∀ body handler s value s', EndsWith answers body s (.yielded value) s' →
      iterations answers (body.attempt handler) s = iterations answers body s + 2) ∧
    (∀ body handler s payload s', EndsWith answers body s (.raised payload) s' →
      iterations answers (body.attempt handler) s =
        1 + iterations answers body s + iterations answers (handler payload) s') ∧
    ∀ (ι : Type) (context : Context ι) (p : ι → Program) (next last : ι → Continuation) s,
      iterations answers (context.fill fun i => ((p i).bind (next i)).bind (last i)) s =
        iterations answers
          (context.fill fun i => (p i).bind fun value => (next i value).bind (last i)) s := by
  simp only [iterations, steps_run]
  refine ⟨fun value s => ?_, fun payload s => ?_, fun i s counts s' hoperands => ?_,
    fun first next s value s' hyields => ?_, fun first next s hnot => ?_,
    fun body handler s value s' hyields => ?_, fun body handler s payload s' hraises => ?_,
    fun ι context p next last s => ?_⟩
  · rw [cost]
  · rw [cost]
  · exact cost_perform_of_yieldInTurn hoperands rfl
  · rw [cost, hyields.eval_eq]
    rfl
  · rw [cost, ifValue_of_not_yielded hnot, Nat.add_zero]
  · rw [cost, hyields.eval_eq]
    simp only [Outcome.answer, Ending.ifValue, Ending.ifRaised]
    omega
  · rw [cost, hraises.eval_eq]
    simp only [Outcome.answer, Ending.ifValue, Ending.ifRaised]
    omega
  · rw [cost_fill_congr answers (fun i => eval_bind_bind answers (p i) (next i) (last i))
      (fun i => cost_bind_bind answers (p i) (next i) (last i)) context]

/-- Counts the instructions that it is handed. -/
private def counting : Answers Nat := fun _ n => (some (.ok .unit), n + 1)

private def tick : Program := .perform ⟨"tick", [], .unit⟩

/-- An instruction with two program operands, the second of which continues a value with another
instruction. -/
private def nested : Instruction :=
  ⟨"nested", [("first", .program tick), ("second", .program ((Program.pure .unit).bind fun _ => tick))],
    .unit⟩

/-- The operands take one step and two, so the instruction takes six; and in the body of an attempt it
takes two more. -/
theorem costs_add_nested :
    YieldInTurn counting nested.programs 0 [1, 2] 2 ∧
      EndsWith counting (.perform nested) 0 (.yielded .unit) 3 ∧
        iterations counting (.perform nested) 0 = 6 ∧
          iterations counting ((Program.perform nested).attempt .throw) 0 = 8 := by
  have hfirst : EndsWith counting tick 0 (.yielded .unit) 1 := ⟨by cbv, by cbv⟩
  have hsecond : EndsWith counting ((Program.pure .unit).bind fun _ => tick) 1 (.yielded .unit) 2 :=
    ⟨by cbv, by cbv⟩
  have hcounts : [1, 2] = [iterations counting tick 0,
      iterations counting ((Program.pure .unit).bind fun _ => tick) 1] := by cbv
  have hoperands : YieldInTurn counting nested.programs 0 [1, 2] 2 := by
    rw [hcounts]
    exact .cons hfirst (.cons hsecond (.nil 2))
  have hwhole : EndsWith counting (.perform nested) 0 (.yielded .unit) 3 := ⟨by cbv, by cbv⟩
  obtain ⟨-, -, hperform, -, -, hattempt, -, -⟩ := costs_add counting
  have hsteps : iterations counting (.perform nested) 0 = 6 := hperform _ _ _ _ hoperands
  exact ⟨hoperands, hwhole, hsteps, by rw [hattempt _ _ _ _ _ hwhole, hsteps]⟩

end Program

end EffectGraph
