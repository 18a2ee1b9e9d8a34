import EffectGraph.Program.Pending
import EffectGraph.Program.Induction

/-!
# Running programs

A program is run by a machine that never nests: it keeps the program to go on with, the
continuations that wait for its value, and the handlers of the bodies it is inside of, each with the
continuations that wait for that body. One step deals with the head of the program:

* a value goes to the first continuation that waits; if none does, the innermost body is finished
  and its value goes to the continuations saved with it;
* a raised payload goes to the innermost handler, and what the handler gives runs in front of the
  continuations saved with it;
* an instruction first has its program operands run, in declaration order, and is then handed to the
  interpreter;
* a body is entered with no continuation waiting inside it.

A program operand and the end of a body each take one step of their own. With a limit, the step that
would exceed it ends the run instead.

The machine runs programs of any type that can be split (`Unfolding`). They may unfold for ever, and
then a run goes on for ever unless it has a limit: `Machine.advance` follows it for some steps, and
`Machine.Ends` says how it ends if it does. A `Program` is well-founded: everything that the machine
puts back to work is a part of a program that it took apart, so every run of it ends
(`Machine.wellFounded_next`), and `Machine.run` iterates steps on that ground.
-/

namespace EffectGraph

/-- Answers instructions, given the number of the step, and changes its own state. No answer means
that the interpreter does not come back; the state is then what it had got to. -/
abbrev Interpreter (σ : Type) (I : Type := Instruction) :=
  Nat → I → σ → Option (Except Interrupt Value) × σ

/-- How a run ends. -/
inductive Outcome where
  /-- The program finished with a value. -/
  | yielded (value : Value)
  /-- No handler was left for a raised payload. -/
  | raised (payload : Value)
  /-- The interpreter aborted. -/
  | aborted (failure : Failure)
  /-- The step limit was reached. -/
  | exhausted (limit : Nat)
  /-- The interpreter does not come back. -/
  | unanswered

/-- The value of a run, or why there is none. There is neither if the interpreter does not come
back. -/
def Outcome.result : Outcome → Option (Except Failure Value)
  | .yielded value => some (.ok value)
  | .raised payload => some (.error (.uncaught payload))
  | .aborted failure => some (.error failure)
  | .exhausted limit => some (.error (.stepLimit limit))
  | .unanswered => none

/-- The end of a run. -/
structure Halt (σ : Type) where
  /-- How the run ended. -/
  outcome : Outcome
  /-- The number of the last step. -/
  steps : Nat
  /-- The state that the interpreter was left in. -/
  state : σ

/-- A handler for the body being run, and what waits for the value of the body. -/
structure Guard (P : Type := Program) where
  /-- The program for a raised payload. -/
  handler : Continuation P
  /-- What waits for the value of the body or of the handler's program. -/
  saved : Pending P

/-- A program on its way. -/
structure Machine (σ : Type) (P : Type := Program) where
  /-- The program to go on with. -/
  program : P
  /-- What waits for its value. -/
  pending : Pending P := .empty
  /-- The handlers around it, the innermost first. -/
  guards : List (Guard P) := []
  /-- The number of steps taken. -/
  steps : Nat := 0
  /-- The state of the interpreter. -/
  state : σ

/-- What one step leads to. -/
inductive Transition (σ : Type) (P : Type := Program) where
  /-- The machine goes on. -/
  | next (machine : Machine σ P)
  /-- The run ends. -/
  | halt (halt : Halt σ)

namespace Machine

section

variable {σ P I : Type} [Unfolding P I]

/-- Hands a value to what waits for it. -/
def resume (value : Value) (pending : Pending P) (guards : List (Guard P)) (steps : Nat) (state : σ) :
    Transition σ P :=
  match pending.pop with
  | some (k, pending) => .next ⟨k value, pending, guards, steps, state⟩
  | none =>
    match guards with
    | guard :: guards => .next ⟨Unfolding.finished value, guard.saved, guards, steps, state⟩
    | [] => .halt ⟨.yielded value, steps, state⟩

/-- Hands a raised payload to the innermost handler. -/
def raise (payload : Value) (guards : List (Guard P)) (steps : Nat) (state : σ) : Transition σ P :=
  match guards with
  | guard :: guards => .next ⟨guard.handler payload, guard.saved, guards, steps, state⟩
  | [] => .halt ⟨.raised payload, steps, state⟩

/-- Performs an instruction: runs its first program operand, or hands it to the interpreter. -/
def perform (interpreter : Interpreter σ I) (i : I) (pending : Pending P) (guards : List (Guard P))
    (steps : Nat) (state : σ) : Transition σ P :=
  match Unfolding.pending? i with
  | some (operand, fill) =>
    .next ⟨operand, pending.push [fun value => Unfolding.single (fill value)], guards, steps, state⟩
  | none =>
    match interpreter steps i state with
    | (none, state) => .halt ⟨.unanswered, steps, state⟩
    | (some (.ok value), state) => resume value pending guards steps state
    | (some (.error (.raised payload)), state) => raise payload guards steps state
    | (some (.error (.aborted failure)), state) => .halt ⟨.aborted failure, steps, state⟩

/-- Deals with a head for whose value the given continuations wait. -/
def dispatch (interpreter : Interpreter σ I) (head : Program.Head P I) (pending : Pending P)
    (guards : List (Guard P)) (steps : Nat) (state : σ) : Transition σ P :=
  match head with
  | .pure value => resume value pending guards steps state
  | .throw payload => raise payload guards steps state
  | .perform i => perform interpreter i pending guards steps state
  | .attempt body handler => .next ⟨body, .empty, ⟨handler, pending⟩ :: guards, steps, state⟩

/-- The limit, if a step of this number exceeds it. -/
def exceeded? (limit : Option Nat) (step : Nat) : Option Nat := limit.filter (· < step)

/-- One step. -/
def step (interpreter : Interpreter σ I) (limit : Option Nat) (m : Machine σ P) : Transition σ P :=
  match exceeded? limit (m.steps + 1) with
  | some limit => .halt ⟨.exhausted limit, m.steps + 1, m.state⟩
  | none =>
    let (head, queue) := Unfolding.split m.program
    dispatch interpreter head (m.pending.push queue) m.guards (m.steps + 1) m.state

/-- A step leads from the second machine to the first. -/
def Next (interpreter : Interpreter σ I) (limit : Option Nat) (m' m : Machine σ P) : Prop :=
  step interpreter limit m = .next m'

/-- Where so many steps lead. A run that has ended takes no more of them. -/
def advance (interpreter : Interpreter σ I) (limit : Option Nat) : Nat → Machine σ P → Transition σ P
  | 0, m => .next m
  | n + 1, m =>
    match step interpreter limit m with
    | .halt stop => .halt stop
    | .next m' => advance interpreter limit n m'

/-- The run ends, and this is its end. -/
def Ends (interpreter : Interpreter σ I) (limit : Option Nat) (m : Machine σ P) (stop : Halt σ) :
    Prop :=
  ∃ n, advance interpreter limit n m = .halt stop

end

variable {σ : Type}

/-! ## Every run of a well-founded program ends -/

section

variable {interpreter : Interpreter σ} {limit : Option Nat}

/-- Handing any value to these continuations under these handlers leads to a machine that halts. -/
def Resumable (interpreter : Interpreter σ) (limit : Option Nat) (pending : Pending)
    (guards : List Guard) : Prop :=
  ∀ value steps state m, resume value pending guards steps state = .next m →
    Acc (Next interpreter limit) m

/-- Raising any payload under these handlers leads to a machine that halts. -/
def Raisable (interpreter : Interpreter σ) (limit : Option Nat) (guards : List Guard) : Prop :=
  ∀ payload steps state m, raise payload guards steps state = .next m →
    Acc (Next interpreter limit) m

/-- The program halts wherever it is put: in front of any queue, under any handlers, provided that
what waits there halts for every value and every payload. -/
def Halts (interpreter : Interpreter σ) (limit : Option Nat) (p : Program) : Prop :=
  ∀ (queue : List Continuation) (program : Program) (pending : Pending) (guards : List Guard),
    program.split = p.splitOnto queue →
    (∀ waiting : Pending, waiting.toList = queue ++ pending.toList →
      Resumable interpreter limit waiting guards) →
    Raisable interpreter limit guards →
    ∀ steps state, Acc (Next interpreter limit) ⟨program, pending, guards, steps, state⟩

/-- A machine halts if every machine that the dispatch of its head leads to does. -/
theorem acc_of_dispatch {m : Machine σ}
    (h : ∀ m', dispatch interpreter m.program.split.1 (m.pending.push m.program.split.2) m.guards
      (m.steps + 1) m.state = .next m' → Acc (Next interpreter limit) m') :
    Acc (Next interpreter limit) m := by
  refine Acc.intro m fun m' hm => h m' ?_
  unfold Next step at hm
  split at hm
  · simp at hm
  · exact hm

theorem Halts.of_pure (value : Value) : Halts interpreter limit (.pure value) := by
  intro queue program pending guards hsplit hresume _ steps state
  refine acc_of_dispatch fun m' hm => ?_
  simp only [hsplit, Program.splitOnto, dispatch] at hm
  exact hresume _ (by simp) _ _ _ _ hm

theorem Halts.of_throw (payload : Value) : Halts interpreter limit (.throw payload) := by
  intro queue program pending guards hsplit _ hraise steps state
  refine acc_of_dispatch fun m' hm => ?_
  simp only [hsplit, Program.splitOnto, dispatch] at hm
  exact hraise _ _ _ _ hm

/-- A program that halts anywhere halts in front of exactly the continuations that wait. -/
theorem Halts.run {p : Program} (h : Halts interpreter limit p) {pending : Pending}
    {guards : List Guard} (hresume : ∀ waiting : Pending, waiting.toList = pending.toList →
      Resumable interpreter limit waiting guards)
    (hraise : Raisable interpreter limit guards) (steps : Nat) (state : σ) :
    Acc (Next interpreter limit) ⟨p, pending, guards, steps, state⟩ :=
  h [] p pending guards rfl hresume hraise steps state

/-- A continuation in front of others resumes if everything it gives halts. -/
theorem resumable_cons {k : Continuation} {rest : List Continuation} {guards : List Guard}
    (hk : ∀ value, Halts interpreter limit (k value))
    (hrest : ∀ waiting : Pending, waiting.toList = rest →
      Resumable interpreter limit waiting guards)
    (hraise : Raisable interpreter limit guards) (waiting : Pending)
    (hwaiting : waiting.toList = k :: rest) : Resumable interpreter limit waiting guards := by
  intro value steps state m hm
  unfold resume at hm
  cases hpop : waiting.pop with
  | none => simp [Pending.pop_eq_none.1 hpop] at hwaiting
  | some popped =>
    obtain ⟨k', after⟩ := popped
    have hlist := Pending.pop_eq_some hpop
    rw [hwaiting] at hlist
    obtain ⟨rfl, rfl⟩ := List.cons.inj hlist
    simp only [hpop, Transition.next.injEq] at hm
    subst hm
    exact (hk value).run hrest hraise steps state

theorem Halts.of_bind {first : Program} {next : Continuation}
    (hfirst : Halts interpreter limit first)
    (hnext : ∀ value, Halts interpreter limit (next value)) :
    Halts interpreter limit (.bind first next) := by
  intro queue program pending guards hsplit hresume hraise steps state
  exact hfirst (next :: queue) program pending guards hsplit
    (resumable_cons hnext hresume hraise) hraise steps state

/-- A finished body halts if what was saved with it does. -/
theorem resumable_guard {guard : Guard} {guards : List Guard}
    (hsaved : ∀ waiting : Pending, waiting.toList = guard.saved.toList →
      Resumable interpreter limit waiting guards)
    (hraise : Raisable interpreter limit guards) (waiting : Pending)
    (hwaiting : waiting.toList = []) : Resumable interpreter limit waiting (guard :: guards) := by
  intro value steps state m hm
  simp only [resume, Pending.pop_eq_none.2 hwaiting, Transition.next.injEq] at hm
  subst hm
  exact (Halts.of_pure value).run hsaved hraise steps state

theorem Halts.of_attempt {body : Program} {handler : Continuation}
    (hbody : Halts interpreter limit body)
    (hhandler : ∀ payload, Halts interpreter limit (handler payload)) :
    Halts interpreter limit (.attempt body handler) := by
  intro queue program pending guards hsplit hresume hraise steps state
  refine acc_of_dispatch fun m' hm => ?_
  simp only [hsplit, Program.splitOnto, dispatch, Transition.next.injEq] at hm
  subst hm
  have hsaved : ∀ waiting : Pending, waiting.toList = (pending.push queue).toList →
      Resumable interpreter limit waiting guards := by
    simpa using hresume
  refine hbody [] body .empty _ rfl (resumable_guard hsaved hraise) ?_ _ _
  intro payload steps state m hm
  simp only [raise, Transition.next.injEq] at hm
  subst hm
  exact (hhandler payload).run hsaved hraise steps state

/-- An instruction without programs among its operands is answered at once. -/
theorem Halts.of_answered {i : Instruction} (hp : i.pending? = none) :
    Halts interpreter limit (.perform i) := by
  intro queue program pending guards hsplit hresume hraise steps state
  refine acc_of_dispatch fun m' hm => ?_
  simp only [hsplit, Program.splitOnto, dispatch, perform, Unfolding.pending?, hp] at hm
  split at hm
  · simp at hm
  · exact hresume _ (by simp) _ _ _ _ hm
  · exact hraise _ _ _ _ hm
  · simp at hm

theorem Halts.of_perform {i : Instruction}
    (hprograms : ∀ p ∈ i.programs, Halts interpreter limit p) :
    Halts interpreter limit (.perform i) := by
  obtain ⟨programs, hi⟩ : ∃ programs, i.programs = programs := ⟨_, rfl⟩
  induction programs generalizing i with
  | nil =>
    cases hp : i.pending? with
    | some found =>
      obtain ⟨operand, fill⟩ := found
      obtain ⟨rest, h, _⟩ := Instruction.programs_of_pending hp
      simp [hi] at h
    | none => exact .of_answered hp
  | cons p rest ih =>
    cases hp : i.pending? with
    | none => exact .of_answered hp
    | some found =>
      obtain ⟨operand, fill⟩ := found
      obtain ⟨rest', h, hfill⟩ := Instruction.programs_of_pending hp
      rw [hi] at h
      obtain ⟨rfl, rfl⟩ := List.cons.inj h
      intro queue program pending guards hsplit hresume hraise steps state
      refine acc_of_dispatch fun m' hm => ?_
      simp only [hsplit, Program.splitOnto, dispatch, perform, Unfolding.pending?, hp,
        Transition.next.injEq] at hm
      subst hm
      refine (hprograms p (by simp [hi])).run (fun waiting hw => ?_) hraise _ _
      refine resumable_cons (fun value => ?_) hresume hraise waiting
        (hw.trans (by simp only [Pending.toList_push, List.cons_append, List.nil_append]; rfl))
      exact ih (fun q hq => hprograms q (by rw [hfill] at hq; simp [hi, hq])) (hfill value)

/-- Every program halts. -/
theorem halts (p : Program) : Halts interpreter limit p := by
  induction p using Program.induction with
  | ofPure value => exact .of_pure value
  | ofThrow payload => exact .of_throw payload
  | ofPerform i ih => exact .of_perform ih
  | ofBind first next hfirst hnext => exact .of_bind hfirst hnext
  | ofAttempt body handler hbody hhandler => exact .of_attempt hbody hhandler

/-- Raising halts if the continuations saved with each guard resume under the guards after it. -/
theorem raisable_cons {guard : Guard} {guards : List Guard}
    (hsaved : ∀ waiting : Pending, Resumable interpreter limit waiting guards)
    (hraise : Raisable interpreter limit guards) :
    Raisable interpreter limit (guard :: guards) := by
  intro payload steps state m hm
  simp only [raise, Transition.next.injEq] at hm
  subst hm
  exact (halts (guard.handler payload)).run (fun waiting _ => hsaved waiting) hraise steps state

/-- All continuations resume if none at all do, under the same handlers. -/
theorem resumable_of_nil {guards : List Guard} (hraise : Raisable interpreter limit guards)
    (hnil : ∀ waiting : Pending, waiting.toList = [] → Resumable interpreter limit waiting guards)
    (waiting : Pending) : Resumable interpreter limit waiting guards := by
  obtain ⟨ks, hks⟩ : ∃ ks, waiting.toList = ks := ⟨_, rfl⟩
  induction ks generalizing waiting with
  | nil => exact hnil waiting hks
  | cons k rest ih =>
    exact resumable_cons (fun value => halts (k value)) (fun waiting h => ih waiting h) hraise
      waiting hks

theorem resumable_and_raisable (guards : List Guard) :
    (∀ waiting, Resumable interpreter limit waiting guards) ∧
      Raisable interpreter limit guards := by
  induction guards with
  | nil =>
    have hraise : Raisable interpreter limit [] := by
      intro payload steps state m hm
      simp [raise] at hm
    refine ⟨resumable_of_nil hraise fun waiting h value steps state m hm => ?_, hraise⟩
    simp [resume, Pending.pop_eq_none.2 h] at hm
  | cons guard guards ih =>
    have hraise : Raisable interpreter limit (guard :: guards) := raisable_cons ih.1 ih.2
    exact ⟨resumable_of_nil hraise (resumable_guard (fun waiting _ => ih.1 waiting) ih.2), hraise⟩

end

/-- No run of a well-founded program goes on for ever. -/
theorem wellFounded_next (interpreter : Interpreter σ) (limit : Option Nat) :
    WellFounded (Next (P := Program) interpreter limit) := by
  refine ⟨fun m => ?_⟩
  have h : (∀ waiting, Resumable interpreter limit waiting m.guards) ∧
      Raisable interpreter limit m.guards := resumable_and_raisable m.guards
  exact (halts m.program).run (fun waiting _ => h.1 waiting) h.2 m.steps m.state

/-- Steps until the run ends. -/
def run (interpreter : Interpreter σ) (limit : Option Nat) (m : Machine σ) : Halt σ :=
  match _h : step interpreter limit m with
  | .halt halt => halt
  | .next m' => run interpreter limit m'
termination_by (wellFounded_next interpreter limit).wrap m
decreasing_by exact _h

/-- A run is a step and the run from there. -/
theorem run_eq (interpreter : Interpreter σ) (limit : Option Nat) (m : Machine σ) :
    run interpreter limit m =
      match step interpreter limit m with
      | .halt halt => halt
      | .next m' => run interpreter limit m' := by
  rw [run]
  split <;> simp_all

end Machine

/-- Runs a program from its start. -/
def Program.run {σ : Type} (interpreter : Interpreter σ) (limit : Option Nat) (program : Program)
    (state : σ) : Halt σ :=
  Machine.run interpreter limit { program, state }

end EffectGraph
