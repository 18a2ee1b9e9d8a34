import EffectGraph.Program.Machine

/-!
# What programs mean

`Program.eval` says what a program does by recursion on the program, with no stack and no queue: the
parts of a program are evaluated where they stand, and the interpreter is called when an instruction
has values in place of all its programs. It is the reference that runs of the machine are compared
with.

An evaluation ends with a value or with an interrupt, in some state of the interpreter, or with
neither if the interpreter does not come back. `Ending.andThen` goes on after a value and
`Ending.rescue` after a raised payload. Everything else is the business of neither.
-/

namespace EffectGraph

/-- Answers instructions and changes its own state, whatever the number of the step. -/
abbrev Answers (σ : Type) (I : Type := Instruction) := I → σ → Option (Except Interrupt Value) × σ

/-- How an evaluation ends, if the interpreter comes back, and the state in which it leaves the
interpreter. -/
abbrev Ending (σ α : Type) := Option (Except Interrupt α) × σ

namespace Ending

variable {σ α β γ : Type}

/-- Goes on with the value of an evaluation. -/
def andThen (ending : Ending σ α) (next : α → σ → Ending σ β) : Ending σ β :=
  match ending with
  | (none, s) => (none, s)
  | (some (.ok a), s) => next a s
  | (some (.error interrupt), s) => (some (.error interrupt), s)

/-- Goes on with the payload that an evaluation raised. -/
def rescue (ending : Ending σ α) (handler : Value → σ → Ending σ α) : Ending σ α :=
  match ending with
  | (some (.error (.raised payload)), s) => handler payload s
  | other => other

@[simp] theorem andThen_none (s : σ) (next : α → σ → Ending σ β) :
    andThen (none, s) next = (none, s) := rfl

@[simp] theorem andThen_ok (a : α) (s : σ) (next : α → σ → Ending σ β) :
    andThen (some (.ok a), s) next = next a s := rfl

@[simp] theorem andThen_error (interrupt : Interrupt) (s : σ) (next : α → σ → Ending σ β) :
    andThen (some (.error interrupt), s) next = (some (.error interrupt), s) := rfl

@[simp] theorem rescue_none (s : σ) (handler : Value → σ → Ending σ α) :
    rescue (none, s) handler = (none, s) := rfl

@[simp] theorem rescue_ok (a : α) (s : σ) (handler : Value → σ → Ending σ α) :
    rescue (some (.ok a), s) handler = (some (.ok a), s) := rfl

@[simp] theorem rescue_raised (payload : Value) (s : σ) (handler : Value → σ → Ending σ α) :
    rescue (some (.error (.raised payload)), s) handler = handler payload s := rfl

@[simp] theorem rescue_aborted (failure : Failure) (s : σ) (handler : Value → σ → Ending σ α) :
    rescue (some (.error (.aborted failure)), s) handler = (some (.error (.aborted failure)), s) :=
  rfl

theorem andThen_assoc (ending : Ending σ α) (f : α → σ → Ending σ β) (g : β → σ → Ending σ γ) :
    (ending.andThen f).andThen g = ending.andThen fun a s => (f a s).andThen g := by
  rcases ending with ⟨_ | _ | _, _⟩ <;> rfl

theorem andThen_pure (ending : Ending σ α) :
    (ending.andThen fun a s => (some (.ok a), s)) = ending := by
  rcases ending with ⟨_ | _ | _, _⟩ <;> rfl

end Ending

namespace Program

variable {σ : Type} (answers : Answers σ)

mutual

/-- Evaluates a program. -/
def eval : Program → σ → Ending σ Value
  | .pure value, s => (some (.ok value), s)
  | .throw payload, s => (some (.error (.raised payload)), s)
  | .perform ⟨tag, operands, result⟩, s =>
    (evalOperands operands s).andThen fun operands s => answers ⟨tag, operands, result⟩ s
  | .bind first next, s => (eval first s).andThen fun value s => eval (next value) s
  | .attempt body handler, s => (eval body s).rescue fun payload s => eval (handler payload) s

/-- Evaluates the programs among some operands in their order and puts their values in their place.
-/
def evalOperands : List (String × Operand) → σ → Ending σ (List (String × Operand))
  | [], s => (some (.ok []), s)
  | (name, .program p) :: rest, s =>
    (eval p s).andThen fun value s =>
      (evalOperands rest s).andThen fun rest s => (some (.ok ((name, .value value) :: rest)), s)
  | (name, .value value) :: rest, s =>
    (evalOperands rest s).andThen fun rest s => (some (.ok ((name, .value value) :: rest)), s)
  | (name, .function apply) :: rest, s =>
    (evalOperands rest s).andThen fun rest s => (some (.ok ((name, .function apply) :: rest)), s)

end

/-- Feeds a value through continuations, one after another. -/
def feed : List Continuation → Value → σ → Ending σ Value
  | [], value, s => (some (.ok value), s)
  | k :: rest, value, s => (eval answers (k value) s).andThen (feed rest)

/-- Evaluates a head. -/
def Head.eval : Head → σ → Ending σ Value
  | .pure value => Program.eval answers (.pure value)
  | .throw payload => Program.eval answers (.throw payload)
  | .perform instruction => Program.eval answers (.perform instruction)
  | .attempt body handler => Program.eval answers (.attempt body handler)

theorem feed_nil : feed answers [] = fun value s => (some (.ok value), s) := by
  funext value s
  rfl

/-- Continuations in front of others are fed first. -/
theorem feed_append (front back : List Continuation) (value : Value) (s : σ) :
    feed answers (front ++ back) value s =
      (feed answers front value s).andThen (feed answers back) := by
  induction front generalizing value s with
  | nil => rfl
  | cons k rest ih =>
    simp only [List.cons_append, feed, Ending.andThen_assoc]
    congr 1
    funext value s
    exact ih value s

/-- Taking a program apart keeps its meaning: the value of the head goes through the queue. -/
theorem eval_splitOnto (queue : List Continuation) (p : Program) (s : σ) :
    ((p.splitOnto queue).1.eval answers s).andThen (feed answers (p.splitOnto queue).2) =
      (eval answers p s).andThen (feed answers queue) := by
  induction p using Program.induction generalizing queue s with
  | ofPure value => rfl
  | ofThrow payload => rfl
  | ofPerform i _ => rfl
  | ofAttempt body handler _ _ => rfl
  | ofBind first next ih _ =>
    simp only [splitOnto, ih, eval, Ending.andThen_assoc]
    rfl

/-- The meaning of a program is that of its head, with the value going through its queue. -/
theorem eval_split (p : Program) (s : σ) :
    (p.split.1.eval answers s).andThen (feed answers p.split.2) = eval answers p s := by
  simp only [split, eval_splitOnto, feed_nil, Ending.andThen_pure]

/-- The value of a head goes through its queue and then through all that waits. -/
theorem eval_split_push (p : Program) (pending : Pending) (s : σ) :
    (p.split.1.eval answers s).andThen (feed answers (pending.push p.split.2).toList) =
      (eval answers p s).andThen (feed answers pending.toList) := by
  rw [Pending.toList_push, ← eval_split answers p s, Ending.andThen_assoc]
  congr 1
  funext value s
  exact feed_append answers _ _ value s

/-! ## Operands -/

/-- Operands without a program stay as they are. -/
theorem evalOperands_of_findPending?_eq_none {operands : List (String × Operand)}
    (h : Instruction.findPending? operands = none) (s : σ) :
    evalOperands answers operands s = (some (.ok operands), s) := by
  induction operands with
  | nil => simp only [evalOperands]
  | cons operand rest ih =>
    obtain ⟨name, operand⟩ := operand
    cases operand with
    | program p => simp [Instruction.findPending?] at h
    | value v =>
      have hrest := ih (by simpa [Instruction.findPending?] using h)
      simp only [evalOperands, hrest, Ending.andThen_ok]
    | function f =>
      have hrest := ih (by simpa [Instruction.findPending?] using h)
      simp only [evalOperands, hrest, Ending.andThen_ok]

/-- The first program among some operands can be evaluated ahead of the others. -/
theorem evalOperands_append {front back : List (String × Operand)} {name : String} {p : Program}
    (h : Instruction.programsOf front = []) (s : σ) :
    evalOperands answers (front ++ (name, .program p) :: back) s =
      (eval answers p s).andThen fun value =>
        evalOperands answers (front ++ (name, .value value) :: back) := by
  induction front with
  | nil => simp only [List.nil_append, evalOperands]
  | cons operand rest ih =>
    obtain ⟨name', operand⟩ := operand
    cases operand with
    | program q => simp [Instruction.programsOf] at h
    | value v => simp only [List.cons_append, evalOperands, ih h, Ending.andThen_assoc]
    | function f => simp only [List.cons_append, evalOperands, ih h, Ending.andThen_assoc]

/-- An instruction without programs is handed to the interpreter. -/
theorem eval_perform_of_pending?_eq_none {i : Instruction} (h : i.pending? = none) (s : σ) :
    eval answers (.perform i) s = answers i s := by
  obtain ⟨tag, operands, result⟩ := i
  have hnone := Instruction.findPending?_eq_none h
  simp only [eval, evalOperands_of_findPending?_eq_none answers hnone, Ending.andThen_ok]

/-- An instruction with a program is the program, followed by the instruction with its value. -/
theorem eval_perform_of_pending?_eq_some {i : Instruction} {p : Program}
    {fill : Value → Instruction} (h : i.pending? = some (p, fill)) (s : σ) :
    eval answers (.perform i) s =
      (eval answers p s).andThen fun value => eval answers (.perform (fill value)) := by
  obtain ⟨tag, operands, result⟩ := i
  obtain ⟨front, name, back, rfl, hfront, rfl⟩ := Instruction.operands_of_pending h
  simp only [eval, evalOperands_append answers hfront, Ending.andThen_assoc]

end Program

end EffectGraph
