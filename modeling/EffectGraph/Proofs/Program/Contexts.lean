import EffectGraph.Proofs.Program.Running

/-!
# Programs in contexts

A `Context` is a program with holes. A hole may stand anywhere: in front of continuations, in what a
continuation or a handler gives, in the body of an attempt, and in an operand. Programs with the same
evaluations can take each other's place in every context (`Context.eval_fill_congr`), because the
evaluation of a program is made up of the evaluations of its parts.

Binding is associative, and returning a value is neutral for it, on both sides. The two sides of such
a law have different queues and take different numbers of steps, but no interpreter and no context
can tell them apart (`Program.binds_lawfully_in_context`).
-/

namespace EffectGraph

/-- A program with holes. Each hole has a name, which may depend on the values that are known where
it stands. -/
inductive Context (ι : Type) where
  /-- A hole. -/
  | hole (name : ι)
  /-- A program without holes. -/
  | whole (program : Program)
  /-- The parts of a program that continues another one. -/
  | bind (first : Context ι) (next : Value → Context ι)
  /-- The parts of a program that runs a body under a handler. -/
  | attempt (body : Context ι) (handler : Value → Context ι)
  /-- An operand of an instruction, between others. -/
  | operand (tag : Tag) (front : List (String × Operand)) (name : String) (inner : Context ι)
    (back : List (String × Operand)) (result : Shape)

namespace Context

variable {ι σ : Type}

/-- The program with the holes filled. -/
def fill (programs : ι → Program) : Context ι → Program
  | .hole name => programs name
  | .whole program => program
  | .bind first next => .bind (fill programs first) fun value => fill programs (next value)
  | .attempt body handler =>
    .attempt (fill programs body) fun payload => fill programs (handler payload)
  | .operand tag front name inner back result =>
    .perform ⟨tag, front ++ (name, .program (fill programs inner)) :: back, result⟩

end Context

namespace Program

variable {σ : Type} (answers : Answers σ)

/-- An operand can be replaced by one with the same evaluation. -/
theorem evalOperands_congr {p q : Program} (h : p.eval answers = q.eval answers)
    (front : List (String × Operand)) (name : String) (back : List (String × Operand)) :
    evalOperands answers (front ++ (name, .program p) :: back) =
      evalOperands answers (front ++ (name, .program q) :: back) := by
  funext s
  induction front generalizing s with
  | nil => simp only [List.nil_append, evalOperands, h]
  | cons operand rest ih =>
    obtain ⟨name', operand⟩ := operand
    cases operand with
    | program r => simp only [List.cons_append, evalOperands, ih]
    | value v => simp only [List.cons_append, evalOperands, ih]
    | function f => simp only [List.cons_append, evalOperands, ih]

end Program

/-- Programs with the same evaluations make no difference in any context. -/
theorem Context.eval_fill_congr {ι σ : Type} (answers : Answers σ) {p q : ι → Program}
    (h : ∀ name, (p name).eval answers = (q name).eval answers) (context : Context ι) :
    (context.fill p).eval answers = (context.fill q).eval answers := by
  induction context with
  | hole name => exact h name
  | whole program => rfl
  | bind first next ihfirst ihnext =>
    funext s
    simp only [fill, Program.eval, ihfirst, ihnext]
  | attempt body handler ihbody ihhandler =>
    funext s
    simp only [fill, Program.eval, ihbody, ihhandler]
  | operand tag front name inner back result ih =>
    funext s
    simp only [fill, Program.eval, Program.evalOperands_congr answers ih]

namespace Program

variable {σ : Type}

/-- Without a limit, the runs of the two programs have the same results and leave the interpreter in
the same states; and they hand it the same instructions in the same order. -/
def RunsAs (answers : Answers σ) (p q : Program) : Prop :=
  ∀ s, p.ran answers s = q.ran answers s ∧
    p.ran (recording answers) (s, []) = q.ran (recording answers) (s, [])

/-- Programs that mean the same to every interpreter run alike, wherever they stand. -/
theorem runsAs_in_context {ι : Type} {p q : ι → Program}
    (h : ∀ (τ : Type) (answers : Answers τ) name, (p name).eval answers = (q name).eval answers)
    (context : Context ι) (answers : Answers σ) :
    RunsAs answers (context.fill p) (context.fill q) := by
  have hevaluated {τ : Type} (answers : Answers τ) (s : τ) :
      (context.fill p).ran answers s = (context.fill q).ran answers s := by
    rw [ran_eq_evaluated, ran_eq_evaluated, evaluated, evaluated,
      context.eval_fill_congr answers (h τ answers)]
  exact fun s => ⟨hevaluated answers s, hevaluated (recording answers) (s, [])⟩

/-! ## The laws of binding -/

section

variable (answers : Answers σ)

theorem eval_pure_bind (value : Value) (next : Continuation) :
    eval answers ((pure value).bind next) = eval answers (next value) := by
  funext s
  simp only [eval, Ending.andThen_ok]

theorem eval_bind_pure (p : Program) : eval answers (p.bind .pure) = eval answers p := by
  funext s
  simp only [eval, Ending.andThen_pure]

theorem eval_bind_bind (p : Program) (next last : Continuation) :
    eval answers ((p.bind next).bind last) =
      eval answers (p.bind fun value => (next value).bind last) := by
  funext s
  simp only [eval, Ending.andThen_assoc]

end

/-- **Binding is lawful in every context.** Continuing a value is what the continuation gives for it;
continuing with `pure` changes nothing; and it does not matter how three programs that continue each
other are grouped. In whatever context these programs stand, and whatever the interpreter: the runs
have the same results, and hand the interpreter the same instructions in the same order. -/
theorem binds_lawfully_in_context {ι : Type} (context : Context ι) (answers : Answers σ) :
    (∀ (value : ι → Value) (next : ι → Continuation),
      RunsAs answers (context.fill fun i => (pure (value i)).bind (next i))
        (context.fill fun i => next i (value i))) ∧
    (∀ p : ι → Program,
      RunsAs answers (context.fill fun i => (p i).bind .pure) (context.fill p)) ∧
    ∀ (p : ι → Program) (next last : ι → Continuation),
      RunsAs answers (context.fill fun i => ((p i).bind (next i)).bind (last i))
        (context.fill fun i => (p i).bind fun value => (next i value).bind (last i)) := by
  refine ⟨fun value next => ?_, fun p => ?_, fun p next last => ?_⟩
  · exact runsAs_in_context (fun τ answers i => eval_pure_bind answers _ _) context answers
  · exact runsAs_in_context (fun τ answers i => eval_bind_pure answers _) context answers
  · exact runsAs_in_context (fun τ answers i => eval_bind_bind answers _ _ _) context answers

end Program

end EffectGraph
