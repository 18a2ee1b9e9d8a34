import EffectGraph.Program.Combinators
import EffectGraph.Proofs.Program.Contexts
import EffectGraph.Proofs.Program.Limits

/-!
# Raising and catching

A raised payload passes over everything that continues the program that raised it, until a handler
takes it. The two sides of the laws below have different numbers of guards, and what waits is saved
in different places; still no interpreter and no context can tell them apart
(`Program.raises_lawfully_in_context`).

One of the laws has a condition: a handler makes no difference to a program that raises nothing. What
a program does depends on the state of the interpreter, so the condition is about the states in which
the run gets to the program. `Context.Meets` says which these are.
-/

namespace EffectGraph

namespace Ending

variable {σ α β : Type}

/-- What ends with a value has got through its first part with one. -/
theorem exists_of_andThen_eq_ok {ending : Ending σ α} {next : α → σ → Ending σ β} {b : β} {t : σ}
    (h : ending.andThen next = (some (.ok b), t)) :
    ∃ a s, ending = (some (.ok a), s) ∧ next a s = (some (.ok b), t) := by
  rcases ending with ⟨_ | _ | a, s⟩
  · cases h
  · cases h
  · exact ⟨a, s, rfl, h⟩

theorem rescue_assoc (ending : Ending σ α) (f g : Value → σ → Ending σ α) :
    (ending.rescue f).rescue g = ending.rescue fun payload s => (f payload s).rescue g := by
  rcases ending with ⟨_ | (_ | _) | _, _⟩ <;> rfl

theorem rescue_raise (ending : Ending σ α) :
    (ending.rescue fun payload s => (some (.error (.raised payload)), s)) = ending := by
  rcases ending with ⟨_ | (_ | _) | _, _⟩ <;> rfl

end Ending

namespace Program

variable {σ : Type} (answers : Answers σ)

/-- Evaluated from this state, the program ends with a raised payload. -/
def Raises (p : Program) (s : σ) : Prop :=
  ∃ payload t, p.eval answers s = (some (.error (.raised payload)), t)

/-! ## The laws of raising -/

theorem eval_throw_bind (payload : Value) (next : Continuation) :
    eval answers ((throw payload).bind next) = eval answers (throw payload) := by
  funext s
  simp only [eval, Ending.andThen_error]

theorem eval_attempt_throw (payload : Value) (handler : Continuation) :
    eval answers ((throw payload).attempt handler) = eval answers (handler payload) := by
  funext s
  simp only [eval, Ending.rescue_raised]

theorem eval_attempt_pure (value : Value) (handler : Continuation) :
    eval answers ((pure value).attempt handler) = eval answers (pure value) := by
  funext s
  simp only [eval, Ending.rescue_ok]

theorem eval_attempt_rethrow (p : Program) :
    eval answers (p.attempt .throw) = eval answers p := by
  funext s
  simp only [eval, Ending.rescue_raise]

theorem eval_attempt_attempt (p : Program) (inner outer : Continuation) :
    eval answers ((p.attempt inner).attempt outer) =
      eval answers (p.attempt fun payload => (inner payload).attempt outer) := by
  funext s
  simp only [eval, Ending.rescue_assoc]

theorem eval_mapError_mapError (p : Program) (f g : Value → Value) :
    eval answers ((p.mapError f).mapError g) = eval answers (p.mapError (g ∘ f)) := by
  funext s
  unfold mapError
  rw [eval_attempt_attempt]
  simp only [eval, Ending.rescue_raised, Function.comp_apply]

variable {answers} in
theorem eval_attempt_of_not_raises {p : Program} {s : σ} (h : ¬p.Raises answers s)
    (handler : Continuation) : eval answers (p.attempt handler) s = eval answers p s := by
  rw [eval]
  rcases heval : p.eval answers s with ⟨_ | (payload | failure) | value, t⟩
  · rfl
  · exact absurd ⟨payload, t, heval⟩ h
  · rfl
  · rfl

/-! ## Operands on both sides of a hole -/

/-- Operands are evaluated from the front to the back. -/
theorem evalOperands_append_back (front back : List (String × Operand)) (s : σ) :
    evalOperands answers (front ++ back) s =
      (evalOperands answers front s).andThen fun front s =>
        (evalOperands answers back s).andThen fun back s => (some (.ok (front ++ back)), s) := by
  induction front generalizing s with
  | nil => simp only [List.nil_append, evalOperands, Ending.andThen_ok, Ending.andThen_pure]
  | cons operand rest ih =>
    obtain ⟨name, operand⟩ := operand
    cases operand with
    | program p =>
      simp only [List.cons_append, evalOperands, ih, Ending.andThen_assoc, Ending.andThen_ok]
    | value v =>
      simp only [List.cons_append, evalOperands, ih, Ending.andThen_assoc, Ending.andThen_ok]
    | function f =>
      simp only [List.cons_append, evalOperands, ih, Ending.andThen_assoc, Ending.andThen_ok]

/-! ## Evaluations with a record of the instructions -/

/-- Keeping the instructions changes neither the end nor the state of the interpreter. -/
theorem eval_recording (p : Program) (s : σ × List Instruction) :
    Prod.map id Prod.fst (p.eval (recording answers) s) = p.eval answers s.1 := by
  have hforget : (p.run (fun _ => recording answers) none s).forget =
      p.run (fun _ => answers) none s.1 := Machine.run_forget _
  rw [← run_eq_eval, ← run_eq_eval, ← hforget]
  rfl

theorem eval_of_recording {p : Program} {s t : σ × List Instruction}
    {answer : Option (Except Interrupt Value)}
    (h : p.eval (recording answers) s = (answer, t)) : p.eval answers s.1 = (answer, t.1) := by
  rw [← eval_recording, h]
  rfl

theorem evalOperands_of_recording {operands resolved : List (String × Operand)}
    {s t : σ × List Instruction}
    (h : evalOperands (recording answers) operands s = (some (.ok resolved), t)) :
    evalOperands answers operands s.1 = (some (.ok resolved), t.1) := by
  induction operands generalizing s resolved t with
  | nil =>
    simp only [evalOperands, Prod.mk.injEq, Option.some.injEq, Except.ok.injEq] at h
    obtain ⟨rfl, rfl⟩ := h
    rfl
  | cons operand rest ih =>
    obtain ⟨name, operand⟩ := operand
    cases operand with
    | program p =>
      rw [evalOperands] at h ⊢
      obtain ⟨value, s', hfirst, h⟩ := Ending.exists_of_andThen_eq_ok h
      obtain ⟨rest', t', hrest, h⟩ := Ending.exists_of_andThen_eq_ok h
      cases h
      rw [eval_of_recording answers hfirst, Ending.andThen_ok, ih hrest, Ending.andThen_ok]
    | value v =>
      rw [evalOperands] at h ⊢
      obtain ⟨rest', t', hrest, h⟩ := Ending.exists_of_andThen_eq_ok h
      cases h
      rw [ih hrest, Ending.andThen_ok]
    | function f =>
      rw [evalOperands] at h ⊢
      obtain ⟨rest', t', hrest, h⟩ := Ending.exists_of_andThen_eq_ok h
      cases h
      rw [ih hrest, Ending.andThen_ok]

end Program

/-! ## What a run gets to in a context -/

namespace Context

variable {ι σ : Type} {answers : Answers σ} {programs : ι → Program}

/-- With these programs in the holes of the context, the evaluation from `s` gets to the hole of this
name in the state `t`. -/
inductive Meets (answers : Answers σ) (programs : ι → Program) :
    Context ι → σ → ι → σ → Prop where
  | hole {name : ι} {s : σ} : Meets answers programs (.hole name) s name s
  | bindFirst {first : Context ι} {next : Value → Context ι} {s t : σ} {name : ι}
    (h : Meets answers programs first s name t) :
    Meets answers programs (.bind first next) s name t
  | bindNext {first : Context ι} {next : Value → Context ι} {value : Value} {s s' t : σ} {name : ι}
    (hfirst : (first.fill programs).eval answers s = (some (.ok value), s'))
    (h : Meets answers programs (next value) s' name t) :
    Meets answers programs (.bind first next) s name t
  | attemptBody {body : Context ι} {handler : Value → Context ι} {s t : σ} {name : ι}
    (h : Meets answers programs body s name t) :
    Meets answers programs (.attempt body handler) s name t
  | attemptHandler {body : Context ι} {handler : Value → Context ι} {payload : Value} {s s' t : σ}
    {name : ι} (hbody : (body.fill programs).eval answers s = (some (.error (.raised payload)), s'))
    (h : Meets answers programs (handler payload) s' name t) :
    Meets answers programs (.attempt body handler) s name t
  | operand {tag : Tag} {front resolved : List (String × Operand)} {operandName : String}
    {inner : Context ι} {back : List (String × Operand)} {result : Shape} {s s' t : σ} {name : ι}
    (hfront : Program.evalOperands answers front s = (some (.ok resolved), s'))
    (h : Meets answers programs inner s' name t) :
    Meets answers programs (.operand tag front operandName inner back result) s name t

/-- Programs make no difference in a context if they evaluate alike in the states in which the
evaluation gets to them. -/
theorem eval_fill_congr_met {p q : ι → Program} {context : Context ι} {s : σ}
    (h : ∀ name t, context.Meets answers q s name t →
      (p name).eval answers t = (q name).eval answers t) :
    (context.fill p).eval answers s = (context.fill q).eval answers s := by
  -- The state varies: behind the first part of a context, the rest starts where that part has ended.
  induction context generalizing s with
  | hole name => exact h name s .hole
  | whole program => rfl
  | bind first next ihfirst ihnext =>
    have hfirst := ihfirst fun name t hmet => h name t (.bindFirst hmet)
    simp only [fill, Program.eval, hfirst]
    rcases heval : (first.fill q).eval answers s with ⟨_ | _ | value, s'⟩
    · rfl
    · rfl
    · exact ihnext value fun name t hmet => h name t (.bindNext heval hmet)
  | attempt body handler ihbody ihhandler =>
    have hbody := ihbody fun name t hmet => h name t (.attemptBody hmet)
    simp only [fill, Program.eval, hbody]
    rcases heval : (body.fill q).eval answers s with ⟨_ | (payload | _) | _, s'⟩
    · rfl
    · exact ihhandler payload fun name t hmet => h name t (.attemptHandler heval hmet)
    · rfl
    · rfl
  | operand tag front operandName inner back result ih =>
    simp only [fill, Program.eval, Program.evalOperands_append_back]
    rcases hfront : Program.evalOperands answers front s with ⟨_ | _ | resolved, s'⟩
    · rfl
    · rfl
    · have hinner := ih fun name t hmet => h name t (.operand hfront hmet)
      simp only [Ending.andThen_ok, Program.evalOperands, hinner]

/-- An evaluation that keeps the instructions gets to the same holes in the same states. -/
theorem Meets.of_recording {context : Context ι} {s t : σ × List Instruction} {name : ι}
    (h : context.Meets (Program.recording answers) programs s name t) :
    context.Meets answers programs s.1 name t.1 := by
  induction h with
  | hole => exact .hole
  | bindFirst _ ih => exact .bindFirst ih
  | bindNext hfirst _ ih => exact .bindNext (Program.eval_of_recording answers hfirst) ih
  | attemptBody _ ih => exact .attemptBody ih
  | attemptHandler hbody _ ih => exact .attemptHandler (Program.eval_of_recording answers hbody) ih
  | operand hfront _ ih => exact .operand (Program.evalOperands_of_recording answers hfront) ih

end Context

namespace Program

variable {σ : Type}

/-- Started from this state, the runs of the two programs without a limit have the same result and
leave the interpreter in the same state; and they hand it the same instructions in the same order. -/
def RunsAsFrom (answers : Answers σ) (s : σ) (p q : Program) : Prop :=
  p.ran answers s = q.ran answers s ∧
    p.ran (recording answers) (s, []) = q.ran (recording answers) (s, [])

variable {answers : Answers σ}

theorem ran_congr {p q : Program} {s : σ} (h : p.eval answers s = q.eval answers s) :
    p.ran answers s = q.ran answers s := by
  rw [ran_eq_evaluated, ran_eq_evaluated, evaluated, evaluated, h]

/-- A handler around a program makes no difference if the run gets to the program only where it
raises nothing. -/
theorem runsAsFrom_attempt {ι : Type} {context : Context ι} {p : ι → Program} {s : σ}
    (h : ∀ name t, context.Meets answers p s name t → ¬(p name).Raises answers t)
    (handler : ι → Continuation) :
    RunsAsFrom answers s (context.fill fun i => (p i).attempt (handler i)) (context.fill p) := by
  refine ⟨ran_congr (Context.eval_fill_congr_met ?_), ran_congr (Context.eval_fill_congr_met ?_)⟩
  · intro name t hmet
    exact eval_attempt_of_not_raises (h name t hmet) (handler name)
  · -- A run with a record of the instructions raises only where the run without one does.
    intro name t hmet
    refine eval_attempt_of_not_raises ?_ (handler name)
    rintro ⟨payload, t', hraised⟩
    exact h name t.1 hmet.of_recording ⟨payload, t'.1, eval_of_recording answers hraised⟩

/-- **Raising and catching are lawful in every context.** What continues a raised payload is passed
over; a raised payload goes to the handler around it, and a value does not; a handler that only
raises again changes nothing; two handlers around a program are one handler whose programs run under
the outer one; two changes of the payload are one; recovering is catching whatever the payload; and
a handler changes nothing where the program raises nothing, for example where it aborts. In whatever
context these programs stand, and whatever the interpreter: the runs have the same results, and hand
the interpreter the same instructions in the same order. -/
theorem raises_lawfully_in_context {ι : Type} (context : Context ι) (answers : Answers σ) :
    (∀ (payload : ι → Value) (next : ι → Continuation),
      RunsAs answers (context.fill fun i => (throw (payload i)).bind (next i))
        (context.fill fun i => throw (payload i))) ∧
    (∀ (payload : ι → Value) (handler : ι → Continuation),
      RunsAs answers (context.fill fun i => (throw (payload i)).attempt (handler i))
        (context.fill fun i => handler i (payload i))) ∧
    (∀ (value : ι → Value) (handler : ι → Continuation),
      RunsAs answers (context.fill fun i => (pure (value i)).attempt (handler i))
        (context.fill fun i => pure (value i))) ∧
    (∀ p : ι → Program,
      RunsAs answers (context.fill fun i => (p i).attempt .throw) (context.fill p)) ∧
    (∀ (p : ι → Program) (inner outer : ι → Continuation),
      RunsAs answers (context.fill fun i => ((p i).attempt (inner i)).attempt (outer i))
        (context.fill fun i => (p i).attempt fun payload => (inner i payload).attempt (outer i))) ∧
    (∀ (p : ι → Program) (f g : ι → Value → Value),
      RunsAs answers (context.fill fun i => ((p i).mapError (f i)).mapError (g i))
        (context.fill fun i => (p i).mapError (g i ∘ f i))) ∧
    (∀ p q : ι → Program,
      RunsAs answers (context.fill fun i => (p i).recoverWith (q i))
        (context.fill fun i => (p i).attempt fun _ => q i)) ∧
    ∀ (p : ι → Program) (handler : ι → Continuation) (s : σ),
      (∀ name t, context.Meets answers p s name t → ¬(p name).Raises answers t) →
      RunsAsFrom answers s (context.fill fun i => (p i).attempt (handler i)) (context.fill p) := by
  refine ⟨fun payload next => ?_, fun payload handler => ?_, fun value handler => ?_, fun p => ?_,
    fun p inner outer => ?_, fun p f g => ?_, fun p q s => ⟨rfl, rfl⟩,
    fun p handler s h => runsAsFrom_attempt h handler⟩
  · exact runsAs_in_context (fun τ answers i => eval_throw_bind answers _ _) context answers
  · exact runsAs_in_context (fun τ answers i => eval_attempt_throw answers _ _) context answers
  · exact runsAs_in_context (fun τ answers i => eval_attempt_pure answers _ _) context answers
  · exact runsAs_in_context (fun τ answers i => eval_attempt_rethrow answers _) context answers
  · exact runsAs_in_context (fun τ answers i => eval_attempt_attempt answers _ _ _) context answers
  · exact runsAs_in_context (fun τ answers i => eval_mapError_mapError answers _ _ _) context answers

/-- Counts the instructions, and answers with a failure from the third one on. -/
private def breaking : Answers Nat := fun i n =>
  (some (if n < 2 then .ok .unit else .error (.aborted (.unknownTag i.tag))), n + 1)

private def breakable : Program := .perform ⟨"tick", [], .unit⟩

/-- Twice the same program, one after the other and in the body of an attempt. -/
private def twice : Context Unit :=
  .attempt (.bind (.hole ()) fun _ => .hole ()) fun _ => .whole (.pure .unit)

/-- From the state one, the first of two instructions has an answer and the second one makes the run
abort. A handler around either makes no difference. -/
theorem raises_lawfully_in_context_aborting :
    (∀ name t, twice.Meets breaking (fun _ => breakable) 1 name t → ¬breakable.Raises breaking t) ∧
      RunsAsFrom breaking 1 (twice.fill fun _ => breakable.attempt fun _ => .pure .unit)
        (twice.fill fun _ => breakable) ∧
        (twice.fill fun _ => breakable).ran breaking 1 =
          (some (.error (.unknownTag "tick")), 3) := by
  have hcalm : ∀ t, ¬breakable.Raises breaking t := by
    rintro t ⟨payload, t', hraised⟩
    simp only [breakable, eval, evalOperands, Ending.andThen_ok, breaking, Prod.mk.injEq] at hraised
    split at hraised <;> simp at hraised
  refine ⟨fun name t _ => hcalm t, ?_, ?_⟩
  · exact (raises_lawfully_in_context twice breaking).2.2.2.2.2.2.2 (fun _ => breakable)
      (fun _ _ => .pure .unit) 1 fun name t _ => hcalm t
  · rw [ran_eq_evaluated]
    rfl

end Program

end EffectGraph
