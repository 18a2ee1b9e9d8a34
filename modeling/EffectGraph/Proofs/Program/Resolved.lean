import EffectGraph.Proofs.Program.Calling
import EffectGraph.Proofs.Program.Catching

/-!
# Instructions are handed over resolved

The machine never hands an instruction with a program in it to the interpreter. It takes the programs
out one after another, runs each like any other program while the instruction waits among the
continuations with unit in the place of the program, and puts the value in its place
(`Instruction.pending?_eq`).

`Resolves` says what this comes to: each program among the operands runs once, from the front to the
back, and its value takes its place. `GetsTo` says where a run gets to a program, in whatever operand,
continuation, body or handler it stands, and what it has called before. So every instruction that the
interpreter gets is one that the run got to, resolved, and between the two there are the calls of its
operands and nothing else (`Program.calls_resolved`). An operand without a value ends the run of its
instruction.
-/

namespace EffectGraph

variable {σ : Type}

/-- From the state `s`, each program among the operands runs once, from the front to the back, and
yields the value that takes its place; values and functions stay as they are. The runs hand the
interpreter these calls and leave it in the state `t`. -/
inductive Resolves (answers : Answers σ) : List (String × Operand) → σ → List Instruction →
    List (String × Operand) → σ → Prop where
  | nil {s : σ} : Resolves answers [] s [] [] s
  | value {name : String} {v : Value} {rest resolved : List (String × Operand)} {s t : σ}
    {calls : List Instruction} (hrest : Resolves answers rest s calls resolved t) :
    Resolves answers ((name, .value v) :: rest) s calls ((name, .value v) :: resolved) t
  | function {name : String} {apply : List Value → Program} {rest resolved : List (String × Operand)}
    {s t : σ} {calls : List Instruction} (hrest : Resolves answers rest s calls resolved t) :
    Resolves answers ((name, .function apply) :: rest) s calls ((name, .function apply) :: resolved) t
  | program {name : String} {p : Program} {v : Value} {rest resolved : List (String × Operand)}
    {s s' t : σ} {own calls : List Instruction} (hp : p.RunsTo answers s own (some (.ok v)) s')
    (hrest : Resolves answers rest s' calls resolved t) :
    Resolves answers ((name, .program p) :: rest) s (own ++ calls) ((name, .value v) :: resolved) t

/-- A run of the first program from `s` gets to the second one in the state `t`, after these calls:
the second program then runs as a part of the first. -/
inductive GetsTo (answers : Answers σ) : Program → σ → List Instruction → Program → σ → Prop where
  | self {p : Program} {s : σ} : GetsTo answers p s [] p s
  | bindFirst {first q : Program} {next : Continuation} {s t : σ} {calls : List Instruction}
    (hfirst : GetsTo answers first s calls q t) : GetsTo answers (.bind first next) s calls q t
  | bindNext {first q : Program} {next : Continuation} {value : Value} {s s' t : σ}
    {before calls : List Instruction} (hfirst : first.RunsTo answers s before (some (.ok value)) s')
    (hnext : GetsTo answers (next value) s' calls q t) :
    GetsTo answers (.bind first next) s (before ++ calls) q t
  | attemptBody {body q : Program} {handler : Continuation} {s t : σ} {calls : List Instruction}
    (hbody : GetsTo answers body s calls q t) : GetsTo answers (.attempt body handler) s calls q t
  | attemptHandler {body q : Program} {handler : Continuation} {payload : Value} {s s' t : σ}
    {before calls : List Instruction}
    (hbody : body.RunsTo answers s before (some (.error (.raised payload))) s')
    (hhandler : GetsTo answers (handler payload) s' calls q t) :
    GetsTo answers (.attempt body handler) s (before ++ calls) q t
  | operand {i : Instruction} {front back resolved : List (String × Operand)} {name : String}
    {p q : Program} {s s' t : σ} {before calls : List Instruction}
    (hi : i.operands = front ++ (name, .program p) :: back)
    (hfront : Resolves answers front s before resolved s')
    (hp : GetsTo answers p s' calls q t) : GetsTo answers (.perform i) s (before ++ calls) q t

/-! ## Resolving operands -/

/-- An item of two lists in a row is in the first one or in the second one. -/
theorem item_of_append {α : Type} {a b front back : List α} {x : α}
    (h : a ++ b = front ++ x :: back) :
    (∃ rest, a = front ++ x :: rest) ∨ ∃ lead, front = a ++ lead ∧ b = lead ++ x :: back := by
  rcases List.append_eq_append_iff.1 h with ⟨lead, hfront, hb⟩ | ⟨rest, ha, hx⟩
  · exact .inr ⟨lead, hfront, hb⟩
  · rcases List.cons_eq_append_iff.1 hx with ⟨rfl, hb⟩ | ⟨rest, rfl, -⟩
    · exact .inr ⟨[], by simpa using ha.symm, hb⟩
    · exact .inl ⟨rest, ha⟩

namespace Resolves

variable {answers : Answers σ} {operands resolved : List (String × Operand)} {s t : σ}
  {calls : List Instruction}

theorem names (h : Resolves answers operands s calls resolved t) :
    resolved.map (·.1) = operands.map (·.1) := by
  induction h with
  | nil => rfl
  | value _ ih => simp only [List.map_cons, ih]
  | function _ ih => simp only [List.map_cons, ih]
  | program _ _ ih => simp only [List.map_cons, ih]

theorem isResolved (h : Resolves answers operands s calls resolved t) :
    (resolved.all fun o => !o.2.isProgram) = true := by
  induction h with
  | nil => rfl
  | value _ ih => exact ih
  | function _ ih => exact ih
  | program _ _ ih => exact ih

/-- Operands that resolve are evaluated to what they resolve to, whatever was recorded before. -/
theorem evalOperands_eq (h : Resolves answers operands s calls resolved t)
    (log : List Instruction) : Program.evalOperands (Program.recording answers) operands (s, log) =
      (some (.ok resolved), t, log ++ calls) := by
  induction h generalizing log with
  | nil => simp only [Program.evalOperands, List.append_nil]
  | value _ ih => simp only [Program.evalOperands, ih, Ending.andThen_ok]
  | function _ ih => simp only [Program.evalOperands, ih, Ending.andThen_ok]
  | program hp _ ih =>
    simp only [Program.evalOperands, hp.eval_eq, Ending.andThen_ok, ih, List.append_assoc]

/-- A call that the operands make is made by one of the programs among them, whose front has been
resolved. -/
theorem of_call (h : Resolves answers operands s calls resolved t) {before after : List Instruction}
    {call : Instruction} (hcalls : calls = before ++ call :: after) :
    ∃ front name p back earlier own resolved' u value u' lead rest,
      operands = front ++ (name, .program p) :: back ∧ Resolves answers front s earlier resolved' u ∧
        p.RunsTo answers u own (some (.ok value)) u' ∧ before = earlier ++ lead ∧
          own = lead ++ call :: rest := by
  induction h generalizing before with
  | nil => simp at hcalls
  | value _ ih =>
    obtain ⟨front, name, p, back, earlier, own, resolved', u, value, u', lead, rest, hops, hfront, h⟩ :=
      ih hcalls
    exact ⟨_ :: front, name, p, back, earlier, own, _, u, value, u', lead, rest,
      congrArg (_ :: ·) hops, .value hfront, h⟩
  | function _ ih =>
    obtain ⟨front, name, p, back, earlier, own, resolved', u, value, u', lead, rest, hops, hfront, h⟩ :=
      ih hcalls
    exact ⟨_ :: front, name, p, back, earlier, own, _, u, value, u', lead, rest,
      congrArg (_ :: ·) hops, .function hfront, h⟩
  | program hp _ ih =>
    rcases item_of_append hcalls with ⟨rest, rfl⟩ | ⟨lead, rfl, hrest⟩
    · exact ⟨[], _, _, _, [], _, [], _, _, _, before, rest, rfl, .nil, hp, rfl, rfl⟩
    · obtain ⟨front, name, p, back, earlier, own, resolved', u, value, u', lead', rest, hops, hfront,
        hp', rfl, hown⟩ := ih hrest
      exact ⟨_ :: front, name, p, back, _, own, _, u, value, u', lead', rest,
        congrArg (_ :: ·) hops, .program hp hfront, hp', (List.append_assoc ..).symm, hown⟩

/-- Operands with one among them that has no value do not resolve. -/
theorem not_fails {front back resolved' : List (String × Operand)} {name : String} {p : Program}
    {u u' : σ} {before own : List Instruction} {answer : Option (Except Interrupt Value)}
    (h : Resolves answers operands s calls resolved t)
    (hops : operands = front ++ (name, .program p) :: back)
    (hfront : Resolves answers front s before resolved' u) (hp : p.RunsTo answers u own answer u')
    (hfails : ∀ value, answer ≠ some (.ok value)) : False := by
  have heval := h.evalOperands_eq []
  rw [hops, Program.evalOperands_append_back, hfront.evalOperands_eq, Ending.andThen_ok,
    Program.evalOperands, hp.eval_eq] at heval
  rcases answer with _ | _ | value
  · simp at heval
  · simp at heval
  · exact hfails value rfl

theorem append {back resolved' : List (String × Operand)} {t' : σ} {calls' : List Instruction}
    (hfront : Resolves answers operands s calls resolved t)
    (hback : Resolves answers back t calls' resolved' t') :
    Resolves answers (operands ++ back) s (calls ++ calls') (resolved ++ resolved') t' := by
  induction hfront with
  | nil => exact hback
  | value _ ih => exact .value (ih hback)
  | function _ ih => exact .function (ih hback)
  | program hp _ ih =>
    rw [List.append_assoc]
    exact .program hp (ih hback)

end Resolves

/-- Operands resolve, or one of them has no value while those in front of it resolve. -/
theorem resolves_or_fails (answers : Answers σ) (operands : List (String × Operand)) (s : σ) :
    (∃ calls resolved t, Resolves answers operands s calls resolved t) ∨
      ∃ front name p back before resolved u calls answer t,
        operands = front ++ (name, .program p) :: back ∧
          Resolves answers front s before resolved u ∧ p.RunsTo answers u calls answer t ∧
            ∀ value, answer ≠ some (.ok value) := by
  induction operands generalizing s with
  | nil => exact .inl ⟨[], [], s, .nil⟩
  | cons operand rest ih =>
    obtain ⟨name, operand⟩ := operand
    -- An operand without a run of its own leaves everything to the rest.
    have hunchanged (hcons : ∀ {rest resolved : List (String × Operand)} {s t : σ}
        {calls : List Instruction}, Resolves answers rest s calls resolved t →
          Resolves answers ((name, operand) :: rest) s calls ((name, operand) :: resolved) t) :
        (∃ calls resolved t, Resolves answers ((name, operand) :: rest) s calls resolved t) ∨
          ∃ front name' p back before resolved u calls answer t,
            (name, operand) :: rest = front ++ (name', .program p) :: back ∧
              Resolves answers front s before resolved u ∧ p.RunsTo answers u calls answer t ∧
                ∀ value, answer ≠ some (.ok value) := by
      rcases ih s with ⟨calls, resolved, t, h⟩ |
        ⟨front, name', p, back, before, resolved, u, calls, answer, t, hops, hfront, h⟩
      · exact .inl ⟨_, _, _, hcons h⟩
      · exact .inr ⟨_ :: front, name', p, back, before, _, u, calls, answer, t,
          congrArg (_ :: ·) hops, hcons hfront, h⟩
    cases operand with
    | value v => exact hunchanged .value
    | function f => exact hunchanged .function
    | program q =>
      obtain ⟨own, answer, s', hq⟩ := Program.exists_runsTo answers q s
      by_cases hvalue : ∃ value, answer = some (.ok value)
      · obtain ⟨value, rfl⟩ := hvalue
        rcases ih s' with ⟨calls, resolved, t, h⟩ |
          ⟨front, name', p, back, before, resolved, u, calls, answer, t, hops, hfront, h⟩
        · exact .inl ⟨_, _, _, .program hq h⟩
        · exact .inr ⟨_ :: front, name', p, back, _, _, u, calls, answer, t,
            congrArg (_ :: ·) hops, .program hq hfront, h⟩
      · exact .inr ⟨[], name, q, rest, [], [], s, own, answer, s', rfl, .nil, hq,
          fun value h => hvalue ⟨value, h⟩⟩

namespace Program

variable {answers : Answers σ} {i : Instruction} {front back resolved : List (String × Operand)}
  {name : String} {p : Program} {s u t : σ} {before calls : List Instruction}
  {answer : Option (Except Interrupt Value)}

/-- An instruction whose operands resolve is handed to the interpreter after the calls of its
operands. -/
theorem RunsTo.perform (h : Resolves answers i.operands s calls resolved t) :
    (Program.perform i).RunsTo answers s (calls ++ [{ i with operands := resolved }])
      (answers { i with operands := resolved } t).1 (answers { i with operands := resolved } t).2 := by
  obtain ⟨tag, operands, result⟩ := i
  have hoperands := h.evalOperands_eq []
  rw [runsTo_iff, eval, hoperands]
  rfl

/-- An operand without a value ends the run of its instruction. -/
theorem RunsTo.perform_of_fails (hi : i.operands = front ++ (name, .program p) :: back)
    (hfront : Resolves answers front s before resolved u) (hp : p.RunsTo answers u calls answer t)
    (hfails : ∀ value, answer ≠ some (.ok value)) :
    (Program.perform i).RunsTo answers s (before ++ calls) answer t := by
  obtain ⟨tag, operands, result⟩ := i
  subst hi
  have hresolved := hfront.evalOperands_eq []
  rw [runsTo_iff, eval, evalOperands_append_back, hresolved, Ending.andThen_ok, evalOperands,
    List.nil_append, hp.eval_eq]
  rcases answer with _ | _ | value
  · rfl
  · rfl
  · exact absurd rfl (hfails value)

end Program

/-! ## Getting to a program -/

namespace Program.RunsTo

variable {answers : Answers σ} {p : Program} {s t : σ} {calls : List Instruction}
  {answer : Option (Except Interrupt Value)}

/-- What continues a program calls after it. -/
theorem exists_bind (h : p.RunsTo answers s calls answer t) (next : Continuation) :
    ∃ later answer' t', (p.bind next).RunsTo answers s (calls ++ later) answer' t' := by
  by_cases hvalue : ∃ value, answer = some (.ok value)
  · obtain ⟨value, rfl⟩ := hvalue
    obtain ⟨later, answer', t', hnext⟩ := exists_runsTo answers (next value) t
    exact ⟨later, answer', t', h.bind hnext⟩
  · exact ⟨[], answer, t, by
      simpa using h.bind_of_fails (fun value h => hvalue ⟨value, h⟩) next⟩

/-- A handler calls after its body. -/
theorem exists_attempt (h : p.RunsTo answers s calls answer t) (handler : Continuation) :
    ∃ later answer' t', (p.attempt handler).RunsTo answers s (calls ++ later) answer' t' := by
  by_cases hraised : ∃ payload, answer = some (.error (.raised payload))
  · obtain ⟨payload, rfl⟩ := hraised
    obtain ⟨later, answer', t', hhandler⟩ := exists_runsTo answers (handler payload) t
    exact ⟨later, answer', t', h.attempt hhandler⟩
  · exact ⟨[], answer, t, by
      simpa using h.attempt_of_not_raised (fun payload h => hraised ⟨payload, h⟩) handler⟩

/-- The operands behind one of them, and then the interpreter, are called after it. -/
theorem exists_perform {i : Instruction} {front back resolved : List (String × Operand)}
    {name : String} {s₀ : σ} {before : List Instruction}
    (hi : i.operands = front ++ (name, .program p) :: back)
    (hfront : Resolves answers front s₀ before resolved s) (h : p.RunsTo answers s calls answer t) :
    ∃ later answer' t',
      (Program.perform i).RunsTo answers s₀ (before ++ calls ++ later) answer' t' := by
  by_cases hvalue : ∃ value, answer = some (.ok value)
  · obtain ⟨value, rfl⟩ := hvalue
    have hthis : Resolves answers (front ++ [(name, .program p)]) s₀ (before ++ (calls ++ []))
        (resolved ++ [(name, .value value)]) t := hfront.append (.program h .nil)
    rw [List.append_nil] at hthis
    rcases resolves_or_fails answers back t with ⟨calls', resolved', t', hback⟩ |
      ⟨front', name', p', back', before', resolved', u, calls', answer', t', hback, hfront', hp',
        hfails⟩
    · have hall := hthis.append hback
      rw [List.append_assoc front, List.singleton_append, ← hi] at hall
      have hrun := perform hall
      rw [List.append_assoc] at hrun
      exact ⟨_, _, _, hrun⟩
    · have hall := hthis.append hfront'
      have hops : i.operands = (front ++ [(name, .program p)] ++ front') ++
          (name', .program p') :: back' := by
        simp [hi, hback]
      have hrun := perform_of_fails hops hall hp' hfails
      rw [List.append_assoc (before ++ calls)] at hrun
      exact ⟨_, _, _, hrun⟩
  · have hrun := perform_of_fails hi hfront h fun value h => hvalue ⟨value, h⟩
    exact ⟨[], answer, t, by rwa [List.append_nil]⟩

end Program.RunsTo

/-- What a run gets to runs as a part of it: its calls follow on those before it. -/
theorem GetsTo.runsTo {answers : Answers σ} {p q : Program} {s u t : σ}
    {earlier calls : List Instruction} {answer : Option (Except Interrupt Value)}
    (h : GetsTo answers p s earlier q u) (hq : q.RunsTo answers u calls answer t) :
    ∃ later answer' t', p.RunsTo answers s (earlier ++ calls ++ later) answer' t' := by
  induction h with
  | self => exact ⟨[], answer, t, by simpa using hq⟩
  | @bindFirst first q next _ _ _ _ ih =>
    obtain ⟨later, answer', t', hfirst⟩ := ih hq
    obtain ⟨later', answer', t', hall⟩ := hfirst.exists_bind next
    exact ⟨later ++ later', answer', t', by rwa [← List.append_assoc]⟩
  | bindNext hfirst _ ih =>
    obtain ⟨later, answer', t', hnext⟩ := ih hq
    have hall := hfirst.bind hnext
    exact ⟨later, answer', t', by simpa only [List.append_assoc] using hall⟩
  | @attemptBody body q handler _ _ _ _ ih =>
    obtain ⟨later, answer', t', hbody⟩ := ih hq
    obtain ⟨later', answer', t', hall⟩ := hbody.exists_attempt handler
    exact ⟨later ++ later', answer', t', by rwa [← List.append_assoc]⟩
  | attemptHandler hbody _ ih =>
    obtain ⟨later, answer', t', hhandler⟩ := ih hq
    have hall := hbody.attempt hhandler
    exact ⟨later, answer', t', by simpa only [List.append_assoc] using hall⟩
  | operand hi hfront _ ih =>
    obtain ⟨later, answer', t', hp⟩ := ih hq
    obtain ⟨later', answer', t', hall⟩ := hp.exists_perform hi hfront
    exact ⟨later ++ later', answer', t', by simpa only [List.append_assoc] using hall⟩

/-- After the calls before it, the run of the program from `s` hands over this call: it is an
instruction that the run got to, and since then its operands have resolved and nothing else has been
called. -/
def HandsOver (answers : Answers σ) (p : Program) (s : σ) (before : List Instruction)
    (call : Instruction) : Prop :=
  ∃ i earlier own u t, GetsTo answers p s earlier (.perform i) u ∧
    Resolves answers i.operands u own call.operands t ∧ before = earlier ++ own ∧
      call.tag = i.tag ∧ call.result = i.result

namespace HandsOver

/-- What a part of a program hands over, the program does. -/
theorem within {answers : Answers σ} {p q : Program} {s s' : σ} {lead : List Instruction}
    {call : Instruction} (h : HandsOver answers q s' lead call) (before : List Instruction)
    (hgets : ∀ {earlier i u}, GetsTo answers q s' earlier (.perform i) u →
      GetsTo answers p s (before ++ earlier) (.perform i) u) :
    HandsOver answers p s (before ++ lead) call := by
  obtain ⟨i, earlier, own, u, t, hq, hresolves, rfl, hcall⟩ := h
  exact ⟨i, before ++ earlier, own, u, t, hgets hq, hresolves, (List.append_assoc ..).symm, hcall⟩

/-- A call of the operands of an instruction is handed over by one of the programs among them. -/
theorem of_operands {answers : Answers σ} {i : Instruction}
    {front back resolved : List (String × Operand)} {s u : σ} {calls lead after : List Instruction}
    {call : Instruction}
    (hprograms : ∀ p ∈ i.programs, ∀ {s t calls before after answer},
      p.RunsTo answers s calls answer t → calls = before ++ call :: after →
        HandsOver answers p s before call)
    (hi : i.operands = front ++ back) (h : Resolves answers front s calls resolved u)
    (hcalls : calls = lead ++ call :: after) : HandsOver answers (.perform i) s lead call := by
  obtain ⟨front', name, p, back', earlier, own, resolved', u', value, u'', lead', rest, rfl, hfront,
    hp, rfl, hown⟩ := h.of_call hcalls
  have hi' : i.operands = front' ++ (name, .program p) :: (back' ++ back) := by
    simp only [hi, List.append_assoc, List.cons_append]
  exact (hprograms p (Instruction.mem_programs hi') hp hown).within _ (.operand hi' hfront)

end HandsOver

namespace Program

variable {answers : Answers σ}

/-- Every call of a run is handed over resolved. -/
theorem RunsTo.handsOver {p : Program} {s t : σ} {calls before after : List Instruction}
    {call : Instruction} {answer : Option (Except Interrupt Value)}
    (h : p.RunsTo answers s calls answer t) (hcalls : calls = before ++ call :: after) :
    HandsOver answers p s before call := by
  induction p using Program.induction generalizing s t calls before after answer with
  | ofPure value =>
    obtain ⟨rfl, -⟩ := h.unique (.ofPure answers value s)
    simp at hcalls
  | ofThrow payload =>
    obtain ⟨rfl, -⟩ := h.unique (.ofThrow answers payload s)
    simp at hcalls
  | ofBind first next ihfirst ihnext =>
    obtain ⟨calls₁, answer₁, s', hfirst⟩ := exists_runsTo answers first s
    by_cases hvalue : ∃ value, answer₁ = some (.ok value)
    · obtain ⟨value, rfl⟩ := hvalue
      obtain ⟨calls₂, answer₂, t', hnext⟩ := exists_runsTo answers (next value) s'
      obtain ⟨rfl, -⟩ := h.unique (hfirst.bind hnext)
      rcases item_of_append hcalls with ⟨rest, hin⟩ | ⟨lead, rfl, hin⟩
      · exact (ihfirst hfirst hin).within [] .bindFirst
      · exact (ihnext value hnext hin).within _ (.bindNext hfirst)
    · obtain ⟨rfl, -⟩ := h.unique
        (hfirst.bind_of_fails (fun value h => hvalue ⟨value, h⟩) next)
      exact (ihfirst hfirst hcalls).within [] .bindFirst
  | ofAttempt body handler ihbody ihhandler =>
    obtain ⟨calls₁, answer₁, s', hbody⟩ := exists_runsTo answers body s
    by_cases hraised : ∃ payload, answer₁ = some (.error (.raised payload))
    · obtain ⟨payload, rfl⟩ := hraised
      obtain ⟨calls₂, answer₂, t', hhandler⟩ := exists_runsTo answers (handler payload) s'
      obtain ⟨rfl, -⟩ := h.unique (hbody.attempt hhandler)
      rcases item_of_append hcalls with ⟨rest, hin⟩ | ⟨lead, rfl, hin⟩
      · exact (ihbody hbody hin).within [] .attemptBody
      · exact (ihhandler payload hhandler hin).within _ (.attemptHandler hbody)
    · obtain ⟨rfl, -⟩ := h.unique
        (hbody.attempt_of_not_raised (fun payload h => hraised ⟨payload, h⟩) handler)
      exact (ihbody hbody hcalls).within [] .attemptBody
  | ofPerform i ih =>
    rcases resolves_or_fails answers i.operands s with ⟨own, resolved, u, hresolves⟩ |
      ⟨front, name, p, back, earlier, resolved, u, own, answer₁, t', hi, hfront, hp, hfails⟩
    · obtain ⟨rfl, -⟩ := h.unique (RunsTo.perform hresolves)
      rcases item_of_append hcalls with ⟨rest, hin⟩ | ⟨lead, rfl, hin⟩
      · exact .of_operands ih (List.append_nil _).symm hresolves hin
      · obtain ⟨rfl, rfl, rfl⟩ : lead = [] ∧ { i with operands := resolved } = call ∧ after = [] := by
          cases lead with
          | nil => simpa using hin
          | cons first rest => simp at hin
        exact ⟨i, [], own, s, u, .self, hresolves, by simp, rfl, rfl⟩
    · obtain ⟨rfl, -⟩ := h.unique (RunsTo.perform_of_fails hi hfront hp hfails)
      rcases item_of_append hcalls with ⟨rest, hin⟩ | ⟨lead, rfl, hin⟩
      · exact .of_operands ih hi hfront hin
      · exact (ih p (Instruction.mem_programs hi) hp hin).within _ (.operand hi hfront)

/-- **Calls are resolved.** Whatever the program, the interpreter and the step limit, every call of a
run is an instruction that the run got to, with the same tag, the same result and the same names in
the same order. Since the run got to it, each program among its operands has run exactly once, from
the front to the back, and its own value stands in its place; values and functions are as they were;
and nothing else has been called. Where an operand raises or aborts, the run of its instruction ends
with just that: the calls of the operands in front and those of this operand have been made, no later
operand has been started, and the instruction is not handed over, for its operands do not resolve.
What a run gets to makes its calls as a part of that run. -/
theorem calls_resolved (answers : Answers σ) (p : Program) (s : σ) :
    (∀ limit before call after, p.calls (fun _ => answers) limit s = before ++ call :: after →
      ∃ i earlier own u t, GetsTo answers p s earlier (.perform i) u ∧
        Resolves answers i.operands u own call.operands t ∧ before = earlier ++ own ∧
          call.tag = i.tag ∧ call.result = i.result ∧ call.operandNames = i.operandNames ∧
            call.isResolved = true) ∧
    (∀ i u front name q back own resolved u' calls answer t,
      i.operands = front ++ (name, .program q) :: back →
      Resolves answers front u own resolved u' → q.RunsTo answers u' calls answer t →
      (∀ value, answer ≠ some (.ok value)) →
        (Program.perform i).RunsTo answers u (own ++ calls) answer t ∧
          ∀ all operands t', ¬Resolves answers i.operands u all operands t') ∧
    ∀ q earlier u calls answer t, GetsTo answers p s earlier q u → q.RunsTo answers u calls answer t →
      (earlier ++ calls) <+: p.calls (fun _ => answers) none s := by
  refine ⟨fun limit before call after hcalls => ?_, ?_, fun q earlier u calls answer t hgets hq => ?_⟩
  · obtain ⟨calls, answer, t, hrun⟩ := exists_runsTo answers p s
    obtain ⟨rest, hrest⟩ := calls_prefix (fun _ => answers) limit p s
    rw [hrun.calls_eq, hcalls, List.append_assoc, List.cons_append] at hrest
    obtain ⟨i, earlier, own, u, t, hgets, hresolves, hbefore, htag, hresult⟩ :=
      hrun.handsOver hrest.symm
    exact ⟨i, earlier, own, u, t, hgets, hresolves, hbefore, htag, hresult, hresolves.names,
      hresolves.isResolved⟩
  · intro i u front name q back own resolved u' calls answer t hi hfront hq hfails
    refine ⟨.perform_of_fails hi hfront hq hfails, fun all operands t' hall => ?_⟩
    exact hall.not_fails hi hfront hq hfails
  · obtain ⟨later, answer', t', hrun⟩ := hgets.runsTo hq
    rw [hrun.calls_eq]
    exact List.prefix_append _ _

/-- Answers every instruction with its tag, and counts them. -/
private def tagging : Answers Nat := fun i n => (some (.ok (.text i.tag)), n + 1)

private def leaf : Instruction := ⟨"leaf", [], .text⟩

private def inner : Instruction :=
  ⟨"inner", [("x", .program (.perform leaf)), ("y", .value .unit)], .text⟩

/-- The inner instruction with the answer for the leaf in its place. -/
private def filled : Instruction :=
  ⟨"inner", [("x", .value (.text "leaf")), ("y", .value .unit)], .text⟩

/-- The second of three operands raises a payload. -/
private def outer : Instruction :=
  ⟨"outer", [("a", .program (.perform inner)), ("b", .program (.throw .unit)),
    ("c", .program (.perform leaf))], .text⟩

/-- The first operand of the outer instruction is an instruction with an operand of its own: both are
handed over, the inner one with the answer for the other in its place. The third operand is not
started, and the outer instruction is not handed over. -/
theorem calls_resolved_nested :
    (∃ i earlier own u t, GetsTo tagging (.perform outer) 0 earlier (.perform i) u ∧
      Resolves tagging i.operands u own filled.operands t ∧ [leaf] = earlier ++ own) ∧
    (Program.perform outer).RunsTo tagging 0 [leaf, filled] (some (.error (.raised .unit))) 2 := by
  have hinner : (Program.perform inner).RunsTo tagging 0 [leaf, filled]
      (some (.ok (.text "inner"))) 2 := runsTo_iff.2 rfl
  have hfront : Resolves tagging [("a", .program (.perform inner))] 0 [leaf, filled]
      [("a", .value (.text "inner"))] 2 := .program hinner .nil
  have hcalls : (Program.perform outer).calls (fun _ => tagging) none 0 = [leaf] ++ filled :: [] :=
    (runsTo_iff.2 rfl : (Program.perform outer).RunsTo tagging 0 [leaf, filled] _ _).calls_eq
  obtain ⟨i, earlier, own, u, t, hgets, hresolves, hbefore, -⟩ :=
    (calls_resolved tagging (.perform outer) 0).1 none [leaf] filled [] hcalls
  refine ⟨⟨i, earlier, own, u, t, hgets, hresolves, hbefore⟩, ?_⟩
  exact ((calls_resolved tagging (.perform outer) 0).2.1 outer 0 _ "b" (.throw .unit) _ _ _ 2 [] _ 2
    rfl hfront (.ofThrow tagging .unit 2) (by simp)).1

end Program

end EffectGraph
