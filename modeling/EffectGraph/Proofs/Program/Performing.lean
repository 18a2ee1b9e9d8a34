import EffectGraph.Proofs.Program.Over
import EffectGraph.Proofs.Program.Running

/-!
# Runs side by side

`Program.Performs` says that a program performs instructions of some kind only, wherever they stand.
`Program.Confined` asks for this only as long as all answers are fine, and that then the program
yields and raises nothing that is not. Two interpreters, each with a state of its own, run a confined
program alike if they give the same fine answers to these instructions: the runs take the same steps
and end in the same way (`Program.Confined.run_pairs`).
-/

namespace EffectGraph

/-- The program performs instructions of this kind only. -/
inductive Program.Performs (ok : Instruction → Prop) : Program → Prop where
  | pure (value : Value) : Performs ok (.pure value)
  | throw (payload : Value) : Performs ok (.throw payload)
  | perform {i : Instruction} (hi : ok i)
    (hprograms : ∀ name p, (name, Operand.program p) ∈ i.operands → Performs ok p)
    (hfunctions : ∀ name f, (name, Operand.function f) ∈ i.operands →
      ∀ args, Performs ok (f args)) : Performs ok (.perform i)
  | bind {first : Program} {next : Continuation} (hfirst : Performs ok first)
    (hnext : ∀ value, Performs ok (next value)) : Performs ok (.bind first next)
  | attempt {body : Program} {handler : Continuation} (hbody : Performs ok body)
    (hhandler : ∀ payload, Performs ok (handler payload)) : Performs ok (.attempt body handler)

/-- The instruction is of this kind, and so is whatever its operands perform. -/
def Instruction.Performs (ok : Instruction → Prop) (i : Instruction) : Prop :=
  (Program.perform i).Performs ok

/-- An instruction stays of the kind when one of its program operands is replaced by a value. -/
def Instruction.Fills (ok : Instruction → Prop) : Prop :=
  ∀ i p fill, ok i → i.pending? = some (p, fill) → ∀ value, ok (fill value)

variable {ok ok' : Instruction → Prop}

theorem Program.Performs.mono {p : Program} (h : p.Performs ok) (hsub : ∀ i, ok i → ok' i) :
    p.Performs ok' := by
  induction h with
  | pure value => exact .pure value
  | throw payload => exact .throw payload
  | perform hi _ _ ihprograms ihfunctions =>
    exact .perform (hsub _ hi) ihprograms ihfunctions
  | bind _ _ ihfirst ihnext => exact .bind ihfirst ihnext
  | attempt _ _ ihbody ihhandler => exact .attempt ihbody ihhandler

namespace Instruction

variable {i : Instruction}

theorem Performs.self (h : i.Performs ok) : ok i := by
  cases h with
  | perform hi _ _ => exact hi

theorem Performs.of_values (hi : ok i)
    (hvalues : ∀ operand ∈ i.operands, ∃ value, operand.2 = .value value) : i.Performs ok := by
  refine .perform hi (fun name p hmem => ?_) fun name f hmem => ?_
  all_goals
    obtain ⟨value, hvalue⟩ := hvalues _ hmem
    cases hvalue

/-- Whatever a function among the operands gives performs such instructions only. -/
theorem Performs.function (h : i.Performs ok) {name : String} {f : List Value → Program}
    (hfound : i.function name = .ok f) (args : List Value) : (f args).Performs ok := by
  obtain ⟨name', hmem⟩ := mem_of_function hfound
  cases h with
  | perform _ _ hfunctions => exact hfunctions name' f hmem args

/-- Running a program operand and filling in its value leaves such instructions to perform. -/
theorem Performs.pending (h : i.Performs ok) (hfills : Fills ok) {p : Program}
    {fill : Value → Instruction} (hpending : i.pending? = some (p, fill)) :
    p.Performs ok ∧ ∀ value, (fill value).Performs ok := by
  have hkinds := hfills i p fill h.self hpending
  obtain ⟨name, hmem⟩ := mem_of_pending hpending
  cases h with
  | perform _ hprograms hfunctions =>
    refine ⟨hprograms name p hmem, fun value => .perform (hkinds value) ?_ ?_⟩
    · exact fun name' q hq => hprograms name' q (mem_of_mem_fill hpending hq nofun)
    · exact fun name' f hf => hfunctions name' f (mem_of_mem_fill hpending hf nofun)

end Instruction

/-! ## Confined programs -/

/-- As long as all answers are fine, the program hands over instructions of this kind only, and yields
and raises only what is fine. -/
inductive Program.Confined (fine : Except Interrupt Value → Prop) (ok : Instruction → Prop) :
    Program → Prop where
  | pure {value : Value} (hvalue : fine (.ok value)) : Confined fine ok (.pure value)
  | throw {payload : Value} (hpayload : fine (.error (.raised payload))) :
    Confined fine ok (.throw payload)
  | perform {i : Instruction} (hi : ok i) (hresolved : i.pending? = none) :
    Confined fine ok (.perform i)
  | operand {i : Instruction} {p : Program} {fill : Value → Instruction}
    (hpending : i.pending? = some (p, fill)) (hoperand : Confined fine ok p)
    (hfill : ∀ value, fine (.ok value) → Confined fine ok (.perform (fill value))) :
    Confined fine ok (.perform i)
  | bind {first : Program} {next : Continuation} (hfirst : Confined fine ok first)
    (hnext : ∀ value, fine (.ok value) → Confined fine ok (next value)) :
    Confined fine ok (.bind first next)
  | attempt {body : Program} {handler : Continuation} (hbody : Confined fine ok body)
    (hhandler : ∀ payload, fine (.error (.raised payload)) → Confined fine ok (handler payload)) :
    Confined fine ok (.attempt body handler)

section

variable {fine : Except Interrupt Value → Prop}

/-- An instruction whose program operands are confined is confined. -/
theorem Instruction.Performs.confined {programs : List Program} {i : Instruction}
    (h : i.Performs ok) (hfills : Fills ok) (hprograms : i.programs = programs)
    (hoperands : ∀ p ∈ programs, p.Performs ok → p.Confined fine (·.Performs ok)) :
    (Program.perform i).Confined fine (·.Performs ok) := by
  induction programs generalizing i with
  | nil =>
    refine .perform h ?_
    cases hpending : i.pending? with
    | none => rfl
    | some found =>
      obtain ⟨rest, hcons, -⟩ := programs_of_pending hpending
      cases hprograms.symm.trans hcons
  | cons p rest ih =>
    cases hpending : i.pending? with
    | none => exact .perform h hpending
    | some found =>
      obtain ⟨q, fill⟩ := found
      obtain ⟨rest', hcons, hfilled⟩ := programs_of_pending hpending
      obtain ⟨rfl, rfl⟩ := List.cons.inj (hprograms.symm.trans hcons)
      obtain ⟨hq, hfill⟩ := h.pending hfills hpending
      refine .operand hpending (hoperands p List.mem_cons_self hq) fun value _ => ?_
      exact ih (hfill value) (hfilled value) fun r hr => hoperands r (List.mem_cons_of_mem _ hr)

/-- If all that is yielded and raised is fine, nothing but the instructions counts. -/
theorem Program.Performs.confined (hfills : Instruction.Fills ok) (hyielded : ∀ value, fine (.ok value))
    (hraised : ∀ payload, fine (.error (.raised payload))) {p : Program} (h : p.Performs ok) :
    p.Confined fine (·.Performs ok) := by
  induction p using Program.induction with
  | ofPure value => exact .pure (hyielded value)
  | ofThrow payload => exact .throw (hraised payload)
  | ofPerform i ih => exact Instruction.Performs.confined h hfills rfl ih
  | ofBind first next ihfirst ihnext =>
    cases h with
    | bind hfirst hnext => exact .bind (ihfirst hfirst) fun value _ => ihnext value (hnext value)
  | ofAttempt body handler ihbody ihhandler =>
    cases h with
    | attempt hbody hhandler =>
      exact .attempt (ihbody hbody) fun payload _ => ihhandler payload (hhandler payload)

/-- Whatever the continuation gives for a fine value is confined. -/
def Continuation.Confined (fine : Except Interrupt Value → Prop) (ok : Instruction → Prop)
    (k : Continuation) : Prop :=
  ∀ value, fine (.ok value) → (k value).Confined fine ok

/-- So are the continuations that wait. -/
def Pending.Confined (fine : Except Interrupt Value → Prop) (ok : Instruction → Prop)
    (pending : Pending) : Prop :=
  ∀ k ∈ pending.toList, Continuation.Confined fine ok k

/-- So is what the handler gives for a fine payload, and what waits outside the body. -/
structure Guard.Confined (fine : Except Interrupt Value → Prop) (ok : Instruction → Prop)
    (guard : Guard) : Prop where
  handler : ∀ payload, fine (.error (.raised payload)) → (guard.handler payload).Confined fine ok
  saved : guard.saved.Confined fine ok

/-- The head of a program and its queue are confined if the program is. -/
theorem Program.Confined.splitOnto {p : Program} (h : p.Confined fine ok) :
    ∀ {queue : List Continuation}, (∀ k ∈ queue, Continuation.Confined fine ok k) →
      (p.splitOnto queue).1.program.Confined fine ok ∧
        ∀ k ∈ (p.splitOnto queue).2, Continuation.Confined fine ok k := by
  induction h with
  | pure hvalue => exact fun hqueue => ⟨.pure hvalue, hqueue⟩
  | throw hpayload => exact fun hqueue => ⟨.throw hpayload, hqueue⟩
  | perform hi hresolved => exact fun hqueue => ⟨.perform hi hresolved, hqueue⟩
  | operand hpending hoperand hfill => exact fun hqueue => ⟨.operand hpending hoperand hfill, hqueue⟩
  | bind hfirst hnext ih _ =>
    refine fun hqueue => ih fun k hk => ?_
    rcases List.mem_cons.1 hk with rfl | hk
    · exact hnext
    · exact hqueue k hk
  | attempt hbody hhandler => exact fun hqueue => ⟨.attempt hbody hhandler, hqueue⟩

theorem Pending.confined_empty : empty.Confined fine ok := fun _ hk => absurd hk List.not_mem_nil

theorem Pending.Confined.push {pending : Pending} (h : pending.Confined fine ok)
    {queue : List Continuation} (hqueue : ∀ k ∈ queue, Continuation.Confined fine ok k) :
    (pending.push queue).Confined fine ok := by
  intro k hk
  rw [toList_push] at hk
  rcases List.mem_append.1 hk with hk | hk
  · exact hqueue k hk
  · exact h k hk

end

/-! ## Two machines -/

section

variable {σ τ : Type} (R E : σ → τ → Prop) (fine : Except Interrupt Value → Prop)

/-- The runs ended in the same way at the same step, and left their interpreters in related states.
What they ended with is fine. -/
structure Halt.Pairs (halt : Halt σ) (halt' : Halt τ) : Prop where
  outcome_eq : halt'.outcome = halt.outcome
  steps_eq : halt'.steps = halt.steps
  cut : halt.outcome = .unanswered → E halt.state halt'.state
  ended : halt.outcome ≠ .unanswered → R halt.state halt'.state
  fine : ∀ result, halt.outcome.answer = some result → fine result

/-- The machines have the same to run, and it is confined. -/
structure Machine.Pairs (ok : Instruction → Prop) (m : Machine σ) (m' : Machine τ) : Prop where
  program_eq : m'.program = m.program
  pending_eq : m'.pending = m.pending
  guards_eq : m'.guards = m.guards
  steps_eq : m'.steps = m.steps
  state : R m.state m'.state
  program : m.program.Confined fine ok
  pending : m.pending.Confined fine ok
  guards : ∀ guard ∈ m.guards, guard.Confined fine ok

/-- Both go on, or both end. -/
def Transition.Pairs (ok : Instruction → Prop) : Transition σ → Transition τ → Prop
  | .next m, .next m' => Machine.Pairs R fine ok m m'
  | .halt stop, .halt stop' => stop.Pairs R E fine stop'
  | _, _ => False

end

namespace Machine

variable {σ τ : Type} {R E : σ → τ → Prop} {fine : Except Interrupt Value → Prop} {s : σ} {t : τ}
  {pending : Pending} {guards : List Guard}

theorem pairs_resume (hstate : R s t) (hpending : pending.Confined fine ok)
    (hguards : ∀ guard ∈ guards, guard.Confined fine ok) {value : Value} (hvalue : fine (.ok value))
    (steps : Nat) :
    (resume value pending guards steps s).Pairs R E fine ok (resume value pending guards steps t) := by
  unfold resume
  cases hpop : pending.pop with
  | some popped =>
    obtain ⟨k, rest⟩ := popped
    have hall := Pending.pop_eq_some hpop
    refine ⟨rfl, rfl, rfl, rfl, hstate, hpending k (by simp [hall]) value hvalue, fun k' hk' => ?_,
      hguards⟩
    exact hpending k' (by simp [hall, hk'])
  | none =>
    cases guards with
    | nil => exact ⟨rfl, rfl, by simp, fun _ => hstate, fun _ heq => Option.some.inj heq ▸ hvalue⟩
    | cons guard guards =>
      refine ⟨rfl, rfl, rfl, rfl, hstate, .pure hvalue, (hguards guard List.mem_cons_self).saved, ?_⟩
      exact fun g hg => hguards g (List.mem_cons_of_mem _ hg)

theorem pairs_raise (hstate : R s t) (hguards : ∀ guard ∈ guards, guard.Confined fine ok)
    {payload : Value} (hpayload : fine (.error (.raised payload))) (steps : Nat) :
    (raise payload guards steps s).Pairs R E fine ok (raise payload guards steps t) := by
  unfold raise
  cases guards with
  | nil => exact ⟨rfl, rfl, by simp, fun _ => hstate, fun _ heq => Option.some.inj heq ▸ hpayload⟩
  | cons guard guards =>
    have hguard := hguards guard List.mem_cons_self
    refine ⟨rfl, rfl, rfl, rfl, hstate, hguard.handler payload hpayload, hguard.saved, ?_⟩
    exact fun g hg => hguards g (List.mem_cons_of_mem _ hg)

variable {interpreter : Interpreter σ} {interpreter' : Interpreter τ} {limit : Option Nat}
  (hlimit : ∀ limit, fine (.error (.aborted (.stepLimit limit))))
  (hanswer : ∀ n i s t, ok i → i.pending? = none → R s t → ∃ answer s' t',
    interpreter n i s = (answer, s') ∧ interpreter' n i t = (answer, t') ∧
      (answer = none → E s' t') ∧ ∀ result, answer = some result → R s' t' ∧ fine result)

include hlimit hanswer

omit hlimit in
/-- The same instruction gives way to the same program operand, or gets the same fine answer. -/
theorem pairs_perform (hstate : R s t) (hwaits : pending.Confined fine ok)
    (hguards : ∀ guard ∈ guards, guard.Confined fine ok) {i : Instruction}
    (hi : (Program.perform i).Confined fine ok) (steps : Nat) :
    (perform interpreter i pending guards steps s).Pairs R E fine ok
      (perform interpreter' i pending guards steps t) := by
  simp only [perform, Unfolding.pending?, Unfolding.single]
  cases hi with
  | operand hfound hoperand hfill =>
    rw [hfound]
    refine ⟨rfl, rfl, rfl, rfl, hstate, hoperand, hwaits.push fun k hk => ?_, hguards⟩
    rw [List.mem_singleton.1 hk]
    exact hfill
  | perform hi hresolved =>
    obtain ⟨answer, s', t', hs, ht, hcut, hended⟩ := hanswer steps i s t hi hresolved hstate
    rw [hresolved]
    dsimp only
    rw [hs, ht]
    cases answer with
    | none =>
      exact ⟨rfl, rfl, fun _ => hcut rfl, fun hne => absurd rfl hne, by simp [Outcome.answer]⟩
    | some reply =>
      obtain ⟨hafter, hfine⟩ := hended reply rfl
      cases reply with
      | ok value => exact pairs_resume hafter hwaits hguards hfine _
      | error interrupt =>
        cases interrupt with
        | raised payload => exact pairs_raise hafter hguards hfine _
        | aborted failure =>
          exact ⟨rfl, rfl, by simp, fun _ => hafter, fun _ heq => Option.some.inj heq ▸ hfine⟩

/-- Two machines with the same to run do the same in one step. -/
theorem step_pairs {m : Machine σ} {m' : Machine τ} (h : m.Pairs R fine ok m') :
    (step interpreter limit m).Pairs R E fine ok (step interpreter' limit m') := by
  obtain ⟨program, pending, guards, steps, t⟩ := m'
  obtain ⟨rfl, rfl, rfl, rfl, hstate, hprogram, hpending, hguards⟩ := h
  unfold step
  dsimp only
  cases exceeded? limit (m.steps + 1) with
  | some limit =>
    exact ⟨rfl, rfl, by simp, fun _ => hstate, fun _ heq => Option.some.inj heq ▸ hlimit limit⟩
  | none =>
    have hnone : ∀ k ∈ ([] : List Continuation), Continuation.Confined fine ok k := by simp
    obtain ⟨hhead, hqueue⟩ := hprogram.splitOnto hnone
    have hwaits := hpending.push hqueue
    change Transition.Pairs R E fine ok
      (dispatch interpreter (m.program.splitOnto []).1
        (m.pending.push (m.program.splitOnto []).2) m.guards (m.steps + 1) m.state)
      (dispatch interpreter' (m.program.splitOnto []).1
        (m.pending.push (m.program.splitOnto []).2) m.guards (m.steps + 1) t)
    generalize (m.program.splitOnto []).1 = head at hhead ⊢
    cases head with
    | pure value =>
      cases hhead with
      | pure hvalue => exact pairs_resume hstate hwaits hguards hvalue _
    | throw payload =>
      cases hhead with
      | throw hpayload => exact pairs_raise hstate hguards hpayload _
    | attempt body handler =>
      cases hhead with
      | attempt hbody hhandler =>
        refine ⟨rfl, rfl, rfl, rfl, hstate, hbody, Pending.confined_empty, fun guard hguard => ?_⟩
        rcases List.mem_cons.1 hguard with rfl | hguard
        · exact ⟨hhandler, hwaits⟩
        · exact hguards guard hguard
    | perform i => exact pairs_perform hanswer hstate hwaits hguards hhead _

/-- Two machines with the same to run do the same all the way. -/
theorem run_pairs {m : Machine σ} {m' : Machine τ} (h : m.Pairs R fine ok m') :
    (run interpreter limit m).Pairs R E fine (run interpreter' limit m') := by
  induction m using (wellFounded_next interpreter limit).induction generalizing m' with
  | _ m ih =>
    rw [run_eq, run_eq]
    have hstep : (step interpreter limit m).Pairs R E fine ok (step interpreter' limit m') :=
      step_pairs hlimit hanswer h
    cases heq : step interpreter limit m with
    | halt stop =>
      cases heq' : step interpreter' limit m' with
      | halt stop' =>
        rw [heq, heq'] at hstep
        exact hstep
      | next next' =>
        rw [heq, heq'] at hstep
        exact hstep.elim
    | next next =>
      cases heq' : step interpreter' limit m' with
      | halt stop' =>
        rw [heq, heq'] at hstep
        exact hstep.elim
      | next next' =>
        rw [heq, heq'] at hstep
        exact ih next heq hstep

end Machine

/-- Two interpreters that give the same fine answers to some instructions run a program that is
confined to them alike. -/
theorem Program.Confined.run_pairs {σ τ : Type} {R E : σ → τ → Prop}
    {fine : Except Interrupt Value → Prop} {interpreter : Interpreter σ} {interpreter' : Interpreter τ}
    {limit : Option Nat} (hlimit : ∀ limit, fine (.error (.aborted (.stepLimit limit))))
    (hanswer : ∀ n i s t, ok i → i.pending? = none → R s t → ∃ answer s' t',
      interpreter n i s = (answer, s') ∧ interpreter' n i t = (answer, t') ∧
        (answer = none → E s' t') ∧ ∀ result, answer = some result → R s' t' ∧ fine result)
    {program : Program} (h : program.Confined fine ok) {s : σ} {t : τ} (hstate : R s t) :
    (program.run interpreter limit s).Pairs R E fine (program.run interpreter' limit t) :=
  Machine.run_pairs hlimit hanswer ⟨rfl, rfl, rfl, rfl, hstate, h, Pending.confined_empty,
    fun _ hguard => absurd hguard List.not_mem_nil⟩

end EffectGraph
