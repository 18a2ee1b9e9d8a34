import EffectGraph.Program.Machine

/-!
# Programs over some instructions

A program is over instructions with certain tags if it performs no others, wherever they stand: in
what continuations and handlers give, in the operands of an instruction, and in what the functions
among these give. A run of such a program hands its interpreter no other instruction, so it keeps
what the interpreter keeps on these (`Program.Over.run_keeps`).
-/

namespace EffectGraph

/-- The program performs instructions with these tags only. -/
inductive Program.Over (tags : Tag → Prop) : Program → Prop where
  | pure (value : Value) : Over tags (.pure value)
  | throw (payload : Value) : Over tags (.throw payload)
  | perform {i : Instruction} (htag : tags i.tag)
    (hprograms : ∀ name p, (name, Operand.program p) ∈ i.operands → Over tags p)
    (hfunctions : ∀ name f, (name, Operand.function f) ∈ i.operands → ∀ args, Over tags (f args)) :
    Over tags (.perform i)
  | bind {first : Program} {next : Continuation} (hfirst : Over tags first)
    (hnext : ∀ value, Over tags (next value)) : Over tags (.bind first next)
  | attempt {body : Program} {handler : Continuation} (hbody : Over tags body)
    (hhandler : ∀ payload, Over tags (handler payload)) : Over tags (.attempt body handler)

/-- The instruction has one of these tags, and so has whatever its operands perform. -/
def Instruction.Over (tags : Tag → Prop) (i : Instruction) : Prop := (Program.perform i).Over tags

namespace Instruction

variable {tags : Tag → Prop} {i : Instruction}

theorem Over.tag (h : i.Over tags) : tags i.tag := by
  cases h with
  | perform htag _ _ => exact htag

/-- Whatever a function among the operands gives performs such instructions only. -/
theorem Over.function (h : i.Over tags) {name : String} {f : List Value → Program}
    (hfound : i.function name = .ok f) (args : List Value) : (f args).Over tags := by
  obtain ⟨name', hmem⟩ := mem_of_function hfound
  cases h with
  | perform _ _ hfunctions => exact hfunctions name' f hmem args

/-- Running a program operand and filling in its value leaves such instructions to perform. -/
theorem Over.pending (h : i.Over tags) {p : Program} {fill : Value → Instruction}
    (hpending : i.pending? = some (p, fill)) : p.Over tags ∧ ∀ value, (fill value).Over tags := by
  obtain ⟨name, hmem⟩ := mem_of_pending hpending
  cases h with
  | perform htag hprograms hfunctions =>
    refine ⟨hprograms name p hmem, fun value => .perform ?_ ?_ ?_⟩
    · rwa [tag_of_pending hpending value]
    · exact fun name' q hq => hprograms name' q (mem_of_mem_fill hpending hq nofun)
    · exact fun name' f hf => hfunctions name' f (mem_of_mem_fill hpending hf nofun)

end Instruction

/-- Whatever the operand performs has one of these tags. -/
def Operand.Over (tags : Tag → Prop) : Operand → Prop
  | .value _ => True
  | .program p => p.Over tags
  | .function f => ∀ args, (f args).Over tags

mutual

/-- Every program is over all instructions. -/
theorem Program.over_all : ∀ p : Program, p.Over fun _ => True
  | .pure value => .pure value
  | .throw payload => .throw payload
  | .perform ⟨_, operands, _⟩ =>
    .perform trivial (fun _ _ h => Operand.over_all operands _ h) fun _ _ h =>
      Operand.over_all operands _ h
  | .bind first next => .bind (Program.over_all first) fun value => Program.over_all (next value)
  | .attempt body handler =>
    .attempt (Program.over_all body) fun payload => Program.over_all (handler payload)

theorem Operand.over_all : ∀ operands : List (String × Operand), ∀ operand ∈ operands,
    operand.2.Over fun _ => True
  | [], _, h => absurd h List.not_mem_nil
  | (_, .value _) :: rest, operand, h =>
    (List.mem_cons.1 h).elim (fun e => e ▸ trivial) (Operand.over_all rest operand)
  | (_, .program q) :: rest, operand, h =>
    (List.mem_cons.1 h).elim (fun e => e ▸ Program.over_all q) (Operand.over_all rest operand)
  | (_, .function f) :: rest, operand, h =>
    (List.mem_cons.1 h).elim (fun e => e ▸ fun args => Program.over_all (f args))
      (Operand.over_all rest operand)

end

/-! ## Machines -/

section

variable (tags : Tag → Prop)

/-- Whatever the continuations that wait give performs such instructions only. -/
def Pending.Over (pending : Pending) : Prop :=
  ∀ k ∈ pending.toList, ∀ value, (k value).Over tags

/-- So does what the handler gives, and what waits outside the body. -/
structure Guard.Over (guard : Guard) : Prop where
  handler : ∀ payload, (guard.handler payload).Over tags
  saved : guard.saved.Over tags

/-- All that the machine has still to run performs such instructions only. -/
structure Machine.Over {σ : Type} (m : Machine σ) : Prop where
  program : m.program.Over tags
  pending : m.pending.Over tags
  guards : ∀ guard ∈ m.guards, guard.Over tags

/-- The program that starts like this. -/
def Program.Head.program : Program.Head → Program
  | .pure value => .pure value
  | .throw payload => .throw payload
  | .perform instruction => .perform instruction
  | .attempt body handler => .attempt body handler

end

/-- The head of a program and its queue perform what the program does. -/
theorem Program.Over.splitOnto {tags : Tag → Prop} {p : Program} (h : p.Over tags) :
    ∀ {queue : List Continuation}, (∀ k ∈ queue, ∀ value, (k value).Over tags) →
      (p.splitOnto queue).1.program.Over tags ∧
        ∀ k ∈ (p.splitOnto queue).2, ∀ value, (k value).Over tags := by
  induction h with
  | pure value => exact fun hqueue => ⟨.pure value, hqueue⟩
  | throw payload => exact fun hqueue => ⟨.throw payload, hqueue⟩
  | perform htag hprograms hfunctions =>
    exact fun hqueue => ⟨.perform htag hprograms hfunctions, hqueue⟩
  | bind hfirst hnext ih _ =>
    refine fun hqueue => ih fun k hk => ?_
    rcases List.mem_cons.1 hk with rfl | hk
    · exact hnext
    · exact hqueue k hk
  | attempt hbody hhandler => exact fun hqueue => ⟨.attempt hbody hhandler, hqueue⟩

theorem Pending.over_empty {tags : Tag → Prop} : empty.Over tags :=
  fun _ hk => absurd hk List.not_mem_nil

theorem Pending.Over.push {tags : Tag → Prop} {pending : Pending} (h : pending.Over tags)
    {queue : List Continuation} (hqueue : ∀ k ∈ queue, ∀ value, (k value).Over tags) :
    (pending.push queue).Over tags := by
  intro k hk
  rw [toList_push] at hk
  rcases List.mem_append.1 hk with hk | hk
  · exact hqueue k hk
  · exact h k hk

/-! ## Runs -/

section

variable {σ : Type} (P E : σ → Prop)

/-- The run left the interpreter in a state with the first property, or with the second one if the
interpreter did not come back. -/
def Halt.Keeps (halt : Halt σ) : Prop :=
  match halt.outcome with
  | .unanswered => E halt.state
  | _ => P halt.state

/-- The transition leaves the interpreter in such a state, and such instructions to perform. -/
def Transition.Keeps (tags : Tag → Prop) : Transition σ → Prop
  | .next m => P m.state ∧ m.Over tags
  | .halt stop => stop.Keeps P E

end

namespace Machine

variable {σ : Type} {P E : σ → Prop} {tags : Tag → Prop} {s : σ} {pending : Pending}
  {guards : List Guard}

theorem keeps_resume (hs : P s) (hpending : pending.Over tags)
    (hguards : ∀ guard ∈ guards, guard.Over tags) (value : Value) (steps : Nat) :
    (resume value pending guards steps s).Keeps P E tags := by
  unfold resume
  split
  · rename_i k rest hpop
    have hall := Pending.pop_eq_some hpop
    refine ⟨hs, hpending k (by simp [hall]) value, fun k' hk' => ?_, hguards⟩
    exact hpending k' (by simp [hall, hk'])
  · split
    · rename_i guard guards
      refine ⟨hs, .pure value, (hguards guard List.mem_cons_self).saved, fun g hg => ?_⟩
      exact hguards g (List.mem_cons_of_mem _ hg)
    · exact hs

theorem keeps_raise (hs : P s) (hguards : ∀ guard ∈ guards, guard.Over tags) (payload : Value)
    (steps : Nat) : (raise payload guards steps s).Keeps P E tags := by
  unfold raise
  split
  · rename_i guard guards
    have hguard := hguards guard List.mem_cons_self
    exact ⟨hs, hguard.handler payload, hguard.saved, fun g hg =>
      hguards g (List.mem_cons_of_mem _ hg)⟩
  · exact hs

variable {interpreter : Interpreter σ} {limit : Option Nat}
  (hkeep : ∀ n i s a s', i.Over tags → P s → interpreter n i s = (some a, s') → P s')
  (hbroken : ∀ n i s s', i.Over tags → P s → interpreter n i s = (none, s') → E s')

include hkeep hbroken

/-- A step keeps what the interpreter keeps: it hands over at most one instruction. -/
theorem step_keeps {m : Machine σ} (h : m.Over tags) (hm : P m.state) :
    (step interpreter limit m).Keeps P E tags := by
  unfold step
  split
  · exact hm
  · dsimp only
    have hnone : ∀ k ∈ ([] : List Continuation), ∀ value, (k value).Over tags := by simp
    obtain ⟨hhead, hqueue⟩ := h.program.splitOnto hnone
    have hwaits := h.pending.push hqueue
    change Transition.Keeps P E tags (dispatch interpreter (m.program.splitOnto []).1
      (m.pending.push (m.program.splitOnto []).2) m.guards (m.steps + 1) m.state)
    generalize (m.program.splitOnto []).1 = head at hhead ⊢
    cases head with
    | pure value => exact keeps_resume hm hwaits h.guards _ _
    | throw payload => exact keeps_raise hm h.guards _ _
    | attempt body handler =>
      cases hhead with
      | attempt hbody hhandler =>
        refine ⟨hm, hbody, Pending.over_empty, fun guard hguard => ?_⟩
        rcases List.mem_cons.1 hguard with rfl | hguard
        · exact ⟨hhandler, hwaits⟩
        · exact h.guards guard hguard
    | perform i =>
      have hi : i.Over tags := hhead
      simp only [dispatch, perform]
      split
      · rename_i operand fill hpending
        obtain ⟨hoperand, hfill⟩ := hi.pending hpending
        refine ⟨hm, hoperand, hwaits.push fun k hk => ?_, h.guards⟩
        rw [List.mem_singleton.1 hk]
        exact hfill
      · split
        all_goals rename_i hcall
        · exact hbroken _ _ _ _ hi hm hcall
        · exact keeps_resume (hkeep _ _ _ _ _ hi hm hcall) hwaits h.guards _ _
        · exact keeps_raise (hkeep _ _ _ _ _ hi hm hcall) h.guards _ _
        · exact hkeep _ _ _ _ _ hi hm hcall

/-- A run keeps what the interpreter keeps. -/
theorem run_keeps {m : Machine σ} (h : m.Over tags) (hm : P m.state) :
    (run interpreter limit m).Keeps P E := by
  induction m using (wellFounded_next interpreter limit).induction with
  | _ m ih =>
    rw [run_eq]
    have hstep : (step interpreter limit m).Keeps P E tags := step_keeps hkeep hbroken h hm
    cases heq : step interpreter limit m with
    | halt stop =>
      rw [heq] at hstep
      exact hstep
    | next m' =>
      rw [heq] at hstep
      exact ih m' heq hstep.2 hstep.1

end Machine

/-- A run of a program over some instructions keeps what its interpreter keeps on these. -/
theorem Program.Over.run_keeps {σ : Type} {P E : σ → Prop} {tags : Tag → Prop}
    {interpreter : Interpreter σ} {limit : Option Nat}
    (hkeep : ∀ n i s a s', i.Over tags → P s → interpreter n i s = (some a, s') → P s')
    (hbroken : ∀ n i s s', i.Over tags → P s → interpreter n i s = (none, s') → E s')
    {program : Program} (h : program.Over tags) {s : σ} (hs : P s) :
    (program.run interpreter limit s).Keeps P E :=
  Machine.run_keeps (m := { program, state := s }) hkeep hbroken
    ⟨h, Pending.over_empty, fun _ hguard => absurd hguard List.not_mem_nil⟩ hs

/-- A run of a program keeps what its interpreter keeps. -/
theorem Program.run_keeps {σ : Type} {P E : σ → Prop} {interpreter : Interpreter σ}
    {limit : Option Nat} (hkeep : ∀ n i s a s', P s → interpreter n i s = (some a, s') → P s')
    (hbroken : ∀ n i s s', P s → interpreter n i s = (none, s') → E s') (program : Program)
    {s : σ} (hs : P s) : (program.run interpreter limit s).Keeps P E :=
  program.over_all.run_keeps (fun n i s a s' _ => hkeep n i s a s')
    (fun n i s s' _ => hbroken n i s s') hs

end EffectGraph
