import EffectGraph.Proofs.Program.Limits
import EffectGraph.Proofs.Program.Performing

/-!
# Programs without effects

A program that performs no instruction is run in the same way by every interpreter, whose state stays
as it is (`Program.EffectFree.run_eq`). All that a run of it depends on is the limit of its steps, and
this only if the run exceeds it (`Program.Within.alone_eq`).
-/

namespace EffectGraph

namespace Program

/-- The program only yields and raises, binds and attempts. -/
def EffectFree (p : Program) : Prop := p.Performs fun _ => False

/-- The run of a program that asks nobody. -/
def alone (limit : Option Nat) (p : Program) : Halt Unit := p.run (fun _ _ s => (none, s)) limit ()

/-- A run of the program that asks nobody takes no more steps than the limit allows, if there is
one. -/
def Within (limit : Option Nat) (p : Program) : Prop :=
  ∀ most, limit = some most → (p.alone none).steps ≤ most

variable {p : Program} {limit : Option Nat}

/-- A value is yielded in a single step. -/
theorem alone_pure (h : Machine.exceeded? limit 1 = none) (value : Value) :
    (Program.pure value).alone limit = ⟨.yielded value, 1, ()⟩ := by
  rw [alone, run, Machine.run_eq, Machine.step]
  dsimp only
  rw [Nat.zero_add, h]
  rfl

theorem Within.alone_eq (h : p.Within limit) : p.alone limit = p.alone none := by
  cases limit with
  | none => rfl
  | some most => exact (run_eq_of_steps_le (h most rfl)).1

/-- Two runs without effects end alike, whoever is there to answer. -/
theorem EffectFree.run_eq {σ : Type} (h : p.EffectFree) (interpreter : Interpreter σ)
    (limit : Option Nat) (s : σ) :
    p.run interpreter limit s = ⟨(p.alone limit).outcome, (p.alone limit).steps, s⟩ ∧
      (p.alone limit).outcome ≠ .unanswered := by
  have hconfined : p.Confined (fun _ => True) (·.Performs fun _ => False) :=
    Performs.confined (fun _ _ _ hi => hi.elim) (fun _ => trivial) (fun _ => trivial) h
  have hruns : (p.run interpreter limit s).Pairs (fun t _ => t = s) (fun _ _ => False)
      (fun _ => True) (p.alone limit) :=
    hconfined.run_pairs (fun _ => trivial) (fun _ _ _ _ hi => hi.self.elim) rfl
  obtain ⟨houtcome, hsteps, hcut, hended, -⟩ := hruns
  rw [houtcome, hsteps]
  exact ⟨congrArg (Halt.mk _ _) (hended hcut), hcut⟩

end Program

end EffectGraph
