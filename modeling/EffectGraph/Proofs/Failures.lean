import EffectGraph.Failure

/-!
# Reasons to fail

`Fails P result` says that a result that is none has one of the reasons in `P`. A failure is ordinary
unless an instruction is to blame for it: one that lacks an operand, has one that was not run, or whose
handler has produced another shape than it declares.
-/

namespace EffectGraph

/-- All failures but those of a malformed instruction and of a result that has not the declared shape.
-/
def Failure.IsOrdinary : Failure → Prop
  | .missingOperand .. | .unresolvedOperand .. | .resultShape .. => False
  | _ => True

/-- If there is no result, then for one of these reasons. -/
def Fails {ε α : Type} (P : ε → Prop) (result : Except ε α) : Prop := ∀ e, result = .error e → P e

/-- An interrupt that is a failure is one of these. -/
def Interrupt.AbortsWith (P : Failure → Prop) (interrupt : Interrupt) : Prop :=
  ∀ failure, interrupt = .aborted failure → P failure

section

variable {ε ε' α β : Type} {P : ε → Prop} {P' : ε' → Prop}

theorem fails_ok (a : α) : Fails P (.ok a) := fun _ h => by cases h

theorem fails_error {e : ε} (h : P e) : Fails P (.error e : Except ε α) := by
  intro e' heq
  obtain rfl := Except.error.inj heq
  exact h

theorem Fails.mono {result : Except ε α} {Q : ε → Prop} (h : Fails P result)
    (hsub : ∀ e, P e → Q e) : Fails Q result := fun e heq => hsub e (h e heq)

theorem Fails.bind {result : Except ε α} {f : α → Except ε β} (h : Fails P result)
    (hf : ∀ a, result = .ok a → Fails P (f a)) : Fails P (result >>= f) := by
  cases result with
  | error e => exact fails_error (h e rfl)
  | ok a => exact hf a rfl

theorem Fails.map {result : Except ε α} (h : Fails P result) (f : α → β) :
    Fails P (result.map f) := by
  cases result with
  | error e => exact fails_error (h e rfl)
  | ok a => exact fails_ok (f a)

theorem Fails.mapError {result : Except ε α} {g : ε → ε'} (h : Fails P result)
    (hg : ∀ e, P e → P' (g e)) : Fails P' (result.mapError g) := by
  cases result with
  | error e => exact fails_error (hg e (h e rfl))
  | ok a => exact fails_ok a

end

theorem Interrupt.abortsWith_ofFailure {P : Failure → Prop} {failure : Failure} (h : P failure) :
    (ofFailure failure).AbortsWith P := by
  intro failure' heq
  cases failure with
  | uncaught payload => cases heq
  | _ =>
    obtain rfl := Interrupt.aborted.inj heq
    exact h

end EffectGraph
