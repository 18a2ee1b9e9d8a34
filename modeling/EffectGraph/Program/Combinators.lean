import EffectGraph.Program.Basic

/-!
# Combinators of programs

Programs are put together from smaller ones: transformed, run one after another, collected into a
list, and guarded against raised payloads. None of these looks into a program; each is a few binds
and attempts.
-/

namespace EffectGraph

namespace Program

/-- Performs one instruction and continues with its result. -/
def suspend (instruction : Instruction) (resume : Continuation) : Program :=
  (Program.perform instruction).bind resume

/-- Transforms the value of a program. -/
def map (program : Program) (f : Value → Value) : Program := program.bind fun v => .pure (f v)

/-- Runs a program for its effects, then another for its value. -/
def followedBy (program next : Program) : Program := program.bind fun _ => next

/-- The list with an item at its end; what is no list stays as it is. -/
def pushItem (list item : Value) : Value :=
  match list with
  | .list items => .list (items ++ [item])
  | other => other

/-- Runs programs in order and collects their values into a list. -/
def sequence (programs : List Program) : Program :=
  programs.foldl (fun done program => done.bind fun items => program.map (pushItem items))
    (.pure (.list []))

/-- Runs the program of each item in order and collects the values into a list. -/
def traverse {α : Type} (items : List α) (f : α → Program) : Program := sequence (items.map f)

/-- Runs programs in order and keeps the last value, unit if there is none. -/
def chain (programs : List Program) : Program :=
  programs.foldl followedBy (.pure .unit)

/-- Combines the values of two programs, the first of which runs first. -/
def lift2 (a b : Program) (f : Value → Value → Value) : Program := a.bind fun x => b.map (f x)

/-- Continues with the value of an outcome, or raises its payload. -/
def require : Except Value Value → Program
  | .ok value => .pure value
  | .error payload => .throw payload

/-- Like `require`, with a message in place of a payload that says nothing. -/
def requireOr (outcome : Except Value Value) (message : String) : Program :=
  match outcome with
  | .ok value => .pure value
  | .error .unit => .throw (.text message)
  | .error (.text "") => .throw (.text message)
  | .error payload => .throw payload

/-- Requires the outcome that a program yields; a value that is no outcome passes. -/
def requireOutcome (program : Program) : Program :=
  program.bind fun value =>
    match value.outcome? with
    | some outcome => require outcome
    | none => .pure value

/-- Transforms the payload that a program raises. -/
def mapError (program : Program) (f : Value → Value) : Program :=
  program.attempt fun payload => .throw (f payload)

/-- Replaces a raised payload by a value. -/
def orElse (program : Program) (fallback : Value) : Program :=
  program.attempt fun _ => .pure fallback

/-- Replaces a raised payload by what another program does. -/
def recoverWith (program alternative : Program) : Program := program.attempt fun _ => alternative

end Program

end EffectGraph
