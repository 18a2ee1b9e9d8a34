import EffectGraph.Failure

/-!
# Programs and instructions

A `Program` is an inert description of a computation. It returns a value, raises a payload, performs
an `Instruction`, continues another program with a function of its value, or runs a body whose
raised payloads a handler resolves. Nothing happens until a program is run against an interpreter.

An instruction describes one effect: a tag, named operands and the shape of its result. An operand
is a value, a program that is run before the instruction is performed, or a function that handlers
call to obtain further programs.

The leftmost part of a program that is not a `bind` is its *head*; the functions of the binds around
it, from the inside out, are the *queue* of continuations that wait for the value of the head.
`Program.split` takes a program apart this way.

To run a program nothing more has to be known of it than how it splits. A type of programs that can be
split is an `Unfolding`. `Program` is one in which programs come to an end: what a continuation gives
is a part of the program. In others a program may unfold for ever.
-/

namespace EffectGraph

mutual

/-- A description of a computation. -/
inductive Program where
  /-- Finish with a value. -/
  | pure (value : Value)
  /-- Raise a payload. -/
  | throw (payload : Value)
  /-- Perform an instruction and finish with its result. -/
  | perform (instruction : Instruction)
  /-- Run a program and continue with what its value gives. -/
  | bind (first : Program) (next : Value → Program)
  /-- Run a body; if it raises a payload, continue with what the handler gives for it. -/
  | attempt (body : Program) (handler : Value → Program)

/-- An operand of an instruction. -/
inductive Operand where
  /-- A value. -/
  | value (value : Value)
  /-- A program that is run before the instruction is performed. -/
  | program (program : Program)
  /-- A function from argument values to a program. -/
  | function (apply : List Value → Program)

/-- The description of one effect. -/
structure Instruction where
  /-- The kind of effect. -/
  tag : Tag
  /-- The operands with their names, in declaration order. -/
  operands : List (String × Operand)
  /-- The shape that the result shall have. -/
  result : Shape

end

/-- What a program does with a value it waits for. -/
abbrev Continuation (P : Type := Program) := Value → P

instance : Inhabited Program := ⟨.pure .unit⟩

/-- The first thing a program does. -/
inductive Program.Head (P : Type := Program) (I : Type := Instruction) where
  /-- Finish with a value. -/
  | pure (value : Value)
  /-- Raise a payload. -/
  | throw (payload : Value)
  /-- Perform an instruction. -/
  | perform (instruction : I)
  /-- Run a body under a handler. -/
  | attempt (body : P) (handler : Continuation P)

/-- A type of programs, with the type of the instructions that they perform. A program unfolds as it is
run: its head is dealt with, and continuations give further programs, which need not be parts of it. -/
class Unfolding (P : Type) (I : outParam Type) where
  /-- The head of a program and the continuations that wait for its value. -/
  split : P → Program.Head P I × List (Continuation P)
  /-- The first operand of an instruction that is a program, and the instruction that its value
  makes. -/
  pending? : I → Option (P × (Value → I))
  /-- The program that is a finished value. -/
  finished : Value → P
  /-- The program that performs an instruction and finishes with its result. -/
  single : I → P
  split_finished : ∀ value, split (finished value) = (.pure value, [])
  split_single : ∀ instruction, split (single instruction) = (.perform instruction, [])

namespace Program

/-- The head of a program, and its queue of continuations in front of the given ones. -/
def splitOnto (queue : List Continuation) : Program → Head × List Continuation
  | .pure value => (.pure value, queue)
  | .throw payload => (.throw payload, queue)
  | .perform instruction => (.perform instruction, queue)
  | .bind first next => splitOnto (next :: queue) first
  | .attempt body handler => (.attempt body handler, queue)

/-- The head of a program and the continuations that wait for its value. -/
def split (program : Program) : Head × List Continuation := splitOnto [] program

/-- The program is a finished value. -/
def isDone : Program → Bool
  | .pure _ => true
  | _ => false

/-- The instruction that the program performs first, if its head is one. -/
def firstInstruction? (program : Program) : Option Instruction :=
  match program.split.1 with
  | .perform instruction => some instruction
  | _ => none

end Program

namespace Operand

/-- What an operand is, in the text of a failure. -/
def kindName : Operand → String
  | .value v => v.shape.name
  | .program _ => "program"
  | .function _ => "callable"

/-- The operand is a program. -/
def isProgram : Operand → Bool
  | .program _ => true
  | _ => false

/-- The operand is a function. -/
def isFunction : Operand → Bool
  | .function _ => true
  | _ => false

end Operand

namespace Instruction

/-- The names of the operands, in declaration order. -/
def operandNames (i : Instruction) : List String := i.operands.map (·.1)

/-- No operand is a program any more. -/
def isResolved (i : Instruction) : Bool := i.operands.all fun o => !o.2.isProgram

/-- Takes the first program out of some operands and leaves unit in its place: the place, the program
and the operands. -/
def takePending? : List (String × Operand) →
    Option (Nat × Program × List (String × Operand))
  | [] => none
  | (name, .program p) :: rest => some (0, p, (name, .value .unit) :: rest)
  | operand :: rest => (takePending? rest).map fun (slot, p, rest) => (slot + 1, p, operand :: rest)

/-- The instruction with a value as the operand at this place. -/
def fill (i : Instruction) (slot : Nat) (value : Value) : Instruction :=
  { i with operands := i.operands.modify slot fun (name, _) => (name, .value value) }

/-- The first operand that is a program, and the instruction that its value makes: until there is
one, the instruction is kept with unit in the place of the program. -/
def pending? (i : Instruction) : Option (Program × (Value → Instruction)) :=
  (takePending? i.operands).map fun (slot, p, operands) => (p, fill { i with operands } slot)

/-- The first operand of a name. -/
def operand (i : Instruction) (name : String) : Except Failure Operand :=
  match i.operands.find? (·.1 = name) with
  | some (_, operand) => .ok operand
  | none => .error (.missingOperand i.tag name)

/-- The failure of an operand that is not what its handler requires. -/
def mismatch (i : Instruction) (name expected found : String) : Failure :=
  .operandType i.tag name expected found

/-- The value operand of a name. -/
def value (i : Instruction) (name : String) : Except Failure Value := do
  match ← i.operand name with
  | .value v => .ok v
  | .program _ => .error (.unresolvedOperand i.tag name)
  | .function f => .error (i.mismatch name "a value" (Operand.function f).kindName)

/-- What a named value operand is read as, or the failure that names what was expected. -/
def read {α : Type} (i : Instruction) (name expected : String) (as? : Value → Option α) :
    Except Failure α := do
  let v ← i.value name
  match as? v with
  | some a => .ok a
  | none => .error (i.mismatch name expected v.shape.name)

/-- The number operand of a name. -/
def number (i : Instruction) (name : String) : Except Failure Float :=
  i.read name "a number" Value.number?

/-- The text operand of a name. -/
def text (i : Instruction) (name : String) : Except Failure String :=
  i.read name "text" Value.text?

/-- The element operand of a name. -/
def element (i : Instruction) (name : String) : Except Failure ElementId :=
  i.read name "an element" Value.element?

/-- The source operand of a name. -/
def source (i : Instruction) (name : String) : Except Failure SourceId :=
  i.read name "an event source" Value.source?

/-- The signal operand of a name. -/
def signal (i : Instruction) (name : String) : Except Failure SignalId :=
  i.read name "a signal" Value.signal?

/-- The function operand of a name. -/
def function (i : Instruction) (name : String) : Except Failure (List Value → Program) := do
  match ← i.operand name with
  | .function f => .ok f
  | other => .error (i.mismatch name "a callable" other.kindName)

/-- The values of all operands that are not functions, in declaration order. Each is looked up by
its name. -/
def values (i : Instruction) : Except Failure (List Value) :=
  (i.operands.filter fun o => !o.2.isFunction).mapM fun o => i.value o.1

/-- The text of an operand in the description of an instruction. -/
def operandText : String × Operand → String
  | (name, .value v) => name ++ "=" ++ v.display
  | (name, other) => name ++ "=<" ++ other.kindName ++ ">"

/-- The description of an instruction. -/
def described (i : Instruction) : String :=
  Text.described "Instruction"
    [("tag", Text.quoted i.tag),
     ("operands", Text.bracketed (i.operands.map fun o => Text.quoted (operandText o))),
     ("result", i.result.described)]

end Instruction

namespace Program

/-- The text of the head of a program. -/
def Head.text : Head → String
  | .pure value => "Pure(" ++ value.display ++ ")"
  | .throw payload => "Throw(" ++ payload.display ++ ")"
  | .perform instruction => "Instr(" ++ instruction.tag ++ ")"
  | .attempt _ _ => "Catch"

/-- The description of a program: its head and the number of continuations that wait for it. -/
def described (program : Program) : String :=
  let (head, queue) := program.split
  Text.described "Program"
    [("head", Text.quoted head.text), ("queued", toString queue.length)]

instance : Unfolding Program Instruction where
  split := split
  pending? := Instruction.pending?
  finished := .pure
  single := .perform
  split_finished _ := rfl
  split_single _ := rfl

end Program

end EffectGraph
