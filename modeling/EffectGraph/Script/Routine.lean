import EffectGraph.Script.Basic

/-!
# Writing scripts

A `Routine` is a script that still waits for what to do with its result. Routines form a monad, in
which an interrupt skips the rest, so host code is written with `do`; `Routine.script` turns a
finished routine into a script. A failure in host code is an interrupt: one that comes from an
uncaught payload is raised again, and all others abort.
-/

namespace EffectGraph

/-- Host code that yields an `α` or is interrupted, waiting for what to do next. -/
def Routine (α : Type) : Type := (Except Interrupt α → Script) → Script

namespace Routine

variable {α β : Type}

instance : Monad Routine where
  pure a := fun next => next (.ok a)
  bind routine f := fun next => routine fun
    | .ok a => f a next
    | .error interrupt => next (.error interrupt)

/-- The script of a routine. -/
def script (routine : Routine Value) : Script := routine .done

/-- Ends with an interrupt. -/
def interrupt (i : Interrupt) : Routine α := fun next => next (.error i)

/-- Raises a payload. -/
def raise (payload : Value) : Routine α := interrupt (.raised payload)

/-- Yields a result, or ends with its failure. -/
def ofExcept : Except Failure α → Routine α
  | .ok a => pure a
  | .error failure => interrupt (.ofFailure failure)

instance : MonadLift (Except Failure) Routine := ⟨ofExcept⟩

/-- A call that replies with a result or a failure. -/
def call (script : (Except Failure α → Script) → Script) : Routine α :=
  fun next => script fun reply => ofExcept reply next

/-- Makes a request and yields its reply. -/
def ask (request : Request) : Routine request.Reply :=
  fun next => .ask request fun reply => next (.ok reply)

/-- The value of a signal. -/
def sample (id : SignalId) : Routine Value := call (.ask (.sample id))

/-- A value with its signal handles replaced by the values of the signals. -/
def read (value : Value) : Routine Value := call (.ask (.read value))

/-- A new cell. -/
def cell (initial : Value) : Routine SignalId := ask (.cell initial)

/-- Writes a cell. -/
def set (cell : SignalId) (value : Value) : Routine Unit := call (.set cell value)

/-- A value computed from operands, or a signal that is kept at it. -/
def derive (operands : List Value) (compute : List Value → Routine Value) : Routine Value :=
  fun next => .derive operands (fun inputs => (compute inputs).script) next

/-- Runs an effect now and, if its input depends on a signal, on every change. -/
def watch (input : Value) (effect : Value → Routine Value) : Routine (Option SignalId) :=
  fun next => .watch input (fun value => (effect value).script) next

/-- A new source that only the host fires. -/
def source (name : String) : Routine SourceId := ask (.source name)

/-- A new source that is fired by an event of an element. -/
def on (element : ElementId) (event : String) : Routine SourceId := ask (.on element event)

/-- A cell that a reducer writes on every occurrence of a source. -/
def fold (source : SourceId) (initial : Value) (reducer : Value → Value → Routine Value) :
    Routine SignalId :=
  call (.fold source initial fun current payload => (reducer current payload).script)

/-- A cell that is written on every occurrence of a source with the value of a program. -/
def foldM (source : SourceId) (initial : Program) (reducer : Value → Value → Program) :
    Routine SignalId :=
  call (Script.foldM source initial reducer)

/-- A cell that is set to the same value on every occurrence of a source. -/
def constantOn (source : SourceId) (value : Value) : Routine SignalId :=
  call (Script.constantOn source value)

/-- Runs a listener on every occurrence of a source. -/
def listen (source : SourceId) (listener : Value → Routine Value) : Routine Unit :=
  call (.listen source fun payload => (listener payload).script)

/-- A new source that fires whenever one of two does. -/
def merge (left right : SourceId) : Routine SourceId := call (.ask (.merge left right))

/-- Runs a program with the handlers of the session. -/
def run (program : Program) : Routine Value := call (.run program)

/-- Runs a program with an interpreter of its own. -/
def runWith (settings : Settings) (program : Program) (interpreter : Instruction → Routine Value) :
    Routine Value :=
  call (.runWith settings program fun i => (interpreter i).script)

/-- Runs a program in reaction to an occurrence. -/
def react (program : Program) : Routine Value := call (Script.react program)

/-- Delivers an event of an element to every source bound to it. -/
def dispatchEvent (element : ElementId) (event : String) (payload : Value) : Routine Nat :=
  call (Script.dispatchEvent element event payload)

/-- Reports an event. -/
def report (event : Event) : Routine Unit := ask (.record (.event event))

/-- A property of an element. -/
def property (id : ElementId) (name : String) : Routine Value := call (.ask (.property id name))

/-- Writes a property of an element. -/
def setProperty (id : ElementId) (name : String) (value : Value) : Routine Unit :=
  call (.ask (.setProperty id name value))

end Routine

end EffectGraph
