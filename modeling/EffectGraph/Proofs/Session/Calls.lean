import EffectGraph.Proofs.Session.Acts
import EffectGraph.Proofs.Program.Over

/-!
# The calls of a script

`Calls` restricts the calls of scripts: which programs they run, whether they remove nodes that they
have not created, and which listeners they add. A reaction removes nodes, but only such as it has
created, so it is no removal in this sense. What a script makes of its own accord is
`Script.Makes`; what the handlers of a session make is `Session.Makes`.
-/

namespace EffectGraph

/-- Restrictions on the calls of scripts. -/
structure Calls where
  /-- Any node may be removed. -/
  removes : Prop
  /-- Programs may perform instructions with the tag. -/
  tags : Tag → Prop
  /-- The listener may be added. -/
  listens : (Value → Script) → Prop

namespace Calls

/-- There are no restrictions. -/
def all : Calls := ⟨True, fun _ => True, fun _ => True⟩

/-- What such calls do at once from the moment on when the next node takes the slot: only newer nodes
are evaluated. -/
def scope (calls : Calls) (mark : Nat) : Scope where
  evaluates id := mark ≤ id.index
  removes id := calls.removes ∨ mark ≤ id.index
  listens := calls.listens

end Calls

/-- The script makes such calls only, and so do the scripts that it runs. -/
inductive Script.Makes (calls : Calls) : Script → Prop where
  | done (result : Except Interrupt Value) : Makes calls (.done result)
  | ask {request : Request} {next : request.Reply → Script}
    (hremoves : request.Removes → calls.removes) (hnext : ∀ reply, Makes calls (next reply)) :
    Makes calls (.ask request next)
  | react {program : Program} {next : Except Failure Value → Script}
    (hprogram : program.Over calls.tags) (hnext : ∀ result, Makes calls (next result)) :
    Makes calls (.react program next)
  | derive {operands : List Value} {compute : List Value → Script}
    {next : Except Interrupt Value → Script} (hcompute : ∀ inputs, Makes calls (compute inputs))
    (hnext : ∀ reply, Makes calls (next reply)) : Makes calls (.derive operands compute next)
  | watch {input : Value} {effect : Value → Script}
    {next : Except Interrupt (Option SignalId) → Script}
    (heffect : ∀ value, Makes calls (effect value)) (hnext : ∀ reply, Makes calls (next reply)) :
    Makes calls (.watch input effect next)
  | set {cell : SignalId} {value : Value} {next : Except Failure Unit → Script}
    (hnext : ∀ reply, Makes calls (next reply)) : Makes calls (.set cell value next)
  | fire {source : SourceId} {payload : Value} {next : Except Failure Unit → Script}
    (hnext : ∀ reply, Makes calls (next reply)) : Makes calls (.fire source payload next)
  | fold {source : SourceId} {initial : Value} {reducer : Value → Value → Script}
    {next : Except Failure SignalId → Script} (hnext : ∀ reply, Makes calls (next reply)) :
    Makes calls (.fold source initial reducer next)
  | foldProgram {source : SourceId} {initial : Value} {reducer : Value → Value → Program}
    {next : Except Failure SignalId → Script} (hnext : ∀ reply, Makes calls (next reply)) :
    Makes calls (.foldProgram source initial reducer next)
  | listen {source : SourceId} {listener : Value → Script} {next : Except Failure Unit → Script}
    (hlistens : calls.listens listener) (hnext : ∀ reply, Makes calls (next reply)) :
    Makes calls (.listen source listener next)
  | run {program : Program} {next : Except Failure Value → Script}
    (hprogram : program.Over calls.tags) (hnext : ∀ reply, Makes calls (next reply)) :
    Makes calls (.run program next)
  | runWith {settings : Settings} {program : Program} {interpreter : Instruction → Script}
    {next : Except Failure Value → Script} (hinterpreter : ∀ i, Makes calls (interpreter i))
    (hnext : ∀ reply, Makes calls (next reply)) :
    Makes calls (.runWith settings program interpreter next)
  | dispatch {i : Instruction} {next : Except Interrupt Value → Script} (hi : i.Over calls.tags)
    (hnext : ∀ reply, Makes calls (next reply)) : Makes calls (.dispatch i next)

/-- Without restrictions a script makes any calls. -/
theorem Script.makes_all (script : Script) : script.Makes .all := by
  induction script with
  | done result => exact .done result
  | ask request next ih => exact .ask (fun _ => trivial) ih
  | derive operands compute next ihcompute ih => exact .derive ihcompute ih
  | watch input effect next iheffect ih => exact .watch iheffect ih
  | set cell value next ih => exact .set ih
  | fire source payload next ih => exact .fire ih
  | fold source initial reducer next _ ih => exact .fold ih
  | foldProgram source initial reducer next ih => exact .foldProgram ih
  | listen source listener next _ ih => exact .listen trivial ih
  | run program next ih => exact .run program.over_all ih
  | runWith settings program interpreter next ihinterpreter ih => exact .runWith ihinterpreter ih
  | dispatch instruction next ih => exact .dispatch (Program.over_all _) ih

/-- The handlers of the session make such calls only, if the instructions they are given perform
nothing else. -/
def Session.Makes (session : Session) (calls : Calls) : Prop :=
  ∀ i handler, i.Over calls.tags → Keyed.get? i.tag session.handlers = some handler →
    (handler i).Makes calls

theorem Session.makes_all (session : Session) : session.Makes .all :=
  fun i handler _ _ => (handler i).makes_all

end EffectGraph
