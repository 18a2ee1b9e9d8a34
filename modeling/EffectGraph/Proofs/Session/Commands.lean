import EffectGraph.Proofs.Catalog.Answers
import EffectGraph.Proofs.Program.Calling
import EffectGraph.Proofs.Session.MirroringSessions

/-!
# Single instructions

A session that offers a bundle answers its instructions with their handlers, and no check of the
result is in the way of a handler that gives what is declared (`Session.dispatch_eq_exec`). To run a
program of one instruction is to have it answered, if a single step may be taken
(`Exec.runProgram_perform_eq`). Any program that would yield a value does so unless it is cut off
(`Exec.runProgram_yields`). Where nothing is exchanged, actions that mirror each other do the same
but for what is noted of it (`Exec.SameFrom`).
-/

namespace EffectGraph

open Exec World

namespace Exec

variable {α β : Type}

/-- Started in this state, both actions end with the same result or are cut off, in states that differ
only in the past and in what has been reported. -/
def SameFrom (x y : Exec α) (w : World) : Prop :=
  (y w).1 = (x w).1 ∧ (x w).2.Like .empty (y w).2

section

variable {x y z : Exec α} {w : World}

theorem Mirrors.sameFrom (h : x.Mirrors .empty y) (w : World) : x.SameFrom y w :=
  (h w w (.refl w)).same fun _ _ _ _ => trivial

theorem SameFrom.symm (h : x.SameFrom y w) : y.SameFrom x w := ⟨h.1.symm, h.2.symm_of_empty⟩

theorem SameFrom.trans (h : x.SameFrom y w) (h' : y.SameFrom z w) : x.SameFrom z w :=
  ⟨h'.1.trans h.1, h.2.trans_of_empty h'.2⟩

theorem SameFrom.bind {f : α → Exec β} (h : x.SameFrom y w) (hf : ∀ a, (f a).Mirrored .empty) :
    (x >>= f).SameFrom (y >>= f) w := by
  obtain ⟨hreply, hlike⟩ := h
  unfold SameFrom
  rcases hx : x w with ⟨_ | a, v⟩ <;> rcases hy : y w with ⟨_ | b, v'⟩ <;> rw [hx, hy] at hreply hlike
  · rw [bind_eq_of_eq_none hx, bind_eq_of_eq_none hy]
    exact ⟨rfl, hlike⟩
  · cases hreply
  · cases hreply
  · obtain rfl := Option.some.inj hreply
    rw [bind_eq_of_eq_some hx, bind_eq_of_eq_some hy]
    exact (hf b v v' hlike).same fun _ _ _ _ => trivial

end

/-- An action goes on in the same way wherever it gets to the same point. -/
theorem bind_eq_of_eq {x y : Exec α} {f : α → Exec β} {w : World} (h : x w = y w) :
    (x >>= f) w = (y >>= f) w := by
  simp only [Bind.bind, OptionT.bind, OptionT.mk, StateT.bind, h]

variable {settings : Settings} {f : Instruction → Exec (Except Interrupt Value)}

/-- Without a limit, running a value reports that and yields it. -/
theorem runProgram_pure (hlimit : settings.stepLimit = none) (value : Value) :
    runProgram settings f (.pure value) =
      report (.programFinished 1) >>= fun _ => pure (.ok value) := by
  have hran (w : World) : Program.run (announced settings f) settings.stepLimit (.pure value) w =
      ⟨.yielded value, 1, w⟩ := by
    rw [Program.run, Machine.run_eq, hlimit]
    rfl
  funext w
  unfold runProgram
  rw [get_bind_eq, hran w]
  rfl

/-- What a program gives whose only instruction was answered. -/
def conclude : Except Interrupt Value → Exec (Except Failure Value)
  | .ok value => do
    report (.programFinished 1)
    return .ok value
  | .error (.raised payload) => do
    report (.failureEscaped 1 payload)
    return .error (.uncaught payload)
  | .error (.aborted failure) => return .error failure

/-- A program that performs an instruction is the answer to it, if a single step may be taken. -/
theorem runProgram_perform_eq {i : Instruction} (hi : i.pending? = none) :
    runProgram settings f (.perform i) =
      match Machine.exceeded? settings.stepLimit 1 with
      | some limit => report (.stepLimitReached limit) >>= fun _ => pure (.error (.stepLimit limit))
      | none => announced settings f 1 i >>= conclude := by
  funext w
  unfold runProgram
  rw [get_bind_eq, Program.run, Machine.run_eq, Machine.step]
  dsimp only
  rw [Nat.zero_add]
  cases Machine.exceeded? settings.stepLimit 1 with
  | some limit => rfl
  | none =>
    -- Nothing waits behind the instruction, so its answer ends the run.
    have hsplit : Unfolding.split (Program.perform i) = (.perform i, []) := rfl
    rw [hsplit]
    simp only [Machine.dispatch, Machine.perform, Unfolding.pending?, hi]
    rcases hcall : announced settings f 1 i w with ⟨_ | (payload | failure) | value, v⟩
    · rw [bind_eq_of_eq_none hcall]
      rfl
    · rw [bind_eq_of_eq_some hcall]
      rfl
    · rw [bind_eq_of_eq_some hcall]
      rfl
    · rw [bind_eq_of_eq_some hcall]
      rfl

/-- Where runs of a program end alike, so does what is made of them. -/
theorem runProgram_eq_of_run_eq {settings' : Settings} {program : Program} {w : World}
    (h : program.run (announced settings f) settings.stepLimit w =
      program.run (announced settings' f) settings'.stepLimit w) :
    runProgram settings f program w = runProgram settings' f program w := by
  unfold runProgram
  rw [get_bind_eq, get_bind_eq, h]

/-- A program that would yield a value yields it, in the same state but for what is noted of it, or it
is cut off by a limit. -/
theorem runProgram_yields (settings : Settings) (hf : ∀ i, (f i).Mirrored .empty) {program : Program}
    {w t : World} {calls : List Instruction} {value : Value}
    (h : program.RunsTo f w calls (some (.ok value)) t) :
    ∃ result w', runProgram settings f program w = (some result, w') ∧
      ((result = .ok value ∧ t.Like .empty w') ∨
        ∃ limit, settings.stepLimit = some limit ∧ result = .error (.stepLimit limit)) := by
  have hunlimited (settings : Settings) (hlimit : settings.stepLimit = none) :
      ∃ w', runProgram settings f program w = (some (.ok value), w') ∧ t.Like .empty w' := by
    have hran := (mirrors_evaluated hlimit program hf).sameFrom w
    have hevaluated : program.evaluated f w = (some (.ok value), t) := by
      rw [Program.evaluated, h.eval_unrecorded]
      rfl
    obtain ⟨hresult, hlike⟩ := hran
    rw [hevaluated] at hresult hlike
    exact ⟨(runProgram settings f program w).2, Prod.ext hresult.symm rfl, hlike.symm_of_empty⟩
  cases hlimit : settings.stepLimit with
  | none =>
    obtain ⟨w', hran, hlike⟩ := hunlimited settings hlimit
    exact ⟨_, w', hran, .inl ⟨rfl, hlike⟩⟩
  | some limit =>
    rcases Nat.lt_or_ge limit (program.run (announced settings f) none w).steps with hlt | hle
    · obtain ⟨hrun, -⟩ := Program.run_eq_of_lt_steps hlt
      unfold runProgram
      rw [get_bind_eq, hlimit, hrun]
      exact ⟨_, _, rfl, .inr ⟨limit, rfl, rfl⟩⟩
    · obtain ⟨hrun, -⟩ := Program.run_eq_of_steps_le hle
      obtain ⟨w', hran, hlike⟩ := hunlimited { settings with stepLimit := none } rfl
      refine ⟨_, w', (runProgram_eq_of_run_eq ?_).trans hran, .inl ⟨rfl, hlike⟩⟩
      rw [hlimit, hrun]
      rfl

variable {e : Exchange}

theorem mirrored_conclude (answer : Except Interrupt Value) : (conclude answer).Mirrored e := by
  rcases answer with (payload | failure) | value
  · exact (mirrors_report _ _).bind fun _ => mirrored_pure _
  · exact mirrored_pure _
  · exact (mirrors_report _ _).bind fun _ => mirrored_pure _

/-- Programs that perform one instruction each mirror each other if the answers do, provided that a
single step may be taken. -/
theorem mirrorsFrom_runProgram_perform {i j : Instruction} (hi : i.pending? = none)
    (hj : j.pending? = none) {w w' : World} (hw : w.Like e w')
    (h : Machine.exceeded? settings.stepLimit 1 = none → ∀ v v', v.Like e v' → v.graph = w.graph →
      (f i).MirrorsFrom e (f j) v v') :
    (runProgram settings f (.perform i)).MirrorsFrom e (runProgram settings f (.perform j)) w w' := by
  rw [runProgram_perform_eq hi, runProgram_perform_eq hj]
  cases hlimit : Machine.exceeded? settings.stepLimit 1 with
  | some limit => exact ((mirrors_report _ _).bind fun _ => mirrored_pure _) w w' hw
  | none =>
    refine MirrorsFrom.bind ?_ mirrored_conclude
    unfold announced
    split
    · exact (h hlimit _ _ (hw.report _ _) rfl).of_eq rfl rfl rfl
    · exact h hlimit w w' hw rfl

end Exec

namespace Session

variable {session : Session} {hooks : Hooks}

/-- The session answers the instructions of the bundle with its handlers. -/
def Offers (session : Session) (bundle : Bundle) : Prop :=
  ∀ entry ∈ bundle.handlers, Keyed.get? entry.1 session.handlers = some entry.2

/-- A session with nothing but a bundle installed offers it. -/
theorem offers_install {bundle : Bundle} (hnodup : (bundle.handlers.map (·.1)).Nodup)
    (settings : Settings) : ((HandlerTable.empty.install bundle).session settings).Offers bundle := by
  have htable : (HandlerTable.empty.install bundle).handlers = Keyed.ofList bundle.handlers := by
    have hinstalled := HandlerTable.handlers_foldl_install [bundle] .empty
    rwa [List.flatMap_singleton] at hinstalled
  intro entry hentry
  have hfound := Keyed.get?_ofList hnodup hentry
  rwa [← htable] at hfound

/-- When the handler of an instruction gives nothing but what is declared, no check is in its way. -/
theorem dispatch_eq_exec {i : Instruction} {handler : Handler}
    (hfound : Keyed.get? i.tag session.handlers = some handler)
    (hadmits : ∀ w, ((handler i).exec session hooks).Leaves
      (fun result _ => ∀ value, result = .ok value → i.result.admits value.shape) (fun _ => True) w) :
    dispatch session hooks i = (handler i).exec session hooks := by
  funext w
  unfold dispatch
  rw [hfound]
  dsimp only
  rcases hran : (handler i).exec session hooks w with ⟨_ | result, v⟩
  · exact bind_eq_of_eq_none hran
  · rw [bind_eq_of_eq_some hran]
    cases result with
    | error interrupt => rfl
    | ok value =>
      have hvalue := (hadmits w).of_eq_some hran value rfl
      dsimp only
      split
      · unfold checkShape
        rw [if_pos hvalue]
        rfl
      · rfl

end Session

end EffectGraph
