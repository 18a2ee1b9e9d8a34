import Mathlib
import EffectGraph.Proofs.Program.Running

/-!
# Runs with a step limit

A limit does not change what a machine does, it only says when to stop: as long as the limit is not
reached, a step is the step that the machine makes without one. So a run with a limit either is the
run without one, or it is cut off where that run stands after as many steps as the limit allows. It
is cut off whatever guards are around it, and it hands nothing more to the interpreter.

This is so for programs of any type (`Unfolding.run_within_limit_or_cut_off`). A program may unfold for
ever; its run without a limit has then no end, and every limit cuts it off. The run of a well-founded
program has an end, which `Program.run` gives (`Program.runs_iff`), and a limit cuts it off exactly if
it takes more steps (`Program.run_eq_of_steps_le`, `Program.run_eq_of_lt_steps`).
-/

namespace EffectGraph

namespace Transition

variable {σ P : Type}

/-- The state of the interpreter after a transition. -/
def state : Transition σ P → σ
  | .next m => m.state
  | .halt stop => stop.state

/-- The number of the last step. -/
def steps : Transition σ P → Nat
  | .next m => m.steps
  | .halt stop => stop.steps

end Transition

namespace Machine

section

variable {σ P I : Type} [Unfolding P I] {interpreter : Interpreter σ I} {limit : Option Nat}

/-! ## Steps are counted -/

theorem resume_steps (value : Value) (pending : Pending P) (guards : List (Guard P)) (steps : Nat)
    (s : σ) : (resume value pending guards steps s).steps = steps := by
  unfold resume
  split
  · rfl
  · split <;> rfl

omit [Unfolding P I] in
theorem raise_steps (payload : Value) (guards : List (Guard P)) (steps : Nat) (s : σ) :
    (raise payload guards steps s).steps = steps := by
  cases guards <;> rfl

theorem perform_steps (i : I) (pending : Pending P) (guards : List (Guard P)) (steps : Nat) (s : σ) :
    (perform interpreter i pending guards steps s).steps = steps := by
  unfold perform
  split
  · rfl
  · split
    · rfl
    · exact resume_steps _ pending guards steps _
    · exact raise_steps _ guards steps _
    · rfl

/-- Every step counts as one, whatever it leads to. -/
theorem step_steps (m : Machine σ P) : (step interpreter limit m).steps = m.steps + 1 := by
  unfold step
  split
  · rfl
  · dsimp only
    cases (Unfolding.split m.program).1 with
    | pure value => exact resume_steps value _ _ _ _
    | throw payload => exact raise_steps payload _ _ _
    | perform i => exact perform_steps i _ _ _ _
    | attempt body handler => rfl

theorem steps_of_next {m m' : Machine σ P} (h : step interpreter limit m = .next m') :
    m'.steps = m.steps + 1 := by
  have hsteps : (step interpreter limit m).steps = m.steps + 1 := step_steps m
  rwa [h] at hsteps

theorem steps_of_halt {m : Machine σ P} {stop : Halt σ}
    (h : step interpreter limit m = .halt stop) : stop.steps = m.steps + 1 := by
  have hsteps : (step interpreter limit m).steps = m.steps + 1 := step_steps m
  rwa [h] at hsteps

/-! ## So many steps -/

/-- So many steps are that many, unless the run ends before. -/
theorem steps_advance (interpreter : Interpreter σ I) (limit : Option Nat) (n : Nat) (m : Machine σ P) :
    match advance interpreter limit n m with
    | .halt stop => m.steps < stop.steps ∧ stop.steps ≤ m.steps + n
    | .next m' => m'.steps = m.steps + n := by
  induction n generalizing m with
  | zero => rfl
  | succ n ih =>
    rw [advance]
    cases hstep : step interpreter limit m with
    | halt stop =>
      have hsteps := steps_of_halt hstep
      dsimp only
      omega
    | next m' =>
      have hsteps := steps_of_next hstep
      have hrest := ih m'
      dsimp only
      cases hadvance : advance interpreter limit n m' with
      | halt stop =>
        rw [hadvance] at hrest
        dsimp only at hrest ⊢
        omega
      | next m'' =>
        rw [hadvance] at hrest
        dsimp only at hrest ⊢
        omega

/-- So many steps and then some are the steps that lead on from where the first ones lead. -/
theorem advance_add (n k : Nat) (m : Machine σ P) :
    advance interpreter limit (n + k) m =
      match advance interpreter limit n m with
      | .halt stop => .halt stop
      | .next m' => advance interpreter limit k m' := by
  induction n generalizing m with
  | zero => rw [Nat.zero_add, advance]
  | succ n ih =>
    rw [Nat.succ_add, advance, advance]
    cases hstep : step interpreter limit m with
    | halt stop => rfl
    | next m' => exact ih m'

/-- A run that ends has ended after as many steps as its end counts, and stays at its end. -/
theorem Ends.advance_eq {m : Machine σ P} {stop : Halt σ} (h : Ends interpreter limit m stop) {n : Nat}
    (hle : stop.steps ≤ m.steps + n) : advance interpreter limit n m = .halt stop := by
  obtain ⟨n', hn'⟩ := h
  have hmore : advance interpreter limit (n' + n) m = .halt stop := by rw [advance_add, hn']
  rw [Nat.add_comm, advance_add] at hmore
  have hsteps := steps_advance interpreter limit n m
  cases hadvance : advance interpreter limit n m with
  | halt stop' =>
    rw [hadvance] at hmore
    exact hmore
  | next m' =>
    -- The run would go on, and count more steps than it has at its end.
    rw [hadvance] at hmore hsteps
    dsimp only at hmore hsteps
    have hlater := steps_advance interpreter limit n' m'
    rw [hmore] at hlater
    dsimp only at hlater
    omega

/-- A run has one end. -/
theorem Ends.unique {m : Machine σ P} {stop stop' : Halt σ} (h : Ends interpreter limit m stop)
    (h' : Ends interpreter limit m stop') : stop = stop' := by
  have hfirst := h.advance_eq (n := stop.steps + stop'.steps) (by omega)
  have hsecond := h'.advance_eq (n := stop.steps + stop'.steps) (by omega)
  exact Transition.halt.inj (hfirst.symm.trans hsecond)

/-! ## Limits -/

/-- A limit that is not reached makes no difference to a step. -/
theorem step_of_lt {n : Nat} {m : Machine σ P} (h : m.steps < n) :
    step interpreter (some n) m = step interpreter none m := by
  have hnone : exceeded? (some n) (m.steps + 1) = none := by
    simp only [exceeded?, Option.filter_eq_none_iff, Option.some.injEq, decide_eq_true_eq]
    omega
  unfold step
  rw [hnone]
  rfl

/-- At the limit the run is cut off before it does anything. -/
theorem step_at_limit (interpreter : Interpreter σ I) {n : Nat} {m : Machine σ P} (h : m.steps = n) :
    step interpreter (some n) m = .halt ⟨.exhausted n, n + 1, m.state⟩ := by
  have hsome : exceeded? (some n) (m.steps + 1) = some n := by
    simp only [exceeded?, Option.filter_eq_some_iff, decide_eq_true_eq, true_and]
    omega
  unfold step
  rw [hsome, h]

/-- A run with a limit is made of as many steps without a limit as are left. The next one would exceed
the limit. -/
theorem advance_limited (n : Nat) {m : Machine σ P} {limit : Nat} (h : m.steps + n = limit) :
    advance interpreter (some limit) (n + 1) m =
      match advance interpreter none n m with
      | .halt stop => .halt stop
      | .next m' => .halt ⟨.exhausted limit, limit + 1, m'.state⟩ := by
  induction n generalizing m with
  | zero =>
    simp only [advance, step_at_limit interpreter h]
  | succ n ih =>
    have hlt : m.steps < limit := by omega
    rw [advance, step_of_lt hlt, advance]
    cases hstep : step interpreter none m with
    | halt stop => rfl
    | next m' =>
      have hsteps := steps_of_next hstep
      exact ih (by omega)

/-- A run with a limit ends like the run without one if that has ended after as many steps as the limit
allows, and else it is cut off. -/
theorem ends_limited (interpreter : Interpreter σ I) {m : Machine σ P} (h : m.steps = 0) (limit : Nat) :
    Ends interpreter (some limit) m
      (match advance interpreter none limit m with
        | .halt stop => stop
        | .next m' => ⟨.exhausted limit, limit + 1, m'.state⟩) := by
  refine ⟨limit + 1, ?_⟩
  rw [advance_limited limit (by omega)]
  cases advance interpreter none limit m with
  | halt stop => rfl
  | next m' => rfl

end

/-! ## Runs of well-founded programs -/

section

variable {σ : Type} {interpreter : Interpreter σ} {limit : Option Nat}

/-- A run goes on from where so many steps lead. -/
theorem run_of_advance (interpreter : Interpreter σ) (limit : Option Nat) (n : Nat) (m : Machine σ) :
    run interpreter limit m =
      match advance interpreter limit n m with
      | .halt stop => stop
      | .next m' => run interpreter limit m' := by
  induction n generalizing m with
  | zero => rfl
  | succ n ih =>
    rw [run_eq, advance]
    cases hstep : step interpreter limit m with
    | halt stop => rfl
    | next m' => exact ih m'

/-- The run of a well-founded program ends. -/
theorem ends_run (m : Machine σ) : Ends interpreter limit m (run interpreter limit m) := by
  induction m using (wellFounded_next interpreter limit).induction with
  | _ m ih =>
    rw [run_eq]
    cases hstep : step interpreter limit m with
    | halt stop => exact ⟨1, by rw [advance, hstep]⟩
    | next m' =>
      obtain ⟨n, hn⟩ := ih m' hstep
      exact ⟨n + 1, by rw [advance, hstep]; exact hn⟩

theorem ends_iff {m : Machine σ} {stop : Halt σ} :
    Ends interpreter limit m stop ↔ run interpreter limit m = stop :=
  ⟨fun h => (ends_run m).unique h, fun h => h ▸ ends_run m⟩

end

/-! ## Recording changes nothing -/

/-- The machine without what was recorded. -/
def forget {σ τ P : Type} (m : Machine (σ × τ) P) : Machine σ P :=
  ⟨m.program, m.pending, m.guards, m.steps, m.state.1⟩

end Machine

/-- The interpreter that also keeps the instructions it is handed, the first one first. -/
def Interpreter.recorded {σ I : Type} (interpreter : Interpreter σ I) :
    Interpreter (σ × List I) I :=
  fun step => Program.recording (interpreter step)

/-- The end of a run without what was recorded. -/
def Halt.forget {σ τ : Type} (stop : Halt (σ × τ)) : Halt σ :=
  ⟨stop.outcome, stop.steps, stop.state.1⟩

/-- The transition without what was recorded. -/
def Transition.forget {σ τ P : Type} : Transition (σ × τ) P → Transition σ P
  | .next m => .next m.forget
  | .halt stop => .halt stop.forget

namespace Machine

variable {σ P I : Type} [Unfolding P I] {interpreter : Interpreter σ I} {limit : Option Nat}

theorem resume_forget {τ : Type} (value : Value) (pending : Pending P) (guards : List (Guard P))
    (steps : Nat) (s : σ × τ) :
    (resume value pending guards steps s).forget = resume value pending guards steps s.1 := by
  unfold resume
  split
  · rfl
  · split <;> rfl

omit [Unfolding P I] in
theorem raise_forget {τ : Type} (payload : Value) (guards : List (Guard P)) (steps : Nat) (s : σ × τ) :
    (raise payload guards steps s).forget = raise payload guards steps s.1 := by
  cases guards <;> rfl

theorem perform_forget (i : I) (pending : Pending P) (guards : List (Guard P)) (steps : Nat)
    (s : σ × List I) :
    (perform interpreter.recorded i pending guards steps s).forget =
      perform interpreter i pending guards steps s.1 := by
  obtain ⟨s, calls⟩ := s
  unfold perform
  split
  · rfl
  · simp only [Interpreter.recorded, Program.recording]
    rcases interpreter steps i s with ⟨_ | (payload | failure) | value, s'⟩
    · rfl
    · exact raise_forget payload guards steps _
    · rfl
    · exact resume_forget value pending guards steps _

theorem step_forget (m : Machine (σ × List I) P) :
    (step interpreter.recorded limit m).forget = step interpreter limit m.forget := by
  unfold step
  simp only [forget]
  split
  · rfl
  · cases (Unfolding.split m.program).1 with
    | pure value => exact resume_forget value _ _ _ _
    | throw payload => exact raise_forget payload _ _ _
    | perform i => exact perform_forget i _ _ _ _
    | attempt body handler => rfl

/-- So many steps do the same whether the instructions are recorded or not. -/
theorem advance_forget (n : Nat) (m : Machine (σ × List I) P) :
    (advance interpreter.recorded limit n m).forget = advance interpreter limit n m.forget := by
  induction n generalizing m with
  | zero => rfl
  | succ n ih =>
    rw [advance, advance, ← step_forget]
    cases step interpreter.recorded limit m with
    | halt stop => rfl
    | next m' => exact ih m'

/-- A run ends as it does when the instructions are recorded. -/
theorem ends_forget_iff {m : Machine (σ × List I) P} {stop : Halt σ} :
    Ends interpreter limit m.forget stop ↔
      ∃ recorded, Ends interpreter.recorded limit m recorded ∧ recorded.forget = stop := by
  constructor
  · rintro ⟨n, hn⟩
    rw [← advance_forget] at hn
    cases hadvance : advance interpreter.recorded limit n m with
    | next m' =>
      rw [hadvance] at hn
      cases hn
    | halt recorded =>
      rw [hadvance] at hn
      exact ⟨recorded, ⟨n, hadvance⟩, Transition.halt.inj hn⟩
  · rintro ⟨recorded, ⟨n, hn⟩, rfl⟩
    exact ⟨n, by rw [← advance_forget, hn]; rfl⟩

/-- A run does the same whether the instructions are recorded or not. -/
theorem run_forget {σ : Type} {interpreter : Interpreter σ} (m : Machine (σ × List Instruction)) :
    (run interpreter.recorded limit m).forget = run interpreter limit m.forget :=
  (ends_iff.1 (ends_forget_iff.2 ⟨_, ends_run m, rfl⟩)).symm

end Machine

/-! ## Runs of programs of any type -/

namespace Unfolding

variable {σ P I : Type} [Unfolding P I] (interpreter : Interpreter σ I)

/-- The run of a program ends so, and these are the instructions that it hands to the interpreter, the
first one first. -/
def Runs (limit : Option Nat) (p : P) (s : σ) (stop : Halt σ) (calls : List I) : Prop :=
  Machine.Ends interpreter.recorded limit { program := p, state := (s, []) }
    ⟨stop.outcome, stop.steps, stop.state, calls⟩

/-- The instructions that the run without a limit hands to the interpreter in its first steps. -/
def callsWithin (n : Nat) (p : P) (s : σ) : List I :=
  (Machine.advance interpreter.recorded none n { program := p, state := (s, []) }).state.2

/-- The state in which the run without a limit leaves the interpreter after its first steps. -/
def stateWithin (n : Nat) (p : P) (s : σ) : σ :=
  (Machine.advance interpreter none n { program := p, state := s }).state

variable {interpreter} {limit : Nat} {p : P} {s : σ} {stop : Halt σ} {calls : List I}

/-- What the first steps do is the same whether the instructions are recorded or not. -/
theorem stateWithin_eq (n : Nat) : stateWithin interpreter n p s =
    (Machine.advance interpreter.recorded none n { program := p, state := (s, []) }).state.1 := by
  have hforget : (Machine.advance interpreter.recorded none n
      { program := p, state := (s, []) }).forget =
        Machine.advance interpreter none n { program := p, state := s } :=
    Machine.advance_forget n _
  unfold stateWithin
  rw [← hforget]
  cases Machine.advance interpreter.recorded none n { program := p, state := (s, []) } with
  | halt stop => rfl
  | next m => rfl

/-- A run has one end, and hands over the same instructions. -/
theorem Runs.unique {limit : Option Nat} {stop' : Halt σ} {calls' : List I}
    (h : Runs interpreter limit p s stop calls) (h' : Runs interpreter limit p s stop' calls') :
    stop = stop' ∧ calls = calls' := by
  have heq := Machine.Ends.unique h h'
  simp only [Halt.mk.injEq, Prod.mk.injEq] at heq
  obtain ⟨houtcome, hsteps, hstate, hcalls⟩ := heq
  obtain ⟨outcome, steps, state⟩ := stop
  obtain ⟨outcome', steps', state'⟩ := stop'
  dsimp only at houtcome hsteps hstate
  exact ⟨by rw [houtcome, hsteps, hstate], hcalls⟩

/-- A run that keeps to the limit ends as it does without one. -/
theorem Runs.limited (h : Runs interpreter none p s stop calls) (hle : stop.steps ≤ limit) :
    Runs interpreter (some limit) p s stop calls := by
  have hlimited := Machine.ends_limited interpreter.recorded
    (m := { program := p, state := (s, []) }) rfl limit
  have hadvance := h.advance_eq (n := limit) (by simpa using hle)
  rwa [hadvance] at hlimited

/-- A run that does not keep to the limit, because it takes more steps or goes on for ever, is cut
off. -/
theorem runs_of_exceeds
    (h : ¬ ∃ stop calls, Runs interpreter none p s stop calls ∧ stop.steps ≤ limit) :
    Runs interpreter (some limit) p s
      ⟨.exhausted limit, limit + 1, stateWithin interpreter limit p s⟩
      (callsWithin interpreter limit p s) := by
  have hlimited := Machine.ends_limited interpreter.recorded
    (m := { program := p, state := (s, []) }) rfl limit
  rw [stateWithin_eq, callsWithin]
  cases hadvance : Machine.advance interpreter.recorded none limit
      { program := p, state := (s, []) } with
  | halt stop =>
    have hsteps := Machine.steps_advance interpreter.recorded none limit
      { program := p, state := (s, []) }
    rw [hadvance] at hsteps
    have hle : stop.steps ≤ limit := by simpa using hsteps.2
    exact absurd ⟨stop.forget, stop.state.2, ⟨limit, hadvance⟩, hle⟩ h
  | next m =>
    rw [hadvance] at hlimited
    exact hlimited

end Unfolding

/-! ## Runs of well-founded programs -/

namespace Program

variable {σ : Type} (interpreter : Interpreter σ)

/-- The instructions that a run hands to the interpreter, the first one first. -/
def calls (limit : Option Nat) (p : Program) (s : σ) : List Instruction :=
  (p.run interpreter.recorded limit (s, [])).state.2

/-- The run of a well-founded program ends, as `Program.run` says. -/
theorem runs_iff {limit : Option Nat} {p : Program} {s : σ} {stop : Halt σ}
    {calls : List Instruction} : Unfolding.Runs interpreter limit p s stop calls ↔
      p.run interpreter limit s = stop ∧ p.calls interpreter limit s = calls := by
  have hforget : (p.run interpreter.recorded limit (s, [])).forget = p.run interpreter limit s :=
    Machine.run_forget _
  refine Machine.ends_iff.trans ?_
  rw [← hforget]
  unfold Program.calls run
  obtain ⟨outcome, steps, state⟩ := Machine.run interpreter.recorded limit
    { program := p, state := (s, []) }
  obtain ⟨outcome', steps', state'⟩ := stop
  simp only [Halt.forget, Halt.mk.injEq, Prod.ext_iff, and_assoc]

variable {interpreter} {limit : Nat} {p : Program} {s : σ}

theorem runs_run (interpreter : Interpreter σ) (limit : Option Nat) (p : Program) (s : σ) :
    Unfolding.Runs interpreter limit p s (p.run interpreter limit s) (p.calls interpreter limit s) :=
  (runs_iff interpreter).2 ⟨rfl, rfl⟩

/-- A run with a limit that the run without one keeps to is that run. -/
theorem run_eq_of_steps_le (h : (p.run interpreter none s).steps ≤ limit) :
    p.run interpreter (some limit) s = p.run interpreter none s ∧
      p.calls interpreter (some limit) s = p.calls interpreter none s :=
  (runs_iff interpreter).1 ((runs_run interpreter none p s).limited h)

/-- A run with a limit that the run without one exceeds is cut off. -/
theorem run_eq_of_lt_steps (h : limit < (p.run interpreter none s).steps) :
    p.run interpreter (some limit) s =
        ⟨.exhausted limit, limit + 1, Unfolding.stateWithin interpreter limit p s⟩ ∧
      p.calls interpreter (some limit) s = Unfolding.callsWithin interpreter limit p s := by
  refine (runs_iff interpreter).1 (Unfolding.runs_of_exceeds ?_)
  rintro ⟨stop, calls, hruns, hle⟩
  obtain ⟨rfl, -⟩ := hruns.unique (runs_run interpreter none p s)
  omega

end Program

/-! ## Within the limit or cut off -/

namespace Unfolding

variable {σ P I : Type} [Unfolding P I]

/-- **A limit only cuts off.** Let a program of any type be run, be it one that unfolds for ever. If the
run without a limit ends within as many steps as the limit allows, then the run with the limit ends so
too: with the same result, the interpreter in the same state and after the same instructions. If it
takes more, or goes on for ever, then the run with the limit ends with the failure `stepLimit`,
whatever handlers the program puts around the place it has got to: it leaves the interpreter in the
state in which the run without a limit leaves it after as many steps as the limit allows, and has handed
it exactly the instructions of these steps. A run has no other end. -/
theorem run_within_limit_or_cut_off (interpreter : Interpreter σ I) (limit : Nat) (p : P) (s : σ) :
    (∀ stop calls, Runs interpreter none p s stop calls → stop.steps ≤ limit →
      Runs interpreter (some limit) p s stop calls) ∧
    ((¬ ∃ stop calls, Runs interpreter none p s stop calls ∧ stop.steps ≤ limit) →
      ∃ stop, Runs interpreter (some limit) p s stop (callsWithin interpreter limit p s) ∧
        stop.outcome.result = some (.error (.stepLimit limit)) ∧
          stop.state = stateWithin interpreter limit p s) ∧
    ∀ limit stop stop' calls calls', Runs interpreter limit p s stop calls →
      Runs interpreter limit p s stop' calls' → stop = stop' ∧ calls = calls' :=
  ⟨fun _ _ h hle => h.limited hle, fun h => ⟨_, runs_of_exceeds h, rfl, rfl⟩,
    fun _ _ _ _ _ h h' => h.unique h'⟩

/-- Programs that tick: for ever, for ever under a handler, once, or not at all. -/
private inductive Clock where
  | running
  | guarded
  | tick (name : String)
  | stopped (value : Value)

private instance : Unfolding Clock String where
  split
    | .running => (.perform "tick", [fun _ => .running])
    | .guarded => (.attempt .running .stopped, [])
    | .tick name => (.perform name, [])
    | .stopped value => (.pure value, [])
  pending? _ := none
  finished := .stopped
  single := .tick
  split_finished _ := rfl
  split_single _ := rfl

private def counting : Interpreter Nat String := fun _ _ n => (some (.ok .unit), n + 1)

/-- After any number of steps a running clock still runs. -/
private theorem advance_running (n : Nat) (pending : Pending Clock) (guards : List (Guard Clock))
    (steps : Nat) (s : Nat × List String) :
    ∃ m, Machine.advance counting.recorded none n ⟨.running, pending, guards, steps, s⟩ = .next m := by
  induction n generalizing pending steps s with
  | zero => exact ⟨_, rfl⟩
  | succ n ih => exact ih _ _ _

/-- A clock under a handler runs for ever. Five steps of it are four ticks, and a limit of five cuts it
off after them. A single tick needs one step, and no limit but zero cuts it off. -/
theorem run_within_limit_or_cut_off_ticking :
    (¬ ∃ stop calls, Runs counting none Clock.guarded 0 stop calls) ∧
    (∃ stop, Runs counting (some 5) Clock.guarded 0 stop ["tick", "tick", "tick", "tick"] ∧
      stop.outcome.result = some (.error (.stepLimit 5)) ∧ stop.state = 4) ∧
    Runs counting (some 1) (Clock.tick "once") 0 ⟨.yielded .unit, 1, 1⟩ ["once"] ∧
    ∃ stop, Runs counting (some 0) (Clock.tick "once") 0 stop [] ∧
      stop.outcome.result = some (.error (.stepLimit 0)) ∧ stop.state = 0 := by
  have hendless : ¬ ∃ stop calls, Runs counting none Clock.guarded 0 stop calls := by
    rintro ⟨stop, calls, n, hn⟩
    obtain ⟨m, hm⟩ := advance_running n .empty [⟨.stopped, .empty⟩] 1 (0, [])
    have hlater : Machine.advance counting.recorded none (n + 1)
        { program := Clock.guarded, state := (0, []) } = .next m := hm
    rw [Machine.advance_add, hn] at hlater
    cases hlater
  have honce : Runs counting none (Clock.tick "once") 0 ⟨.yielded .unit, 1, 1⟩ ["once"] := ⟨1, rfl⟩
  refine ⟨hendless, ?_, ?_, ?_⟩
  · exact (run_within_limit_or_cut_off counting 5 Clock.guarded 0).2.1
      fun ⟨stop, calls, hruns, _⟩ => hendless ⟨stop, calls, hruns⟩
  · exact (run_within_limit_or_cut_off counting 1 (Clock.tick "once") 0).1 _ _ honce le_rfl
  · refine (run_within_limit_or_cut_off counting 0 (Clock.tick "once") 0).2.1 ?_
    rintro ⟨stop, calls, hruns, hle⟩
    obtain ⟨rfl, -⟩ := hruns.unique honce
    exact absurd hle (by decide)

end Unfolding

end EffectGraph
