import EffectGraph.Proofs.Session.Passes

/-!
# Settling a change settles all that it brings about

An occurrence runs reducers first. Every cell that one of them writes is a root of the pass that
comes after the last of them, and whatever scripts write in between waits in the queue. So when the
queue is empty, no write is open any more (`ensures_settle`). This closes the circle: at every level
scripts are steady if they are so one level below (`hooksAt_steady`).
-/

namespace EffectGraph

open Exec World

namespace Session

variable {session : Session} {level : Nat} {roots : List SignalId} {w : World}

section

variable (hhooks : (session.hooksAt level).Steady session)

include hhooks

/-! ## Reducers and listeners -/

theorem steady_reduce (payload : Value) (target : SignalId) (reducer : Value → Script) :
    session.Steady (reduce session (session.hooksAt level) payload target reducer) := by
  refine steady_get_bind (stepwise_reduce session hhooks.stepwise payload target reducer)
    fun {roots w} h => ?_
  split
  · exact ensures_pure ⟨h, rfl⟩
  · rename_i current _
    refine leaves_bind.2 (leaves_modify.2 ?_)
    have hscript := Script.exec_steady hhooks (reducer current)
    refine (hscript.bind fun result => ?_).sound (h.begin_reducing target current payload)
    cases result with
    | error interrupt => exact steady_pure _
    | ok value =>
      exact steady_get_bind (stepwise_get_bind fun _ => leaves_pure.2 .refl)
        fun h => ensures_pure ⟨h, rfl⟩

theorem steady_reduceProgram (payload : Value) (target : SignalId) (reducer : Value → Program) :
    session.Steady (reduceProgram session (session.hooksAt level) payload target reducer) := by
  refine steady_get_bind (stepwise_reduceProgram session hhooks.stepwise payload target reducer)
    fun {roots w} h => ?_
  split
  · exact ensures_pure ⟨h, rfl⟩
  · rename_i current _
    refine leaves_bind.2 (leaves_modify.2 ?_)
    have hscript := Script.exec_steady hhooks (reaction (reducer current))
    exact (hscript.bind fun result => steady_pure _).sound (h.begin_reducing target current payload)

omit hhooks in
/-- What a reducer gave is written into its cell, which is a root of the pass to come. -/
theorem ensures_storeReduced {written : List SignalId}
    (h : session.Sound (written ++ roots) [] w) {target : SignalId}
    (htarget : w.graph.OnlyEver (· = .cell) target) (next : Except Failure Value) :
    session.Ensures (storeReduced target next) (fun result w' => w'.settling = w.settling ∧
      match result with
      | .ok () => session.Sound
        ((if target ∈ written then written else written ++ [target]) ++ roots) [] w'
      | .error _ => session.Sound (written ++ roots) [] w') w := by
  cases next with
  | error failure => exact ensures_pure ⟨rfl, h⟩
  | ok value =>
    refine (ensures_write h htarget value).mono fun result w' ⟨hsettling, h'⟩ => ⟨hsettling, ?_⟩
    cases result with
    | error failure => exact h'
    | ok _ =>
      refine h'.mono (fun cell hcell => ?_) fun cell hcell => h'.roots_cells cell (.inl ?_)
      · simp only [List.mem_append, List.mem_cons] at hcell ⊢
        split
        · rcases hcell with rfl | hcell
          · exact .inl ‹_›
          · exact hcell
        · simp only [List.mem_append, List.mem_singleton]
          tauto
      · split at hcell
        · exact List.mem_cons_of_mem _ hcell
        · simp only [List.append_assoc, List.mem_append, List.mem_cons, List.not_mem_nil,
            or_false] at hcell ⊢
          tauto

/-- What a reducer gave is stored, and then the rest is run: if the rest makes every cell that it
writes a root of the pass to come, so does the whole. -/
private theorem ensures_finish (payload : Value) {rest : List Subscriber}
    (hrest : ∀ {written w}, session.Sound (written ++ roots) [] w → w.graph.TargetsCells rest →
      session.Ensures (reduceAll session (session.hooksAt level) payload written rest)
        (fun result w' => session.Sound (result.1 ++ roots) [] w' ∧ w'.settling = w.settling) w)
    {written : List SignalId} {target : SignalId} (next : Except Failure Value)
    (h : session.Sound (written ++ roots) [] w) (htarget : w.graph.OnlyEver (· = .cell) target)
    (hcells : w.graph.TargetsCells rest) :
    session.Ensures (reduceAll.finish session (session.hooksAt level) payload written target next rest)
      (fun result w' => session.Sound (result.1 ++ roots) [] w' ∧ w'.settling = w.settling) w := by
  have hsteps := stepwise_reduceAll session hhooks.stepwise payload rest
  have hstore := (ensures_storeReduced h htarget next).and_steps (stepwise_storeReduced target next)
  unfold reduceAll.finish
  refine ensures_bind hstore (fun result => ?_) fun result w₁ hstored => ?_
  · cases result with
    | ok _ => exact hsteps _
    | error failure =>
      exact (stepwise_report _).bind fun _ => (hsteps written).bind fun _ => stepwise_pure _
  · obtain ⟨⟨hsettling, h₁⟩, hran⟩ := hstored
    have hcells₁ : w₁.graph.TargetsCells rest := hcells.follows hran.follows
    cases result with
    | ok _ => exact (hrest h₁ hcells₁).mono fun result w₂ h₂ => ⟨h₂.1, h₂.2.trans hsettling⟩
    | error failure =>
      refine leaves_bind.2 (leaves_modify.2 ?_)
      refine ensures_bind (hrest (h₁.report (.reducerFailed target failure)) hcells₁)
        (fun _ => stepwise_pure _) fun result w₂ h₂ => ?_
      exact ensures_pure ⟨h₂.1, h₂.2.trans hsettling⟩

/-- Every cell that a reducer writes is a root of the pass to come. -/
theorem ensures_reduceAll (payload : Value) (subscribers : List Subscriber) :
    ∀ {written w}, session.Sound (written ++ roots) [] w → w.graph.TargetsCells subscribers →
      session.Ensures (reduceAll session (session.hooksAt level) payload written subscribers)
        (fun result w' => session.Sound (result.1 ++ roots) [] w' ∧ w'.settling = w.settling) w := by
  induction subscribers with
  | nil =>
    intro written w h _
    rw [reduceAll]
    exact ensures_pure ⟨h, rfl⟩
  | cons subscriber rest ih =>
    intro written w h hcells
    have hsteps := stepwise_reduceAll session hhooks.stepwise payload rest
    -- A reducer of either sort is run, and what it gave is stored.
    have hreduced {target : SignalId} {x : Exec (Except Failure Value)} (hx : session.Steady x)
        (htarget : w.graph.OnlyEver (· = .cell) target) :
        session.Ensures (do
          let next ← x
          reduceAll.finish session (session.hooksAt level) payload written target next rest)
          (fun result w' => session.Sound (result.1 ++ roots) [] w' ∧ w'.settling = w.settling)
          w := by
      refine ensures_bind ((hx.sound h).and_steps hx.stepwise)
        (fun next => stepwise_finish session payload written target next rest hsteps)
        fun next w₁ hnext => ?_
      obtain ⟨⟨h₁, hsettling⟩, hran⟩ := hnext
      refine (ensures_finish hhooks payload ih next h₁ (htarget.follows hran.follows)
        (hcells.of_cons.follows hran.follows)).mono fun result w₂ h₂ => ?_
      exact ⟨h₂.1, h₂.2.trans hsettling⟩
    rw [reduceAll.eq_def]
    cases subscriber with
    | fold target reducer =>
      exact hreduced (steady_reduce hhooks payload target _)
        (hcells _ List.mem_cons_self target rfl)
    | foldProgram target reducer =>
      exact hreduced (steady_reduceProgram hhooks payload target _)
        (hcells _ List.mem_cons_self target rfl)
    | listener listener => exact ih h hcells.of_cons
    | forward source => exact ih h hcells.of_cons

theorem steady_notifyAll (payload : Value) (subscribers : List Subscriber) :
    session.Steady (notifyAll session (session.hooksAt level) payload subscribers) := by
  induction subscribers with
  | nil => exact steady_pure _
  | cons subscriber rest ih =>
    cases subscriber with
    | listener listener =>
      have hbegin : session.Steady (Exec.begin (.listening payload)) :=
        ⟨stepwise_begin _, fun h => leaves_modify.2 fun _ => ⟨h.begin_listening payload, rfl⟩⟩
      refine hbegin.bind fun _ => ?_
      refine (Script.exec_steady hhooks (listener payload)).bind fun result => ?_
      cases result with
      | ok _ => exact ih
      | error interrupt => exact ih.bind fun _ => steady_pure _
    | fold target reducer => exact ih
    | foldProgram target reducer => exact ih
    | forward source => exact ih

/-! ## Changes -/

/-- Delivering an occurrence settles what its reducers write. -/
theorem steady_deliver (source : SourceId) (payload : Value) :
    session.Steady (deliver session (session.hooksAt level) source payload) := by
  refine steady_get_bind (stepwise_deliver session hhooks.stepwise source payload)
    fun {roots w} h => ?_
  split
  · exact ensures_pure ⟨h, rfl⟩
  · rename_i subscribers hub hdeliver
    refine leaves_bind.2 (leaves_set.2 (leaves_bind.2 (leaves_modify.2 ?_)))
    have hdelivered : session.Sound ([] ++ roots) []
        (World.report { w with hub } (.delivering source subscribers.length)) :=
      Sound.report (h.of_same (.single (.deliver hdeliver)) rfl rfl rfl rfl) _
    have hcells : w.graph.TargetsCells subscribers := h.wellFormed.now.targetsCells hdeliver
    have hnotify := steady_notifyAll hhooks payload subscribers
    refine ensures_bind (ensures_reduceAll hhooks payload subscribers hdelivered hcells)
      (fun reduced => ?_) fun reduced w₁ ⟨h₁, hsettling₁⟩ => ?_
    · exact (stepwise_propagate session hhooks.stepwise _).bind fun _ =>
        hnotify.stepwise.bind fun _ => stepwise_pure _
    · refine ensures_bind (ensures_propagate hhooks h₁)
        (fun _ => hnotify.stepwise.bind fun _ => stepwise_pure _) fun _ w₂ ⟨h₂, hsettling₂⟩ => ?_
      refine ensures_bind (hnotify.sound h₂) (fun _ => stepwise_pure _)
        fun _ w₃ ⟨h₃, hsettling₃⟩ => ensures_pure ⟨h₃, ?_⟩
      rw [hsettling₃, hsettling₂, hsettling₁]
      rfl

/-- Applying a change settles it. -/
theorem ensures_apply {change : Change} (h : session.Sound (change.roots ++ roots) [] w) :
    session.Ensures (apply session (session.hooksAt level) change)
      (fun _ w' => session.Sound roots [] w' ∧ w'.settling = w.settling) w := by
  have hbegun : session.Sound (change.roots ++ roots) [] (w.begin (.applied change)) :=
    h.begin rfl (fun _ => rfl) trivial
  refine leaves_bind.2 (leaves_modify.2 ?_)
  cases change with
  | written cell => exact ensures_propagate hhooks hbegun
  | fired source payload => exact (steady_deliver hhooks source payload).sound hbegun

/-- Applying a change and all that wait settles them, and leaves none waiting. -/
theorem ensures_drain (bound : Nat) : ∀ {change : Change} {w : World},
    session.Sound (change.roots ++ roots) [] w → w.settling = true →
      session.Ensures (drain session (session.hooksAt level) bound change)
        (fun _ w' => session.Sound roots [] w' ∧ w'.queue = []) w := by
  induction bound with
  | zero => exact fun h _ => ensures_failure h
  | succ n ih =>
    intro change w h hsettling
    refine ensures_bind (ensures_apply hhooks h) (fun failures => ?_)
      fun failures w₁ ⟨h₁, hsettling₁⟩ => ensures_get_bind ?_
    · refine stepwise_get_bind fun w => ?_
      split
      · exact leaves_pure.2 .refl
      · rename_i next queue _
        refine leaves_bind.2 (leaves_set.2 ?_)
        exact ((stepwise_drain session hhooks.stepwise n next).bind fun _ => stepwise_pure _).after
          (.single (.enqueue w queue))
    · split
      · rename_i hqueue
        exact ensures_pure ⟨h₁, hqueue⟩
      · rename_i next queue hqueue
        have hsettling₁ : w₁.settling = true := hsettling₁.trans hsettling
        refine leaves_bind.2 (leaves_set.2 ?_)
        -- The write that leaves the queue becomes a root of the pass to come.
        exact ensures_bind (ih (h₁.dequeue hqueue hsettling₁) hsettling₁) (fun _ => stepwise_pure _)
          fun _ w₂ h₂ => ensures_pure h₂

/-- Settling a change settles it and all that it brings about. -/
theorem ensures_settle (bound : Nat) {change : Change}
    (h : session.Sound (change.roots ++ roots) [] w) (hsettling : w.settling = false) :
    session.Ensures (settle session (session.hooksAt level) bound change)
      (fun _ w' => session.Sound roots [] w' ∧ w'.settling = w.settling) w := by
  have hbegun : session.Sound (change.roots ++ roots) [] { w with settling := true } :=
    h.set_settling fun heq => by cases heq
  have hlast (failures : List Failure) : Stepwise (do
      unless failures.isEmpty do Exec.report (.settledWithFailures failures.length)
      return Script.settled failures : Exec (Except Failure Unit)) := by
    dsimp only
    split
    · exact stepwise_pure _
    · exact (stepwise_report _).bind fun _ => stepwise_pure _
  refine leaves_bind.2 (leaves_modify.2 ?_)
  refine ensures_bind (ensures_drain hhooks bound hbegun rfl) (fun failures => ?_)
    fun failures w₁ ⟨h₁, hqueue⟩ => leaves_bind.2 (leaves_modify.2 ?_)
  · exact (stepwise_modify fun w => .single (.settling w false)).bind fun _ => hlast failures
  · have hended : session.Sound roots [] { w₁ with settling := false } :=
      h₁.set_settling fun _ => hqueue
    dsimp only
    split
    · exact ensures_pure ⟨hended, hsettling.symm⟩
    · exact leaves_bind.2 (leaves_modify.2 (ensures_pure ⟨hended.report _, hsettling.symm⟩))

/-! ## Levels -/

theorem steady_dispatch (i : Instruction) :
    session.Steady (dispatch session (session.hooksAt level) i) := by
  have hcheck (value : Value) : session.Steady (checkShape i value) := by
    refine ⟨checkShape_tracked admits_steps.toJoins i value, fun {roots w} h => ?_⟩
    unfold checkShape
    split
    · exact ensures_pure ⟨h, rfl⟩
    · refine ensures_get_bind ?_
      split
      · exact ensures_pure ⟨h, rfl⟩
      · split
        · exact ensures_pure ⟨h, rfl⟩
        · exact ensures_pure ⟨h, rfl⟩
  unfold dispatch
  split
  · exact steady_pure _
  · refine (Script.exec_steady hhooks _).bind fun result => ?_
    cases result with
    | error interrupt => exact steady_pure _
    | ok value =>
      dsimp only
      split
      · exact hcheck value
      · exact steady_pure _

end

/-- At every level scripts leave a session as sound as it was, and settled changes are settled. -/
theorem hooksAt_steady (session : Session) (level : Nat) :
    (session.hooksAt level).Steady session := by
  have hstepwise := session.hooksAt_stepwise level
  induction level with
  | zero => exact ⟨hstepwise, fun _ => steady_failure, fun h _ => ensures_failure h⟩
  | succ n ih =>
    have hbelow := ih (session.hooksAt_stepwise n)
    exact ⟨hstepwise, steady_dispatch hbelow, fun h => ensures_settle hbelow n h⟩

end Session

end EffectGraph
