import EffectGraph.Proofs.Session.FoldCells

/-!
# Delivering to a fold

Applying an occurrence runs the reducer of a fold once if the source of the fold is reached, along
however many ways, and not at all otherwise. If the reducer is a function of its two arguments, then
scripts at every level fold the cell over the payloads that are delivered, and over nothing else
(`tracks_leads`).
-/

namespace EffectGraph

open Exec World

namespace FoldCell

variable {c : FoldCell}

/-- The reducer is a function of its two arguments: whenever it ends, then with what `step` says. It
gives plain values. -/
structure IsFunction (c : FoldCell) (session : Session) : Prop where
  result_eq : ∀ {current payload level w result w'},
    session.execute level (c.reducer current payload) w = some (result, w') →
      result = c.step current payload
  plain : ∀ {current payload value}, c.step current payload = .ok value → value.isReactive = false

/-! ## Within the application of a change -/

/-- Within the application of a change nothing else is applied, and the cell is folded over some
payloads. -/
def Within (c : FoldCell) (folded : List Value) (w w' : World) : Prop :=
  ∃ since, appliedIn since = [] ∧ w'.settling = true ∧ c.Moves since folded 0 w w'

namespace Within

variable {folded folded' : List Value} {w w₁ w' : World}

theorem refl (hsettling : w.settling = true) : c.Within [] w w := ⟨[], rfl, hsettling, .refl w⟩

theorem settling (h : c.Within folded w w') : w'.settling = true := by
  obtain ⟨since, -, hsettling, -⟩ := h
  exact hsettling

theorem trans (h : c.Within folded w w₁) (h' : c.Within folded' w₁ w') :
    c.Within (folded ++ folded') w w' := by
  obtain ⟨since, happlied, -, hmoves⟩ := h
  obtain ⟨later, happlied', hsettling, hmoves'⟩ := h'
  refine ⟨later ++ since, ?_, hsettling, hmoves.trans hmoves'⟩
  rw [appliedIn_append, happlied, happlied', List.append_nil]

theorem of_leads (h : c.Leads w w') (hsettling : w.settling = true) : c.Within [] w w' := by
  obtain ⟨since, hsince, hmoves⟩ := h
  obtain ⟨hsettling', happlied⟩ := hsince hsettling
  unfold FoldCell.Receives at hmoves
  rw [payloads_of_appliedIn_eq_nil happlied] at hmoves
  exact ⟨since, happlied, hsettling', hmoves⟩

end Within

/-- What a script, a pass or a listener does within the application of a change. -/
theorem within_of_tracked {α : Type} {x : Exec α} (hx : x.Tracked c.Leads fun _ _ => True) {w : World}
    (hsettling : w.settling = true) :
    x.Leaves (fun _ w' => c.Within [] w w') (fun _ => True) w :=
  (hx w).mono fun _ _ hleads => .of_leads hleads hsettling

/-- What starts, starts without applying a change. -/
theorem leads_start {activity : Activity} (hstart : activity.IsStart) (w : World) :
    c.Leads w (w.begin activity) := by
  have happlied : appliedIn [⟨activity, .of w.toScene⟩] = [] := by
    cases activity with
    | reducing | propagating | evaluating | listening => rfl
    | queued | applied | wrote => exact hstart.elim
  refine ⟨[⟨activity, .of w.toScene⟩], fun hsettling => ⟨hsettling, happlied⟩, ?_⟩
  exact .of_moves happlied (.of_same rfl (Steps.follows (steps_begin w activity)) id rfl rfl)

end FoldCell

theorem Session.execute_eq_of_advance_eq {session : Session} {level : Nat} {script : Script}
    {w w' : World} {result : Except Interrupt Value}
    (h : session.advance level script w = (some result, w')) :
    session.execute level script w = some (result, w') := by
  unfold execute
  rw [h]

/-! ## Reducers -/

theorem FoldCell.moves_write {c : FoldCell} {w : World} {other : SignalId} (hother : c.target ≠ other)
    {value : Value} {graph : Graph} (hstore : w.graph.settle other value = .ok graph) :
    c.Moves [⟨.wrote other value, .of { w.toScene with graph }⟩] [] 0 w
      (World.begin { w with graph } (.wrote other value)) := by
  have hsteps : Steps w (World.begin { w with graph } (.wrote other value)) :=
    .head (.store hstore) (steps_begin _ _)
  refine .of_kept rfl (Steps.follows hsteps) id fun _ hattached => ⟨?_, hattached.subscribed, rfl⟩
  obtain ⟨-, rfl⟩ := Graph.settle_eq_ok.1 hstore
  exact Graph.value_congr ((Graph.node?_modify _ _ _ _).trans (if_neg hother))

namespace Session

variable {session : Session} {level : Nat} {c : FoldCell} {w : World}

/-- Storing what the reducer of another cell gave leaves this cell alone. -/
theorem storeReduced_other {other : SignalId} (hother : other ≠ c.target)
    {next : Except Failure Value} {w₁ : World} (hreduced : c.Within [] w w₁) :
    (storeReduced other next).Leaves (fun _ w' => c.Within [] w w') (fun _ => True) w₁ := by
  cases next with
  | error failure => exact leaves_pure.2 hreduced
  | ok value =>
    refine write_leaves (fun graph hstore => ?_) fun _ _ => hreduced
    exact hreduced.trans ⟨_, rfl, hreduced.settling, c.moves_write hother.symm hstore⟩

/-- The reducer makes of the value of the cell and a payload what `step` says. -/
theorem reduce_step (hfunction : c.IsFunction session) (payload : Value) (w : World) :
    (reduce session (session.hooksAt level) payload c.target fun current =>
      c.reducer current payload).Leaves
        (fun next _ => ∀ current, w.graph.value c.target = .ok current →
          next = (c.step current payload).mapError Interrupt.toFailure) (fun _ => True) w := by
  refine leaves_bind.2 (leaves_get.2 ?_)
  cases hvalue : w.graph.value c.target with
  | error failure => exact leaves_pure.2 fun current heq => by cases heq
  | ok current =>
    refine leaves_bind.2 (leaves_modify.2 (leaves_bind.2 ?_))
    refine (leaves_self _ _).mono fun result w₁ hran => ?_
    have hstep : result = c.step current payload :=
      hfunction.result_eq (execute_eq_of_advance_eq hran)
    cases result with
    | error interrupt =>
      refine leaves_pure.2 fun current' heq => ?_
      rw [← Except.ok.inj heq, ← hstep]
      rfl
    | ok value =>
      refine leaves_bind.2 (leaves_get.2 (leaves_pure.2 fun current' heq => ?_))
      have hplain : w₁.graph.resolve value = .ok value :=
        Value.resolveWith_of_not_isReactive (hfunction.plain hstep.symm)
      rw [← Except.ok.inj heq, ← hstep, hplain]
      rfl

theorem storeReduced_own {payload : Value} {next : Except Failure Value} {w₁ : World}
    (hreduced : c.Within [] w w₁)
    (hnext : ∀ current, w.graph.value c.target = .ok current →
      next = (c.step current payload).mapError Interrupt.toFailure) :
    (storeReduced c.target next).Leaves (fun _ w' => c.Within [payload] w w') (fun _ => True) w₁ := by
  obtain ⟨since, happlied, hsettling, hmoves⟩ := hreduced
  cases next with
  | error failure =>
    refine leaves_pure.2 ⟨since, happlied, hsettling, hmoves.past_eq, hmoves.follows,
      fun hundisturbed hcontains hattached => ?_⟩
    obtain ⟨hattached₁, hvalue, hcount⟩ := hmoves.keeps hundisturbed hcontains hattached
    refine ⟨hattached₁, fun value heq => ?_, hcount⟩
    -- A reducer that fails leaves the cell as it is.
    have hkept : c.next value payload = value := by
      have hfailed := hnext value heq
      unfold FoldCell.next
      cases hstep : c.step value payload with
      | error interrupt => rfl
      | ok result =>
        rw [hstep] at hfailed
        cases hfailed
    rw [List.foldl_cons, hkept]
    exact hvalue value heq
  | ok result =>
    refine write_leaves (fun graph hstore => ?_) fun failure hgone => ?_
    · have hsteps : Steps w₁ (World.begin { w₁ with graph } (.wrote c.target result)) :=
        .head (.store hstore) (steps_begin _ _)
      refine ⟨⟨.wrote c.target result, .of { w₁.toScene with graph }⟩ :: since, happlied, hsettling,
        ?_, hmoves.follows.trans (Steps.follows hsteps), fun hundisturbed hcontains hattached => ?_⟩
      · rw [List.cons_append, ← hmoves.past_eq]
        rfl
      · have hcontains₁ : w₁.graph.contains c.target :=
          Graph.contains_iff.2 (Graph.settle_eq_ok.1 hstore).1
        obtain ⟨hattached₁, -, hcount⟩ := hmoves.keeps hundisturbed hcontains₁ hattached
        refine ⟨⟨hattached₁.cell.follows (Steps.follows hsteps), hattached₁.subscribed,
          hattached₁.unqueued⟩, fun value heq => ?_, hcount⟩
        have hgiven : c.next value payload = result := by
          have hok := hnext value heq
          unfold FoldCell.next
          cases hstep : c.step value payload with
          | error interrupt =>
            rw [hstep] at hok
            cases hok
          | ok value' =>
            rw [hstep] at hok
            exact (Except.ok.inj hok).symm
        rw [List.foldl_cons, List.foldl_nil, hgiven]
        exact Graph.value_of_settle hstore
    · refine ⟨since, happlied, hsettling, hmoves.past_eq, hmoves.follows,
        fun _ hcontains _ => ?_⟩
      obtain ⟨node, hnode⟩ := Graph.contains_iff.1 hcontains
      exact absurd hgone (Graph.node_ne_error hnode)

/-! ## Occurrences -/

section

variable (htracks : Tracks (session.hooksAt level) c.Leads fun _ _ => True)
  (hfunction : c.IsFunction session)

omit htracks hfunction in
/-- A reducer is followed by those of the other subscribers. -/
theorem finish_within {payload : Value} {subscribers : List Subscriber}
    {folded folded' : List Value} {target : SignalId} {next : Except Failure Value}
    {written : List SignalId} {w₁ : World}
    (hstored : (storeReduced target next).Leaves (fun _ w' => c.Within folded w w')
      (fun _ => True) w₁)
    (hrest : ∀ written w, w.settling = true →
      (reduceAll session (session.hooksAt level) payload written subscribers).Leaves
        (fun _ w' => c.Within folded' w w') (fun _ => True) w) :
    (reduceAll.finish session (session.hooksAt level) payload written target next subscribers).Leaves
      (fun _ w' => c.Within (folded ++ folded') w w') (fun _ => True) w₁ := by
  unfold reduceAll.finish
  refine leaves_bind.2 (hstored.mono fun result w₂ h₂ => ?_)
  cases result with
  | ok _ => exact (hrest _ w₂ h₂.settling).mono fun _ w' h => h₂.trans h
  | error failure =>
    have hreported : c.Within folded w (w₂.report (.reducerFailed target failure)) := by
      have hleads : c.Leads w₂ (w₂.report (.reducerFailed target failure)) :=
        c.leads_act (Scope.act_report w₂ _)
      have hboth := h₂.trans (.of_leads hleads h₂.settling)
      rwa [List.append_nil] at hboth
    refine leaves_bind.2 (leaves_modify.2 (leaves_bind.2 ?_))
    exact (hrest written _ hreported.settling).mono fun _ w' h => leaves_pure.2 (hreported.trans h)

include htracks

omit hfunction in
theorem carries_leads : session.Carries (session.hooksAt level) c.Leads fun _ _ => True :=
  htracks.carries (fun hstart => c.leads_start hstart _) session

include hfunction

/-- The cell is folded over the payload once for each subscriber that writes it. -/
theorem reduceAll_within (payload : Value) (subscribers : List Subscriber)
    (hwriters : ∀ s ∈ subscribers, s.writes c.target = true → s = .fold c.target c.reducer) :
    ∀ written w, w.settling = true →
      (reduceAll session (session.hooksAt level) payload written subscribers).Leaves
        (fun _ w' => c.Within ((subscribers.filter (·.writes c.target)).map fun _ => payload) w w')
        (fun _ => True) w := by
  induction subscribers with
  | nil =>
    intro written w hsettling
    rw [reduceAll]
    exact leaves_pure.2 (.refl hsettling)
  | cons subscriber rest ih =>
    have hrest := ih fun s hs => hwriters s (List.mem_cons_of_mem _ hs)
    have hfirst := hwriters subscriber List.mem_cons_self
    have hcarries := carries_leads htracks
    intro written w hsettling
    rw [reduceAll.eq_def]
    cases subscriber with
    | fold target reducer =>
      have hreduced := FoldCell.within_of_tracked
        (hcarries.reduce payload target fun current => reducer current payload) hsettling
      -- Nobody but the fold itself writes the cell, so its reducer is the one that runs.
      by_cases hown : target = c.target
      · subst hown
        have hwrites : (Subscriber.fold c.target reducer).writes c.target = true := by
          simp [Subscriber.writes, Subscriber.target?]
        obtain ⟨-, rfl⟩ := Subscriber.fold.inj (hfirst hwrites)
        rw [List.filter_cons_of_pos hwrites]
        refine leaves_bind.2 ((hreduced.and (reduce_step hfunction payload w)).imp ?_
          fun _ _ => trivial)
        rintro next w₁ ⟨hwithin, hnext⟩
        exact finish_within (storeReduced_own hwithin hnext) hrest
      · have hwrites : ¬ (Subscriber.fold target reducer).writes c.target = true := by
          simp [Subscriber.writes, Subscriber.target?, hown]
        rw [List.filter_cons_of_neg hwrites]
        refine leaves_bind.2 (hreduced.mono fun next w₁ hwithin => ?_)
        exact finish_within (storeReduced_other hown hwithin) hrest
    | foldProgram target reducer =>
      have hown : ¬ target = c.target := by
        rintro rfl
        have heq := hfirst (by simp [Subscriber.writes, Subscriber.target?])
        cases heq
      have hwrites : ¬ (Subscriber.foldProgram target reducer).writes c.target = true := by
        simp [Subscriber.writes, Subscriber.target?, hown]
      have hreduced := FoldCell.within_of_tracked
        (hcarries.reduceProgram payload target fun current => reducer current payload) hsettling
      rw [List.filter_cons_of_neg hwrites]
      refine leaves_bind.2 (hreduced.mono fun next w₁ hwithin => ?_)
      exact finish_within (storeReduced_other hown hwithin) hrest
    | listener listener => exact hrest written w hsettling
    | forward source => exact hrest written w hsettling

omit hfunction in
theorem propagate_within (roots : List SignalId) (hsettling : w.settling = true) :
    (propagate session (session.hooksAt level) roots).Leaves (fun _ w' => c.Within [] w w')
      (fun _ => True) w :=
  FoldCell.within_of_tracked
    ((carries_leads htracks).propagate (evaluate_tracked session htracks) roots) hsettling

/-- An occurrence that reaches the source makes the cell one payload further and is counted; any other
occurrence does neither. -/
theorem deliver_receives (hsettling : w.settling = true) (hattached : c.Attached w)
    (origin : SourceId) (payload : Value) :
    (deliver session (session.hooksAt level) origin payload).Leaves
      (fun _ w' => ∃ since, appliedIn since = [] ∧ w'.settling = true ∧
        c.Moves since (payloadsTo c.hub c.source [.fired origin payload])
          (payloadsTo c.hub c.source [.fired origin payload]).length w w')
      (fun _ => True) w := by
  have hsubscribed := hattached.subscribed
  rw [payloadsTo_fired]
  refine leaves_bind.2 (leaves_get.2 ?_)
  cases hdeliver : w.hub.deliver origin with
  | error failure =>
    rw [if_neg (hsubscribed.not_reaches_of_error hdeliver)]
    exact leaves_pure.2 ⟨[], rfl, hsettling, .refl w⟩
  | ok delivered =>
    obtain ⟨subscribers, hub⟩ := delivered
    obtain ⟨hwriters, hcount⟩ := hsubscribed.delivered hdeliver
    have hfold : ∀ s ∈ subscribers, s.writes c.target = true → s = .fold c.target c.reducer := by
      intro s hs hwrites
      have hmem : s ∈ subscribers.filter (·.writes c.target) := List.mem_filter.2 ⟨hs, hwrites⟩
      rw [hwriters] at hmem
      split at hmem
      · exact List.mem_singleton.1 hmem
      · exact absurd hmem List.not_mem_nil
    have hpayloads : (subscribers.filter (·.writes c.target)).map (fun _ => payload) =
        if c.hub.Reaches origin c.source then [payload] else [] := by
      rw [hwriters]
      split
      · rfl
      · rfl
    have hcounted : c.Moves [] [] (if c.hub.Reaches origin c.source then [payload] else []).length w
        { w with hub } := by
      refine ⟨rfl, Step.follows (.deliver hdeliver), fun _ _ h => ?_⟩
      refine ⟨⟨h.cell, hsubscribed.deliver hdeliver, h.unqueued⟩, fun _ heq => heq, ?_⟩
      rw [apply_ite List.length]
      exact hcount
    -- Only the reducers matter to the cell; the pass and the listeners leave it alone.
    refine leaves_bind.2 (leaves_set.2 (leaves_bind.2 (leaves_modify.2 ?_)))
    have hreported : c.Within [] { w with hub }
        (World.report { w with hub } (.delivering origin subscribers.length)) :=
      .of_leads (c.leads_act (Scope.act_report _ _)) hsettling
    have hreduce := reduceAll_within htracks hfunction payload subscribers hfold [] _
      hreported.settling
    rw [hpayloads] at hreduce
    refine leaves_bind.2 (hreduce.mono fun reduced w₂ hreduced => leaves_bind.2 ?_)
    refine (propagate_within htracks reduced.1 hreduced.settling).mono fun _ w₃ hpassed => ?_
    have hnotify := FoldCell.within_of_tracked
      ((carries_leads htracks).notifyAll payload subscribers) hpassed.settling
    refine leaves_bind.2 (hnotify.mono fun _ w₄ hnotified => leaves_pure.2 ?_)
    obtain ⟨since, happlied, hsettling', hmoves⟩ :=
      ((hreported.trans hreduced).trans hpassed).trans hnotified
    refine ⟨since, happlied, hsettling', ?_⟩
    have hboth := hcounted.trans hmoves
    simpa using hboth

/-- Applying a change folds the cell over the payload that the change delivers to its source, if
any. -/
theorem apply_receives (change : Change) (hsettling : w.settling = true) :
    (apply session (session.hooksAt level) change).Leaves
      (fun _ w' => w'.settling = true ∧ ∃ since, appliedIn since = [change] ∧ c.Receives since w w')
      (fun _ => True) w := by
  have hpayloads {since : List Moment} (happlied : appliedIn since = [change]) :
      c.payloads since = payloadsTo c.hub c.source [change] := by
    rw [FoldCell.payloads, happlied]
  by_cases hattached : c.Attached w
  · have hbegun : c.Moves [⟨.applied change, .of w.toScene⟩] [] 0 w (w.begin (.applied change)) :=
      .of_same rfl (Steps.follows (steps_begin w _)) id rfl rfl
    have hlater {later : List Moment} {w' : World} (happlied : appliedIn later = [])
        (hmoves : c.Moves later (payloadsTo c.hub c.source [change])
          (payloadsTo c.hub c.source [change]).length (w.begin (.applied change)) w') :
        ∃ since, appliedIn since = [change] ∧ c.Receives since w w' := by
      have hsince : appliedIn (later ++ [⟨.applied change, .of w.toScene⟩]) = [change] := by
        rw [appliedIn_append, happlied, List.append_nil]
        rfl
      refine ⟨_, hsince, ?_⟩
      unfold FoldCell.Receives
      rw [hpayloads hsince]
      simpa using hbegun.trans hmoves
    refine leaves_bind.2 (leaves_modify.2 ?_)
    cases change with
    | written cell =>
      refine (propagate_within (w := w.begin _) htracks [cell] hsettling).mono fun _ w' hwithin => ?_
      obtain ⟨later, happlied, hsettling', hmoves⟩ := hwithin
      exact ⟨hsettling', hlater happlied hmoves⟩
    | fired origin payload =>
      have hattached' : c.Attached (w.begin (.applied (.fired origin payload))) :=
        ⟨hattached.cell, hattached.subscribed, hattached.unqueued⟩
      refine (deliver_receives (w := w.begin _) htracks hfunction hsettling hattached' origin
        payload).mono ?_
      rintro _ w' ⟨later, happlied, hsettling', hmoves⟩
      exact ⟨hsettling', hlater happlied hmoves⟩
  · -- Nothing is claimed of the cell then, but what is applied is known all the same.
    have hfront : Spans [] [] { w with queue := change :: w.queue }
        { w with queue := change :: w.queue } := .refl hsettling
    have hsteps := stepwise_apply session (session.hooksAt_stepwise level) change w
    refine leaves_of_eq (fun failures w' heq => ?_) fun _ _ => trivial
    obtain ⟨since, hspan⟩ := (apply_spans hfront).of_eq_some heq
    refine ⟨hspan.settling_eq, since, hspan.applied_eq, hspan.past_eq,
      Steps.follows (hsteps.of_eq_some heq), fun _ _ h => absurd h hattached⟩

/-- Applying a change and all that wait folds the cell over what is delivered. -/
theorem drain_receives (bound : Nat) : ∀ (change : Change) {w : World}, w.settling = true →
    (drain session (session.hooksAt level) bound change).Leaves
      (fun _ w' => ∃ since, change ∈ appliedIn since ∧ c.Receives since w w') (fun _ => True) w := by
  induction bound with
  | zero => exact fun _ _ _ => leaves_failure.2 trivial
  | succ n ih =>
    intro change w hsettling
    refine leaves_bind.2 ((apply_receives htracks hfunction change hsettling).mono ?_)
    rintro failures w₁ ⟨hsettling₁, since, happlied, hreceives⟩
    have hmem : change ∈ appliedIn since := by
      rw [happlied]
      exact List.mem_cons_self
    refine leaves_bind.2 (leaves_get.2 ?_)
    cases hqueue : w₁.queue with
    | nil => exact leaves_pure.2 ⟨since, hmem, hreceives⟩
    | cons next queue =>
      have htaken : c.Receives [] w₁ { w₁ with queue } := by
        refine .of_moves rfl (.of_same rfl (Step.follows (.enqueue w₁ queue)) ?_ rfl rfl)
        rw [hqueue]
        exact fun hnot hmem => hnot (List.mem_cons_of_mem _ hmem)
      have hrest := ih (w := { w₁ with queue }) next hsettling₁
      refine leaves_bind.2 (leaves_set.2 (leaves_bind.2 (hrest.mono ?_)))
      rintro later w' ⟨since', -, hreceives'⟩
      have hall := (hreceives.trans htaken).trans hreceives'
      refine leaves_pure.2 ⟨_, ?_, hall⟩
      rw [appliedIn_append]
      exact List.mem_append_left _ hmem

theorem settle_receives (bound : Nat) (change : Change) (w : World) :
    (settle session (session.hooksAt level) bound change).Leaves
      (fun _ w' => ∃ since, change ∈ appliedIn since ∧ c.Receives since w w') (fun _ => True) w := by
  have hset (w : World) (settling : Bool) : c.Receives [] w { w with settling } :=
    .of_moves rfl (.of_same rfl (Step.follows (.settling w settling)) id rfl rfl)
  refine leaves_bind.2 (leaves_modify.2 (leaves_bind.2 ?_))
  refine (drain_receives htracks hfunction bound change rfl).mono ?_
  rintro failures w₁ ⟨since, hmem, hreceives⟩
  have hended := ((hset w true).trans hreceives).trans (hset w₁ false)
  refine leaves_bind.2 (leaves_modify.2 ?_)
  dsimp only
  split
  · exact leaves_pure.2 ⟨_, by simpa using hmem, hended⟩
  · have hreported : c.Receives [] { w₁ with settling := false }
        (World.report { w₁ with settling := false } (.settledWithFailures failures.length)) :=
      .of_moves rfl (.of_same rfl (Step.follows (step_report _ _)) id rfl rfl)
    refine leaves_bind.2 (leaves_modify.2 (leaves_pure.2 ⟨_, ?_, hended.trans hreported⟩))
    simpa using hmem

end

/-! ## Levels -/

/-- A request puts its change into the queue or has it applied, unless the change waits already. -/
theorem request_receives {hooks : Hooks}
    (hsettle : ∀ change w, (hooks.settle change).Leaves
      (fun _ w' => ∃ since, change ∈ appliedIn since ∧ c.Receives since w w') (fun _ => True) w)
    (change : Change) (w : World) :
    (request hooks change).Leaves (fun _ w' => ∃ since,
      (w.settling = true → w'.settling = true ∧ appliedIn since = []) ∧
      (change ∈ queuedIn since ∨ change ∈ appliedIn since ∨ change.waitsIn w.queue = true) ∧
        c.Receives since w w') (fun _ => True) w := by
  by_cases hsettling : w.settling = true
  · refine request_leaves hsettling (fun hwaits => ?_) fun hnew => ?_
    · exact ⟨[], fun _ => ⟨hsettling, rfl⟩, .inr (.inr hwaits), .of_moves rfl (.refl w)⟩
    · refine ⟨[⟨.queued change, .of (w.report .changeQueued).toScene⟩],
        fun _ => ⟨hsettling, rfl⟩, .inl List.mem_cons_self, .of_moves rfl ?_⟩
      refine ⟨rfl, Steps.follows (steps_enqueue w change), fun hundisturbed _ hattached => ?_⟩
      have hother : ¬ .written c.target = change := fun heq => by
        refine hundisturbed.1 ?_
        rw [heq]
        exact List.mem_cons_self
      have hunqueued : .written c.target ∉ w.queue ++ [change] := by
        rw [List.mem_append, List.mem_singleton, not_or]
        exact ⟨hattached.unqueued, hother⟩
      exact ⟨⟨hattached.cell, hattached.subscribed, hunqueued⟩, fun _ heq => heq, rfl⟩
  · refine leaves_bind.2 (leaves_get.2 ?_)
    rw [if_neg hsettling]
    refine (hsettle change w).mono ?_
    rintro _ w' ⟨since, hmem, hreceives⟩
    exact ⟨since, fun hset => absurd hset hsettling, .inr (.inl hmem), hreceives⟩

/-- Writing a cell at the request of a script folds this one over what is delivered, or disturbs it. -/
private theorem set_leads {hooks : Hooks}
    (hsettle : ∀ change w, (hooks.settle change).Leaves
      (fun _ w' => ∃ since, change ∈ appliedIn since ∧ c.Receives since w w') (fun _ => True) w)
    {cell : SignalId} {value : Value} {graph : Graph} (hstore : w.graph.settle cell value = .ok graph) :
    (request hooks (.written cell)).Leaves (fun _ w' => c.Leads w w') (fun _ => True)
      (World.begin { w with graph } (.wrote cell value)) := by
  have hsteps : Steps w (World.begin { w with graph } (.wrote cell value)) :=
    .head (.store hstore) (steps_begin _ _)
  refine (request_receives hsettle _ _).mono ?_
  rintro _ w' ⟨since, hsettling, hnoted, hreceives⟩
  have happlied : appliedIn (since ++ [⟨.wrote cell value, .of { w.toScene with graph }⟩]) =
      appliedIn since := by
    rw [appliedIn_append]
    rfl
  refine ⟨since ++ [⟨.wrote cell value, .of { w.toScene with graph }⟩], fun hset => ?_, ?_⟩
  · rw [happlied]
    exact hsettling hset
  · by_cases hother : c.target = cell
    · -- The write is requested, so nothing is claimed of the cell.
      subst hother
      refine ⟨?_, (Steps.follows hsteps).trans hreceives.follows, fun hundisturbed _ hattached => ?_⟩
      · rw [hreceives.past_eq, List.append_assoc]
        rfl
      · obtain ⟨hqueued, happlied⟩ := hundisturbed.append.1
        rcases hnoted with hmem | hmem | hwaits
        · exact absurd hmem hqueued
        · exact absurd hmem happlied
        · obtain ⟨waiting, heq, hmem⟩ := Change.waitsIn_iff.1 hwaits
          rw [← heq] at hmem
          exact absurd hmem hattached.unqueued
    · have hwrote : c.Receives [⟨.wrote cell value, .of { w.toScene with graph }⟩] w
          (World.begin { w with graph } (.wrote cell value)) :=
        .of_moves rfl (c.moves_write hother hstore)
      exact hwrote.trans hreceives

/-- At every level scripts fold the cell over what is delivered, and over nothing else. -/
theorem tracks_leads (hfunction : c.IsFunction session) (level : Nat) :
    Tracks (session.hooksAt level) c.Leads fun _ _ => True := by
  have htracks {level : Nat}
      (hdispatch : ∀ i, ((session.hooksAt level).dispatch i).Tracked c.Leads fun _ _ => True)
      (hsettle : ∀ change w, ((session.hooksAt level).settle change).Leaves
        (fun _ w' => ∃ since, change ∈ appliedIn since ∧ c.Receives since w w') (fun _ => True) w) :
      Tracks (session.hooksAt level) c.Leads fun _ _ => True := by
    refine ⟨⟨c.admits_leads.toCalls, fun _ hstore => set_leads hsettle hstore,
      fun {w source payload _} _ => ?_, fun i _ => hdispatch i⟩, c.admits_leads.every⟩
    refine (request_receives hsettle (.fired source payload) w).mono ?_
    rintro _ w' ⟨since, hsettling, -, hreceives⟩
    exact ⟨since, hsettling, hreceives⟩
  -- What is requested at one level is settled at the one below.
  induction level with
  | zero => exact htracks (fun _ => c.admits_leads.failure) fun _ _ => leaves_failure.2 trivial
  | succ n ih =>
    have hdispatch (i : Instruction) :=
      dispatch_tracked session ih.toCalls session.makes_all (Program.over_all (.perform i))
    exact htracks hdispatch (settle_receives ih hfunction n)

end Session

end EffectGraph
