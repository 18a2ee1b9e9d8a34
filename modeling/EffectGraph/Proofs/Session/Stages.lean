import Mathlib
import EffectGraph.Proofs.Session.Attempts
import EffectGraph.Proofs.Session.Reachable
import EffectGraph.Proofs.Session.Works

/-!
# The stages of an occurrence

An occurrence of a source goes through three stages. First its reducers run, each on the value that
its cell has by then; then one pass over the graph is made from the cells that they have written; and
then its listeners run. `Visits.delivers_in_stages` says so of every state that a session can have,
whatever fails on the way, and says what a reducer that fails leaves alone.
-/

namespace EffectGraph

open Exec World

/-! ## Jobs -/

/-- What a reducer gives for its cell once its script has ended so, in this graph. -/
def Reducer.next (r : Reducer) (graph : Graph) : Except Interrupt Value → Except Failure Value
  | .ok given => r.read graph given
  | .error interrupt => .error interrupt.toFailure

/-- From one state to another, what a reducer gives for its cell is stored there, with this result. -/
inductive Reducer.Stores (r : Reducer) (w : World) :
    Except Failure Value → Except Failure Unit → World → Prop where
  | failed (failure : Failure) : Stores r w (.error failure) (.error failure) w
  | written {value : Value} {graph : Graph} (hstore : w.graph.settle r.target value = .ok graph) :
    Stores r w (.ok value) (.ok ()) (World.begin { w with graph } (.wrote r.target value))
  | gone (value : Value) (hgone : w.graph.node? r.target = none) :
    Stores r w (.ok value) (.error (.unknownSignal r.target)) w

/-- The job runs a reducer of a cell, or a listener. -/
structure Job.IsReaction (job : Job) (graph : Graph) : Prop where
  reacts : ∀ id, job ≠ .node id
  cell : ∀ r, job.reducer? = some r → graph.OnlyEver (· = .cell) r.target

theorem Job.IsReaction.follows {job : Job} {w w' : World} (h : job.IsReaction w.graph)
    (hfollows : Follows w w') : job.IsReaction w'.graph :=
  ⟨h.reacts, fun r hr => (h.cell r hr).follows hfollows⟩

/-- The stage that an attempt starts. A reducer whose cell is gone is not started. -/
def Attempt.stage? (a : Attempt) : Option Activity :=
  match a.job with
  | .listener _ payload => some (.listening payload)
  | job => job.reducer?.bind fun r =>
    (a.start.graph.node? r.target).map fun node => .reducing r.target node.value r.payload

namespace Session

variable {session : Session} {hooks : Hooks}

/-- An attempt to run a reducer. -/
structure IsReduction (session : Session) (hooks : Hooks) (r : Reducer) (a : Attempt) : Prop where
  /-- If the cell is gone, nothing is run. -/
  gone : a.start.graph.node? r.target = none →
    a.result = .error (.unknownSignal r.target) ∧ a.final = a.start
  /-- The reducer runs on the value that its cell has then, and what it gives is written into the
  cell. If it is interrupted, or what it gives cannot be read, that is all. -/
  started : ∀ {node}, a.start.graph.node? r.target = some node → ∃ result w₁,
    (r.script node.value).exec session hooks
      (a.start.begin (.reducing r.target node.value r.payload)) = (some result, w₁) ∧
        r.Stores w₁ (r.next w₁.graph result) a.result a.final
  /-- A reducer that fails leaves its cell as it was, unless it has written the cell itself. -/
  kept : ∀ {failure since node node'}, a.result = .error failure →
    a.final.past = since ++ a.start.past → ¬ WrittenIn since r.target →
    a.start.graph.node? r.target = some node → a.final.graph.node? r.target = some node' →
      node.SameState node'

/-- What a reducer gave, if anything, is stored. -/
private theorem isReduction_of_stored {r : Reducer} {job : Job} {w w₁ : World} {node : Node}
    {result : Except Interrupt Value} {since : List Moment}
    (hnode : w.graph.node? r.target = some node) (hkind : node.kind = .cell)
    (hrun : (r.script node.value).exec session hooks
      (w.begin (.reducing r.target node.value r.payload)) = (some result, w₁))
    (hworks : Works [.reducing r.target node.value r.payload] since w w₁) :
    (storeReduced r.target (r.next w₁.graph result)).Leaves (fun result' w' =>
      session.IsReduction hooks r ⟨job, w, result', w'⟩ ∧
        ∃ since, Works [.reducing r.target node.value r.payload] since w w') (fun _ => True)
      w₁ := by
  have hgone : w.graph.node? r.target ≠ none := by simp [hnode]
  have hstarted {result' : Except Failure Unit} {w' : World}
      (hstores : r.Stores w₁ (r.next w₁.graph result) result' w') {node' : Node}
      (hnode' : w.graph.node? r.target = some node') : ∃ result w₁,
        (r.script node'.value).exec session hooks
          (w.begin (.reducing r.target node'.value r.payload)) = (some result, w₁) ∧
        r.Stores w₁ (r.next w₁.graph result) result' w' := by
    obtain rfl := Option.some.inj (hnode.symm.trans hnode')
    exact ⟨result, w₁, hrun, hstores⟩
  -- If nothing is stored, the cell is as the reducer has left it.
  have hfailed {failure : Failure}
      (hstores : r.Stores w₁ (r.next w₁.graph result) (.error failure) w₁) :
      session.IsReduction hooks r ⟨job, w, .error failure, w₁⟩ := by
    refine ⟨fun h => absurd h hgone, hstarted hstores, ?_⟩
    rintro _ since' node₀ node' - hpast hunwritten hnode₀ hnode'
    obtain rfl := Option.some.inj (hnode.symm.trans hnode₀)
    obtain rfl := List.append_cancel_right (hworks.past_eq.symm.trans hpast)
    exact hworks.kept hnode hkind hunwritten hnode'
  cases hnext : r.next w₁.graph result with
  | error failure =>
    rw [hnext] at hstarted hfailed
    exact leaves_pure.2 ⟨hfailed (.failed failure), since, hworks⟩
  | ok value =>
    rw [hnext] at hstarted hfailed
    refine write_leaves (fun graph hstore => ⟨⟨fun h => absurd h hgone, ?_, ?_⟩, ?_⟩)
      fun failure hmissing => ?_
    · exact hstarted (.written hstore)
    · rintro failure since' node₀ node' h
      cases h
    · exact ⟨_, hworks.trans (.write hworks.settling_eq hstore)⟩
    · obtain ⟨hnone, rfl⟩ := Graph.node_eq_error.1 hmissing
      exact ⟨hfailed (.gone value hnone), since, hworks⟩

/-- A job that runs a reducer reads the cell, executes a script and stores what comes of it. -/
theorem runJob_leaves {r : Reducer} {job : Job} {w : World} {Q : Except Failure Unit → World → Prop}
    {E : World → Prop} (hr : job.reducer? = some r)
    (hgone : w.graph.node? r.target = none → Q (.error (.unknownSignal r.target)) w)
    (hlive : ∀ node, w.graph.node? r.target = some node →
      ((r.script node.value).exec session hooks).Leaves (fun result w₁ =>
        (storeReduced r.target (r.next w₁.graph result)).Leaves Q E w₁) E
        (w.begin (.reducing r.target node.value r.payload))) :
    (runJob session hooks job).Leaves Q E w := by
  cases job with
  | node | listener => cases hr
  | fold target reducer payload =>
    obtain rfl := Option.some.inj hr
    refine leaves_bind.2 (leaves_bind.2 (leaves_get.2 ?_))
    cases hnode : w.graph.node? target with
    | none =>
      rw [Graph.value_of_node?_eq_none hnode]
      exact hgone hnode
    | some node =>
      rw [Graph.value_of_node? hnode]
      refine leaves_bind.2 (leaves_modify.2 (leaves_bind.2 ?_))
      refine (hlive node hnode).mono fun result w₁ hstored => ?_
      cases result with
      | error interrupt => exact leaves_pure.2 hstored
      | ok value => exact leaves_bind.2 (leaves_get.2 (leaves_pure.2 hstored))
  | foldProgram target reducer payload =>
    obtain rfl := Option.some.inj hr
    refine leaves_bind.2 (leaves_bind.2 (leaves_get.2 ?_))
    cases hnode : w.graph.node? target with
    | none =>
      rw [Graph.value_of_node?_eq_none hnode]
      exact hgone hnode
    | some node =>
      rw [Graph.value_of_node? hnode]
      refine leaves_bind.2 (leaves_modify.2 (leaves_bind.2 ?_))
      refine (hlive node hnode).mono fun result w₁ hstored => ?_
      cases result with
      | error interrupt => exact leaves_pure.2 hstored
      | ok value => exact leaves_pure.2 hstored

/-- A job that runs a listener executes a script. What the script gives is forgotten. -/
theorem runJob_listener_leaves {listener : Value → Script} {payload : Value} {w : World}
    {Q : Except Failure Unit → World → Prop} {E : World → Prop}
    (h : ((listener payload).exec session hooks).Leaves (fun _ w₁ => ∀ result, Q result w₁) E
      (w.begin (.listening payload))) :
    (runJob session hooks (.listener listener payload)).Leaves Q E w := by
  refine leaves_bind.2 (leaves_modify.2 (leaves_bind.2 (h.mono fun result w₁ hdone => ?_)))
  cases result with
  | ok _ => exact leaves_pure.2 (hdone _)
  | error _ => exact leaves_pure.2 (hdone _)

theorem Attempt.stage?_of_reducer {a : Attempt} {r : Reducer} (hr : a.job.reducer? = some r) :
    a.stage? = (a.start.graph.node? r.target).map fun node =>
      .reducing r.target node.value r.payload := by
  obtain ⟨job, start, result, final⟩ := a
  cases job with
  | node | listener => cases hr
  | fold | foldProgram =>
    obtain rfl := Option.some.inj hr
    rfl

/-- What is known of a reducer that has been run. -/
private theorem runJob_reducer {r : Reducer} {job : Job} {w : World} (hr : job.reducer? = some r)
    (hcell : w.graph.OnlyEver (· = .cell) r.target) (hsettling : w.settling = true)
    (htracks : Tracks hooks WorksOn fun _ _ => True) :
    (runJob session hooks job).Leaves (fun result w' =>
      session.IsReduction hooks r ⟨job, w, result, w'⟩ ∧
        ∃ since, Works (Attempt.stage? ⟨job, w, result, w'⟩).toList since w w') (fun _ => True)
      w := by
  refine runJob_leaves hr (fun hnode => ?_) fun node hnode => ?_
  · refine ⟨⟨fun _ => ⟨rfl, rfl⟩, fun h => ?_, fun _ _ _ h => ?_⟩, [], ?_⟩
    · simp [hnode] at h
    · simp [hnode] at h
    · rw [Attempt.stage?_of_reducer hr, hnode]
      exact .refl hsettling
  · have hstage (result : Except Failure Unit) (w' : World) :
        (Attempt.stage? ⟨job, w, result, w'⟩).toList =
          [.reducing r.target node.value r.payload] := by
      rw [Attempt.stage?_of_reducer hr, hnode]
      rfl
    refine ((leaves_self _ _).and (Script.exec_tracked session htracks (r.script node.value) _)).imp ?_
      fun _ _ => trivial
    rintro result w₁ ⟨hrun, -, hworks⟩
    obtain ⟨since, hworks⟩ := hworks hsettling
    have hstart := Works.start hsettling (.reducing r.target node.value r.payload) rfl
    simp only [hstage]
    exact isReduction_of_stored hnode (hcell.2 node hnode) hrun (hstart.trans hworks)

/-- What is known of a reducer or listener that has been run. -/
theorem runJob_works {job : Job} {w : World} (hjob : job.IsReaction w.graph)
    (hsettling : w.settling = true) (htracks : Tracks hooks WorksOn fun _ _ => True) :
    (runJob session hooks job).Leaves (fun result w' =>
      (∀ r, job.reducer? = some r → session.IsReduction hooks r ⟨job, w, result, w'⟩) ∧
        ∃ since, Works (Attempt.stage? ⟨job, w, result, w'⟩).toList since w w') (fun _ => True)
      w := by
  have hreducer {r : Reducer} (hr : job.reducer? = some r) :
      (runJob session hooks job).Leaves (fun result w' =>
        (∀ r, job.reducer? = some r → session.IsReduction hooks r ⟨job, w, result, w'⟩) ∧
          ∃ since, Works (Attempt.stage? ⟨job, w, result, w'⟩).toList since w w') (fun _ => True)
        w := by
    refine (runJob_reducer hr (hjob.cell r hr) hsettling htracks).mono ?_
    rintro result w' ⟨hreduction, hworks⟩
    refine ⟨fun r' hr' => ?_, hworks⟩
    obtain rfl := Option.some.inj (hr.symm.trans hr')
    exact hreduction
  cases job with
  | node id => exact absurd rfl (hjob.reacts id)
  | fold target reducer payload => exact hreducer rfl
  | foldProgram target reducer payload => exact hreducer rfl
  | listener listener payload =>
    have hstart := Works.start hsettling (.listening payload) rfl
    refine runJob_listener_leaves ?_
    refine (Script.exec_tracked session htracks (listener payload) _).mono fun _ w₁ hrun _ => ?_
    obtain ⟨since, hworks⟩ := hrun.2 hsettling
    exact ⟨fun r hr => (by cases hr), _, hstart.trans hworks⟩

end Session

/-! ## Jobs in turn -/

theorem Works.of_logs {w w' : World} (h : World.Logs w w') (hsettling : w.settling = true) :
    Works [] [] w w' := by
  obtain ⟨journal, rfl⟩ := h
  exact .of_graph rfl hsettling rfl rfl id

namespace Session

variable {session : Session} {hooks : Hooks} {w w₁ w' : World}

/-- What is known of reducers and listeners that are run one after another. -/
theorem InTurn.works {attempts : List Attempt} (h : session.InTurn hooks w attempts w')
    (hjobs : ∀ a ∈ attempts, a.job.IsReaction w.graph) (hsettling : w.settling = true)
    (htracks : Tracks hooks WorksOn fun _ _ => True) :
    (∀ a ∈ attempts, ∀ r, a.job.reducer? = some r → session.IsReduction hooks r a) ∧
      ∃ since, Works (attempts.filterMap (·.stage?)) since w w' := by
  induction h with
  | nil hlogs => exact ⟨fun a ha => absurd ha List.not_mem_nil, [], .of_logs hlogs hsettling⟩
  | @cons w w' a rest hlogs hran _ ih =>
    have hlogged := Works.of_logs hlogs hsettling
    have hjob := (hjobs a List.mem_cons_self).follows hlogged.follows
    obtain ⟨hreduction, since, hworks⟩ :=
      (runJob_works hjob hlogged.settling_eq htracks).of_eq_some hran
    have hfirst := hlogged.trans hworks
    obtain ⟨hothers, later, hrest⟩ := ih
      (fun b hb => (hjobs b (List.mem_cons_of_mem _ hb)).follows hfirst.follows) hfirst.settling_eq
    refine ⟨fun b hb => ?_, later ++ (since ++ []), ?_⟩
    · rcases List.mem_cons.1 hb with rfl | hb
      · exact hreduction
      · exact hothers b hb
    · have hstages : (a :: rest).filterMap (·.stage?) =
          ([] ++ a.stage?.toList) ++ rest.filterMap (·.stage?) := by
        cases hstage : a.stage? with
        | none => simp [hstage]
        | some stage => simp [hstage]
      rw [hstages]
      exact hfirst.trans hrest

/-! ## The pass of an occurrence -/

/-- While changes are being settled, a pass starts once if there is anything to start from. -/
theorem propagate_works {roots : List SignalId} (hsettling : w.settling = true)
    (htracks : Tracks hooks WorksOn fun _ _ => True) :
    (propagate session hooks roots).Leaves (fun failures w' =>
      (roots = [] → failures = [] ∧ w' = w) ∧
        ∃ since, Works (if roots = [] then [] else [.propagating roots]) since w w') (fun _ => True)
      w := by
  refine propagate_leaves (fun hempty => ?_) fun hroots => ?_
  · rw [if_pos hempty]
    exact ⟨fun _ => ⟨rfl, rfl⟩, [], .refl hsettling⟩
  · rw [if_neg hroots]
    refine (evaluateAll_tracked session htracks _ _).mono fun _ w' h => ?_
    refine ⟨fun hempty => absurd hempty hroots, ?_⟩
    obtain ⟨since, hworks⟩ := h.2 hsettling
    have hbegun := (Works.of_logs (w.logs_report (passEvent w.graph roots)) hsettling).trans
      (Works.start (w := w.report _) hsettling (.propagating roots) rfl)
    exact ⟨_, hbegun.trans hworks⟩

end Session

/-! ## Occurrences -/

/-- The delivery of an occurrence. -/
structure Delivery where
  /-- The reducers that were run. -/
  reductions : List Attempt
  /-- The cells that were written by those that succeeded. -/
  written : List SignalId
  /-- The state after the reducers. -/
  reduced : World
  /-- The failures of the pass. -/
  passFailures : List Failure
  /-- The state after the pass. -/
  passed : World
  /-- The listeners that were run. -/
  notifications : List Attempt

/-- The failures in the order in which they are reported. -/
def Delivery.failures (d : Delivery) : List Failure :=
  d.reductions.filterMap (·.failure?) ++ d.passFailures ++ d.notifications.filterMap (·.failure?)

namespace Session

variable {session : Session} {hooks : Hooks} {w w' : World}

/-- The delivery of an occurrence to its subscribers leads from one state to another. -/
structure Delivers (session : Session) (hooks : Hooks) (subscribers : List Subscriber)
    (payload : Value) (w : World) (d : Delivery) (w' : World) : Prop where
  /-- First all reducers run, in the order of the subscribers. -/
  reduces : session.ReducesAll hooks (subscribers.filterMap (·.reducing? payload)) [] w
    d.reductions d.written d.reduced
  /-- Each of them runs on the value of its cell at that moment, and what it gives is written there. If
  it fails, it leaves its cell as it was. -/
  reduction : ∀ a ∈ d.reductions, ∀ r, a.job.reducer? = some r → session.IsReduction hooks r a
  /-- Then one pass is made from the cells that were written. -/
  passes : propagate session hooks d.written d.reduced = (some d.passFailures, d.passed)
  /-- There is none if no cell was written. -/
  unpassed : d.written = [] → d.passFailures = [] ∧ d.passed = d.reduced
  /-- Then all listeners run, in the order of the subscribers. -/
  listens : d.notifications.map (·.job) = subscribers.filterMap (·.listening? payload)
  notified : session.InTurn hooks d.passed d.notifications w'
  /-- Nothing else starts a reducer, a pass or a listener. -/
  stages : ∃ since, w'.past = since ++ w.past ∧ stagesIn since =
    d.reductions.filterMap (·.stage?) ++ (if d.written = [] then [] else [.propagating d.written]) ++
      d.notifications.filterMap (·.stage?)

/-- The occurrence runs the job: a reducer, the evaluation of a node or a listener. -/
def Serves (subscribers : List Subscriber) (payload : Value) (job : Job) : Prop :=
  job ∈ subscribers.filterMap (·.reducing? payload) ∨ (∃ id, job = .node id) ∨
    job ∈ subscribers.filterMap (·.listening? payload)

theorem isReaction_of_reducing {subscribers : List Subscriber} {payload : Value} {graph : Graph}
    (hcells : graph.TargetsCells subscribers) {job : Job}
    (hjob : job ∈ subscribers.filterMap (·.reducing? payload)) : job.IsReaction graph := by
  obtain ⟨s, hs, hreducing⟩ := List.mem_filterMap.1 hjob
  cases s with
  | fold target reducer | foldProgram target reducer =>
    obtain rfl := Option.some.inj hreducing
    refine ⟨fun id h => (by cases h), fun r hr => ?_⟩
    obtain rfl := Option.some.inj hr
    exact hcells _ hs target rfl
  | listener | forward => cases hreducing

theorem isReaction_of_listening {subscribers : List Subscriber} {payload : Value} {graph : Graph}
    {job : Job} (hjob : job ∈ subscribers.filterMap (·.listening? payload)) :
    job.IsReaction graph := by
  obtain ⟨s, -, hlistening⟩ := List.mem_filterMap.1 hjob
  cases s with
  | listener listener =>
    obtain rfl := Option.some.inj hlistening
    exact ⟨fun id h => (by cases h), fun r hr => (by cases hr)⟩
  | fold | foldProgram | forward => cases hlistening

/-- An occurrence is delivered in stages, or one of its jobs does not come to an end. -/
theorem deliver_leaves {source : SourceId} {payload : Value} {subscribers : List Subscriber}
    {hub : Hub} (hdeliver : w.hub.deliver source = .ok (subscribers, hub))
    (hcells : w.graph.TargetsCells subscribers) (hsettling : w.settling = true)
    (htracks : Tracks hooks WorksOn fun _ _ => True) :
    (deliver session hooks source payload).Leaves (fun failures w' =>
      ∃ d : Delivery, failures = d.failures ∧
        session.Delivers hooks subscribers payload { w with hub } d w')
      (fun w' => ∃ job, Serves subscribers payload job ∧ session.CutOff hooks job w') w := by
  refine leaves_bind.2 (leaves_get.2 ?_)
  rw [hdeliver]
  refine leaves_bind.2 (leaves_set.2 (leaves_bind.2 (leaves_modify.2 (leaves_bind.2 ?_))))
  have hlogs := World.logs_report { w with hub } (.delivering source subscribers.length)
  have hlogged : Works [] [] { w with hub } _ := .of_logs hlogs hsettling
  refine (reduceAll_reducesAll payload subscribers [] _).imp ?_ fun w' ⟨job, hjob, hcut⟩ =>
    ⟨job, .inl hjob, hcut⟩
  rintro ⟨written, reducerFailures⟩ reduced ⟨reductions, hreduces, rfl⟩
  have hreducing : ∀ a ∈ reductions, a.job.IsReaction w.graph := fun a ha => by
    have hjob : a.job ∈ subscribers.filterMap (·.reducing? payload) := by
      rw [← hreduces.jobs_eq]
      exact List.mem_map_of_mem ha
    exact isReaction_of_reducing hcells hjob
  obtain ⟨hreduction, since₁, hworks₁⟩ := hreduces.ran.works hreducing hsettling htracks
  refine leaves_bind.2 (leaves_of_eq (fun passFailures passed hpass => ?_) fun w' hcut => ?_)
  · obtain ⟨hunpassed, since₂, hworks₂⟩ :=
      (propagate_works hworks₁.settling_eq htracks).of_eq_some hpass
    refine leaves_bind.2 ((notifyAll_inTurn payload subscribers passed).imp ?_
      fun w' ⟨job, hjob, hcut⟩ => ⟨job, .inr (.inr hjob), hcut⟩)
    rintro listenerFailures w' ⟨notifications, hlistens, hnotified, rfl⟩
    have hlistening : ∀ a ∈ notifications, a.job.IsReaction passed.graph := fun a ha => by
      have hjob : a.job ∈ subscribers.filterMap (·.listening? payload) := by
        rw [← hlistens]
        exact List.mem_map_of_mem ha
      exact isReaction_of_listening hjob
    obtain ⟨-, since₃, hworks₃⟩ := hnotified.works hlistening hworks₂.settling_eq htracks
    have hworks := ((hlogged.trans hworks₁).trans hworks₂).trans hworks₃
    refine leaves_pure.2 ⟨⟨reductions, written, reduced, passFailures, passed, notifications⟩, rfl,
      { hreduces with ran := hreduces.ran.logged hlogs }, hreduction, hpass, hunpassed, hlistens,
      hnotified, _, hworks.past_eq, ?_⟩
    rw [hworks.stages_eq, List.nil_append]
  · obtain ⟨id, hstuck⟩ := (propagate_attempts written reduced).of_eq_none hcut
    exact ⟨.node id, .inr (.inl ⟨id, rfl⟩), hstuck⟩

/-- **An occurrence is delivered in stages, whatever fails.** Take any state that a session can have,
now or at any moment of its past, while changes are being settled, and deliver an occurrence of a
source. All reducers of the source run in the order of its subscribers, each on the value that its
cell has at that moment, and what it gives is written into the cell; one that fails leaves its cell as
it was, if it has not written it itself.
Then one pass is made from the cells written by those that succeeded, none if there are none, and then
all listeners run in order. The failures of the reducers, of the pass and of the listeners are reported
in this order. The only other way is that one of these jobs does not come to an end. -/
theorem Visits.delivers_in_stages {visited : World} (h : session.Visits visited) {scene : Scene}
    (hscene : scene = visited.toScene ∨ ∃ m ∈ visited.past, scene = m.scene.value) (level : Nat)
    {source : SourceId} (payload : Value) {subscribers : List Subscriber} {hub : Hub}
    (hgraph : w.graph = scene.graph) (hhub : w.hub = scene.hub) (hsettling : w.settling = true)
    (hdeliver : w.hub.deliver source = .ok (subscribers, hub)) :
    (∃ d w', deliver session (session.hooksAt level) source payload w = (some d.failures, w') ∧
      session.Delivers (session.hooksAt level) subscribers payload { w with hub } d w') ∨
    ∃ w' job, deliver session (session.hooksAt level) source payload w = (none, w') ∧
      Serves subscribers payload job ∧ session.CutOff (session.hooksAt level) job w' := by
  have hwell := h.wellFormed_scene hscene
  have hcells : w.graph.TargetsCells subscribers := by
    rw [hgraph]
    exact hwell.targetsCells (hhub ▸ hdeliver)
  have hleaves : (deliver session (session.hooksAt level) source payload).Leaves _ _ w :=
    deliver_leaves hdeliver hcells hsettling (session.tracks_worksOn level)
  rcases hrun : deliver session (session.hooksAt level) source payload w with ⟨_ | failures, w'⟩
  · obtain ⟨job, hserves, hcut⟩ := hleaves.of_eq_none hrun
    exact .inr ⟨w', job, rfl, hserves, hcut⟩
  · obtain ⟨d, rfl, hdelivers⟩ := hleaves.of_eq_some hrun
    exact .inl ⟨d, w', rfl, hdelivers⟩

/-- A reducer that passes the payload on, one whose program raises, a signal derived from the first
cell that fails on a payload that is true, a listener that fails and one that does not. -/
private def mixed : Script :=
  .ask (.source "s") fun (source : SourceId) =>
  .fold source (.bool false) (fun _ payload => .done (.ok payload)) fun (first : Except Failure _) =>
  .foldProgram source (.bool false) (fun _ _ => .throw (.text "reducer")) fun _ =>
  .listen source (fun _ => .done (.error (.raised (.text "listener")))) fun _ =>
  .listen source (fun _ => .done (.ok .unit)) fun _ =>
  match first with
  | .error failure => .done (.error (.ofFailure failure))
  | .ok cell =>
    .derive [.signal cell] (fun
      | [.bool true] => .done (.error (.raised (.text "node")))
      | inputs => .done (.ok (.list inputs))) fun _ => .done (.ok .unit)

private theorem mixed_run : ∃ visited subscribers hub w', Visits {} visited ∧
    visited.hub.deliver ⟨0⟩ = .ok (subscribers, hub) ∧
    deliver {} (hooksAt {} 0) ⟨0⟩ (.bool true) { visited with settling := true } =
      (some [.uncaught (.text "reducer"), .uncaught (.text "node"), .uncaught (.text "listener")], w') ∧
    w'.graph.value ⟨0⟩ = .ok (.bool true) ∧ w'.graph.value ⟨1⟩ = .ok (.bool false) := by
  rcases hrun : advance {} 0 mixed {} with ⟨result, visited⟩
  have hvisits : Visits {} visited := ⟨{}, 0, mixed, .start .empty #[], by rw [hrun]⟩
  cbv at hrun
  obtain ⟨rfl, hvisited⟩ := Prod.mk.inj hrun
  rcases hdelivered : deliver {} (hooksAt {} 0) ⟨0⟩ (.bool true) { visited with settling := true }
    with ⟨failures, w'⟩
  have hended := hdelivered
  rw [← hvisited] at hended
  cbv at hended
  obtain ⟨rfl, rfl⟩ := Prod.mk.inj hended
  have hknown : 0 < visited.hub.sources.size := by
    rw [← hvisited]
    exact Nat.zero_lt_one
  obtain ⟨subscribers, hub, hdeliver⟩ : ∃ subscribers hub,
      visited.hub.deliver ⟨0⟩ = .ok (subscribers, hub) := Hub.exists_deliver hknown
  exact ⟨visited, subscribers, hub, _, hvisits, hdeliver, hdelivered, rfl, rfl⟩

theorem Visits.delivers_in_stages_failing : ∃ visited subscribers hub d w', Visits {} visited ∧
    visited.hub.deliver ⟨0⟩ = .ok (subscribers, hub) ∧
    deliver {} (hooksAt {} 0) ⟨0⟩ (.bool true) { visited with settling := true } =
      (some d.failures, w') ∧
    Delivers {} (hooksAt {} 0) subscribers (.bool true) { visited with settling := true, hub } d w' ∧
    d.failures = [.uncaught (.text "reducer"), .uncaught (.text "node"),
      .uncaught (.text "listener")] ∧
    w'.graph.value ⟨0⟩ = .ok (.bool true) ∧ w'.graph.value ⟨1⟩ = .ok (.bool false) := by
  obtain ⟨visited, subscribers, hub, w', hvisits, hdeliver, hrun, hfirst, hsecond⟩ := mixed_run
  have hstages := hvisits.delivers_in_stages (.inl rfl) (w := { visited with settling := true })
    0 (.bool true) rfl rfl rfl hdeliver
  rw [hrun] at hstages
  rcases hstages with ⟨d, w₁, heq, hdelivers⟩ | ⟨w₁, job, heq, -⟩
  · obtain ⟨hfailures, rfl⟩ := Prod.mk.inj heq
    refine ⟨visited, subscribers, hub, d, w', hvisits, hdeliver, ?_, hdelivers, ?_, hfirst, hsecond⟩
    · rw [hrun, hfailures]
    · exact (Option.some.inj hfailures).symm
  · cases (Prod.mk.inj heq).1

end Session

end EffectGraph
