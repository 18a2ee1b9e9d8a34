import EffectGraph.Proofs.Event.Subscriptions
import EffectGraph.Proofs.Session.Acts

/-!
# What is run when a change is applied

Applying a change runs reducers, nodes and listeners one after another. Each of these jobs is
attempted once and may fail; between two attempts nothing happens but that something is reported or
noted. `Change.Brings` says which jobs a change brings, stage by stage, and `apply_brings` that the
failures it is applied with are those of the attempts in their order.
-/

namespace EffectGraph

open Exec

/-- Something that is run when a change is applied. -/
inductive Job where
  /-- A reducer runs, and what it gives is written into its cell. -/
  | fold (target : SignalId) (reducer : Value → Value → Script) (payload : Value)
  /-- The program of a reducer runs, and its value is written into its cell. -/
  | foldProgram (target : SignalId) (reducer : Value → Value → Program) (payload : Value)
  /-- A node is evaluated. -/
  | node (id : SignalId)
  /-- A listener runs. -/
  | listener (listener : Value → Script) (payload : Value)

/-- The reducer that a subscriber has for a payload. -/
def Subscriber.reducing? (payload : Value) : Subscriber → Option Job
  | .fold target reducer => some (.fold target reducer payload)
  | .foldProgram target reducer => some (.foldProgram target reducer payload)
  | _ => none

/-- The listener that a subscriber is for a payload. -/
def Subscriber.listening? (payload : Value) : Subscriber → Option Job
  | .listener react => some (.listener react payload)
  | _ => none

/-- A reducer of a cell: what it runs on the value of the cell, the payload, and how what it gives is
read before it is stored. -/
structure Reducer where
  target : SignalId
  script : Value → Script
  payload : Value
  read : Graph → Value → Except Failure Value

/-- The reducer that a job runs. The value of a reaction has been read where its program has ended. -/
def Job.reducer? : Job → Option Reducer
  | .fold target reducer payload =>
    some ⟨target, fun current => reducer current payload, payload, Graph.resolve⟩
  | .foldProgram target reducer payload =>
    some ⟨target, fun current => Session.reaction (reducer current payload), payload, fun _ => .ok⟩
  | .node _ => none
  | .listener .. => none

namespace Session

/-- Runs a job. -/
def runJob (session : Session) (hooks : Hooks) : Job → Exec (Except Failure Unit)
  | .fold target reducer payload => do
    storeReduced target
      (← reduce session hooks payload target fun current => reducer current payload)
  | .foldProgram target reducer payload => do
    storeReduced target
      (← reduceProgram session hooks payload target fun current => reducer current payload)
  | .node id => evaluate session hooks id
  | .listener listener payload => do
    begin (.listening payload)
    match ← (listener payload).exec session hooks with
    | .ok _ => return .ok ()
    | .error interrupt => return .error interrupt.toFailure

end Session

/-- A job that was run, and how it went. -/
structure Attempt where
  job : Job
  start : World
  result : Except Failure Unit
  final : World

/-- The failure that the attempt ended with. -/
def Attempt.failure? (a : Attempt) : Option Failure :=
  match a.result with
  | .ok () => none
  | .error failure => some failure

namespace Session

variable {session : Session} {hooks : Hooks} {w w₁ w' : World}

/-- The job does not come to an end somewhere, and the state is what it had got to. -/
def CutOff (session : Session) (hooks : Hooks) (job : Job) (w' : World) : Prop :=
  ∃ start, session.runJob hooks job start = (none, w')

end Session

/-! ## Jobs in turn -/

/-- The states differ in the journal only. -/
def World.Logs (w w' : World) : Prop := ∃ journal, w' = { w with journal }

theorem World.Logs.refl (w : World) : Logs w w := ⟨w.journal, rfl⟩

theorem World.Logs.trans {w w₁ w' : World} (h : Logs w w₁) (h' : Logs w₁ w') : Logs w w' := by
  obtain ⟨journal, rfl⟩ := h
  obtain ⟨journal', rfl⟩ := h'
  exact ⟨journal', rfl⟩

theorem World.logs_report (w : World) (event : Event) : Logs w (w.report event) := ⟨_, rfl⟩

namespace Session

variable {session : Session} {hooks : Hooks} {w w₁ w' : World}

/-- Jobs are run one after another, and nothing is done in between but reporting. -/
inductive InTurn (session : Session) (hooks : Hooks) : World → List Attempt → World → Prop where
  | nil {w w' : World} (hlogs : World.Logs w w') : InTurn session hooks w [] w'
  | cons {w w' : World} {a : Attempt} {rest : List Attempt} (hlogs : World.Logs w a.start)
    (hran : session.runJob hooks a.job a.start = (some a.result, a.final))
    (hrest : InTurn session hooks a.final rest w') : InTurn session hooks w (a :: rest) w'

theorem InTurn.logged {attempts : List Attempt} (hlogs : World.Logs w w₁)
    (h : session.InTurn hooks w₁ attempts w') : session.InTurn hooks w attempts w' := by
  cases h with
  | nil hlater => exact .nil (hlogs.trans hlater)
  | cons hlater hran hrest => exact .cons (hlogs.trans hlater) hran hrest

/-! ## The reducers of an occurrence -/

/-- Reducers are run one after another. The cells that those write that succeed are added to the ones
written before, each once. -/
structure ReducesAll (session : Session) (hooks : Hooks) (jobs : List Job) (before : List SignalId)
    (w : World) (reductions : List Attempt) (written : List SignalId) (w' : World) : Prop where
  jobs_eq : reductions.map (·.job) = jobs
  ran : session.InTurn hooks w reductions w'
  once : before.Nodup → written.Nodup
  written_iff : ∀ cell, cell ∈ written ↔ cell ∈ before ∨
    ∃ a ∈ reductions, a.result = .ok () ∧ (a.job.reducer?).map (·.target) = some cell

namespace ReducesAll

variable {jobs : List Job} {before written : List SignalId} {reductions : List Attempt} {job : Job}
  {r : Reducer}

theorem nil (w : World) (written : List SignalId) :
    session.ReducesAll hooks [] written w [] written w where
  jobs_eq := rfl
  ran := .nil (.refl w)
  once := id
  written_iff cell := by simp

/-- A reducer that succeeds has written its cell. -/
theorem ok (hr : job.reducer? = some r) (hran : session.runJob hooks job w = (some (.ok ()), w₁))
    (h : session.ReducesAll hooks jobs
      (if r.target ∈ before then before else before ++ [r.target]) w₁ reductions written w') :
    session.ReducesAll hooks (job :: jobs) before w (⟨job, w, .ok (), w₁⟩ :: reductions) written
      w' where
  jobs_eq := by rw [List.map_cons, h.jobs_eq]
  ran := .cons (.refl w) hran h.ran
  once hbefore := by
    refine h.once ?_
    split
    · exact hbefore
    · rename_i hnew
      exact hbefore.append (List.nodup_singleton _) (List.disjoint_singleton.2 hnew)
  written_iff cell := by
    have hmem : cell ∈ (if r.target ∈ before then before else before ++ [r.target]) ↔
        cell ∈ before ∨ r.target = cell := by
      split
      · rename_i hold
        refine ⟨.inl, fun hcell => hcell.elim id ?_⟩
        rintro rfl
        exact hold
      · rw [List.mem_append, List.mem_singleton, eq_comm]
    rw [h.written_iff, hmem, List.exists_mem_cons_iff, or_assoc]
    simp [hr]

/-- A reducer that fails is reported, and adds no cell. -/
theorem error {failure : Failure} (hran : session.runJob hooks job w = (some (.error failure), w₁))
    {w₂ : World} (hlogs : World.Logs w₁ w₂)
    (h : session.ReducesAll hooks jobs before w₂ reductions written w') :
    session.ReducesAll hooks (job :: jobs) before w (⟨job, w, .error failure, w₁⟩ :: reductions)
      written w' where
  jobs_eq := by rw [List.map_cons, h.jobs_eq]
  ran := .cons (.refl w) hran (h.ran.logged hlogs)
  once := h.once
  written_iff cell := by
    rw [h.written_iff, List.exists_mem_cons_iff]
    simp

end ReducesAll

theorem exists_storeReduced_eq (target : SignalId) (next : Except Failure Value) (w : World) :
    ∃ result w', storeReduced target next w = (some result, w') := by
  cases next with
  | error failure => exact ⟨_, _, rfl⟩
  | ok value =>
    have hends : (write target value).Leaves (fun _ _ => True) (fun _ => False) w :=
      write_leaves (fun _ _ => trivial) fun _ _ => trivial
    obtain ⟨result, w', hrun, -⟩ := hends.exists
    exact ⟨result, w', hrun⟩

/-- What a reducer gave is stored, and the rest of the reducers follow. -/
private theorem finish_reducesAll {payload : Value} {rest : List Subscriber} (job : Job) {r : Reducer}
    {next : Except Failure Value} {before : List SignalId} (hr : job.reducer? = some r)
    (hran : ∀ result w₂, storeReduced r.target next w₁ = (some result, w₂) →
      session.runJob hooks job w = (some result, w₂))
    (hrest : ∀ before w, (reduceAll session hooks payload before rest).Leaves (fun result w' =>
      ∃ reductions, session.ReducesAll hooks (rest.filterMap (·.reducing? payload)) before w
        reductions result.1 w' ∧ result.2 = reductions.filterMap (·.failure?))
      (fun w' => ∃ job ∈ rest.filterMap (·.reducing? payload), session.CutOff hooks job w') w) :
    (reduceAll.finish session hooks payload before r.target next rest).Leaves (fun result w' =>
      ∃ reductions, session.ReducesAll hooks (job :: rest.filterMap (·.reducing? payload)) before w
        reductions result.1 w' ∧ result.2 = reductions.filterMap (·.failure?))
      (fun w' => ∃ job' ∈ job :: rest.filterMap (·.reducing? payload),
        session.CutOff hooks job' w') w₁ := by
  obtain ⟨result, w₂, hstored⟩ := exists_storeReduced_eq r.target next w₁
  have hjob := hran result w₂ hstored
  have hbroken {w' : World} : (∃ job' ∈ rest.filterMap (·.reducing? payload),
      session.CutOff hooks job' w') → ∃ job' ∈ job :: rest.filterMap (·.reducing? payload),
        session.CutOff hooks job' w' := fun ⟨job', hmem, hcut⟩ =>
    ⟨job', List.mem_cons_of_mem _ hmem, hcut⟩
  unfold reduceAll.finish
  refine leaves_bind.2 (leaves_of_eq_some hstored ?_)
  cases result with
  | ok _ =>
    refine (hrest _ w₂).imp ?_ fun _ => hbroken
    rintro result w' ⟨reductions, hreduces, hfailures⟩
    exact ⟨_, .ok hr hjob hreduces, hfailures⟩
  | error failure =>
    refine leaves_bind.2 (leaves_modify.2 (leaves_bind.2 ?_))
    refine (hrest before _).imp ?_ fun _ => hbroken
    rintro ⟨written, failures⟩ w' ⟨reductions, hreduces, rfl⟩
    exact leaves_pure.2 ⟨_, .error hjob (w₂.logs_report _) hreduces, rfl⟩

/-- All reducers among some subscribers are run, in order. -/
theorem reduceAll_reducesAll (payload : Value) (subscribers : List Subscriber) :
    ∀ before w, (reduceAll session hooks payload before subscribers).Leaves (fun result w' =>
      ∃ reductions, session.ReducesAll hooks (subscribers.filterMap (·.reducing? payload)) before w
        reductions result.1 w' ∧ result.2 = reductions.filterMap (·.failure?))
      (fun w' => ∃ job ∈ subscribers.filterMap (·.reducing? payload), session.CutOff hooks job w')
      w := by
  induction subscribers with
  | nil =>
    intro before w
    rw [reduceAll]
    exact leaves_pure.2 ⟨[], .nil w before, rfl⟩
  | cons subscriber rest ih =>
    intro before w
    rw [reduceAll.eq_def]
    cases subscriber with
    | fold target reducer =>
      refine leaves_bind.2 (leaves_of_eq (fun next w₁ hreduced => ?_) fun w' hcut => ?_)
      · exact finish_reducesAll (.fold target reducer payload) rfl
          (fun result w₂ hstored => (bind_eq_of_eq_some hreduced).trans hstored) ih
      · exact ⟨.fold target reducer payload, List.mem_cons_self, w, bind_eq_of_eq_none hcut⟩
    | foldProgram target reducer =>
      refine leaves_bind.2 (leaves_of_eq (fun next w₁ hreduced => ?_) fun w' hcut => ?_)
      · exact finish_reducesAll (.foldProgram target reducer payload) rfl
          (fun result w₂ hstored => (bind_eq_of_eq_some hreduced).trans hstored) ih
      · exact ⟨.foldProgram target reducer payload, List.mem_cons_self, w, bind_eq_of_eq_none hcut⟩
    | listener listener => exact ih before w
    | forward source => exact ih before w

/-! ## The nodes of a pass -/

/-- Nodes are evaluated one after another, without those that are gone when it is their turn. -/
inductive EvaluatesAll (session : Session) (hooks : Hooks) :
    List SignalId → World → List Attempt → World → Prop where
  | nil (w : World) : EvaluatesAll session hooks [] w [] w
  | gone {id : SignalId} {ids : List SignalId} {w w' : World} {rest : List Attempt}
    (hgone : ¬ w.graph.contains id) (hrest : EvaluatesAll session hooks ids w rest w') :
    EvaluatesAll session hooks (id :: ids) w rest w'
  | evaluated {id : SignalId} {ids : List SignalId} {w w₁ w₂ w' : World}
    {result : Except Failure Unit} {rest : List Attempt} (hlive : w.graph.contains id)
    (hran : session.runJob hooks (.node id) w = (some result, w₁)) (hlogs : World.Logs w₁ w₂)
    (hrest : EvaluatesAll session hooks ids w₂ rest w') :
    EvaluatesAll session hooks (id :: ids) w (⟨.node id, w, result, w₁⟩ :: rest) w'

/-- A pass from some cells leads from one state to another. There is none if there are no cells. -/
inductive Propagates (session : Session) (hooks : Hooks) :
    List SignalId → World → List Attempt → World → Prop where
  | none (w : World) : Propagates session hooks [] w [] w
  | begun {roots : List SignalId} {w w' : World} {evaluations : List Attempt} (hroots : roots ≠ [])
    (hran : session.EvaluatesAll hooks (passOrder w.graph roots)
      ((w.report (passEvent w.graph roots)).begin (.propagating roots)) evaluations w') :
    Propagates session hooks roots w evaluations w'

theorem evaluateAll_evaluatesAll (ids : List SignalId) (w : World) :
    (evaluateAll session hooks ids).Leaves (fun failures w' => ∃ evaluations,
      session.EvaluatesAll hooks ids w evaluations w' ∧
        failures = evaluations.filterMap (·.failure?))
      (fun w' => ∃ id, session.CutOff hooks (.node id) w') w := by
  induction ids generalizing w with
  | nil => exact leaves_pure.2 ⟨[], .nil w, rfl⟩
  | cons id rest ih =>
    refine leaves_bind.2 (leaves_get.2 ?_)
    by_cases hlive : w.graph.contains id = true
    · rw [if_pos hlive]
      refine leaves_bind.2 (leaves_of_eq (fun result w₁ hran => ?_) fun w' hcut => ⟨id, w, hcut⟩)
      cases result with
      | ok _ =>
        refine (ih w₁).mono ?_
        rintro failures w' ⟨evaluations, hrest, rfl⟩
        exact ⟨_, .evaluated hlive hran (.refl w₁) hrest, rfl⟩
      | error failure =>
        refine leaves_bind.2 (leaves_modify.2 (leaves_bind.2 ((ih _).mono ?_)))
        rintro failures w' ⟨evaluations, hrest, rfl⟩
        exact leaves_pure.2 ⟨_, .evaluated hlive hran (w₁.logs_report _) hrest, rfl⟩
    · rw [if_neg hlive]
      refine (ih w).mono ?_
      rintro failures w' ⟨evaluations, hrest, rfl⟩
      exact ⟨evaluations, .gone hlive hrest, rfl⟩

/-- The failures of a pass are those of its evaluations. -/
theorem propagate_attempts (roots : List SignalId) (w : World) :
    (propagate session hooks roots).Leaves (fun failures w' => ∃ evaluations,
      session.Propagates hooks roots w evaluations w' ∧ failures = evaluations.filterMap (·.failure?))
      (fun w' => ∃ id, session.CutOff hooks (.node id) w') w := by
  refine propagate_leaves ?_ fun hroots => ?_
  · rintro rfl
    exact ⟨[], .none w, rfl⟩
  · refine (evaluateAll_evaluatesAll _ _).mono ?_
    rintro failures w' ⟨evaluations, hran, rfl⟩
    exact ⟨evaluations, .begun hroots hran, rfl⟩

/-! ## The listeners of an occurrence -/

/-- All listeners among some subscribers are run, in order. -/
theorem notifyAll_inTurn (payload : Value) (subscribers : List Subscriber) (w : World) :
    (notifyAll session hooks payload subscribers).Leaves (fun failures w' =>
      ∃ notifications : List Attempt,
        notifications.map (·.job) = subscribers.filterMap (·.listening? payload) ∧
          session.InTurn hooks w notifications w' ∧
            failures = notifications.filterMap (·.failure?))
      (fun w' => ∃ job ∈ subscribers.filterMap (·.listening? payload), session.CutOff hooks job w')
      w := by
  induction subscribers generalizing w with
  | nil => exact leaves_pure.2 ⟨[], rfl, .nil (.refl w), rfl⟩
  | cons subscriber rest ih =>
    cases subscriber with
    | listener listener =>
      have hbroken {w' : World} : (∃ job ∈ rest.filterMap (·.listening? payload),
          session.CutOff hooks job w') → ∃ job ∈ (Subscriber.listener listener :: rest).filterMap
            (·.listening? payload), session.CutOff hooks job w' := fun ⟨job, hmem, hcut⟩ =>
        ⟨job, List.mem_cons_of_mem _ hmem, hcut⟩
      refine leaves_bind.2 (leaves_modify.2 (leaves_bind.2 ?_))
      refine leaves_of_eq (fun result w₁ hlistened => ?_) fun w' hcut => ?_
      · cases result with
        | ok value =>
          have hran : session.runJob hooks (.listener listener payload) w = (some (.ok ()), w₁) :=
            (bind_eq_of_eq_some rfl).trans (bind_eq_of_eq_some hlistened)
          refine (ih w₁).imp ?_ fun _ => hbroken
          rintro failures w' ⟨notifications, hjobs, hturn, rfl⟩
          exact ⟨⟨_, w, .ok (), w₁⟩ :: notifications, congrArg (_ :: ·) hjobs,
            .cons (.refl w) hran hturn, rfl⟩
        | error interrupt =>
          have hran : session.runJob hooks (.listener listener payload) w =
              (some (.error interrupt.toFailure), w₁) :=
            (bind_eq_of_eq_some rfl).trans (bind_eq_of_eq_some hlistened)
          refine leaves_bind.2 ((ih w₁).imp ?_ fun _ => hbroken)
          rintro failures w' ⟨notifications, hjobs, hturn, rfl⟩
          exact leaves_pure.2 ⟨⟨_, w, .error interrupt.toFailure, w₁⟩ :: notifications,
            congrArg (_ :: ·) hjobs, .cons (.refl w) hran hturn, rfl⟩
      · exact ⟨_, List.mem_cons_self, w, (bind_eq_of_eq_some rfl).trans (bind_eq_of_eq_none hcut)⟩
    | fold target reducer => exact ih w
    | foldProgram target reducer => exact ih w
    | forward source => exact ih w

end Session

/-! ## Changes -/

/-- Applying a change leads from one state to another by the attempts that it brings. A written cell is
propagated. An occurrence goes to its subscribers: first all reducers run, then one pass is made from
the cells that they have written, and then all listeners run. -/
inductive Change.Brings (session : Session) (hooks : Hooks) :
    Change → World → List Attempt → World → Prop where
  | written {cell : SignalId} {w w' : World} {evaluations : List Attempt}
    (hpasses : session.Propagates hooks [cell] w evaluations w') :
    Brings session hooks (.written cell) w evaluations w'
  | fired {source : SourceId} {payload : Value} {subscribers : List Subscriber} {hub : Hub}
    {w reduced passed w' : World} {written : List SignalId}
    {reductions evaluations notifications : List Attempt}
    (hdeliver : w.hub.deliver source = .ok (subscribers, hub))
    (hreduces : session.ReducesAll hooks (subscribers.filterMap (·.reducing? payload)) []
      (World.report { w with hub } (.delivering source subscribers.length)) reductions written reduced)
    (hpasses : session.Propagates hooks written reduced evaluations passed)
    (hlistens : notifications.map (·.job) = subscribers.filterMap (·.listening? payload))
    (hnotified : session.InTurn hooks passed notifications w') :
    Brings session hooks (.fired source payload) w (reductions ++ evaluations ++ notifications) w'

namespace Session

variable {session : Session} {hooks : Hooks} {w : World}

theorem deliver_brings {source : SourceId} {subscribers : List Subscriber} {hub : Hub}
    (payload : Value) (hdeliver : w.hub.deliver source = .ok (subscribers, hub)) :
    (deliver session hooks source payload).Leaves (fun failures w' => ∃ attempts,
      Change.Brings session hooks (.fired source payload) w attempts w' ∧
        failures = attempts.filterMap (·.failure?)) (fun _ => True) w := by
  refine leaves_bind.2 (leaves_get.2 ?_)
  rw [hdeliver]
  refine leaves_bind.2 (leaves_set.2 (leaves_bind.2 (leaves_modify.2 (leaves_bind.2 ?_))))
  refine (reduceAll_reducesAll payload subscribers [] _).imp ?_ fun _ _ => trivial
  rintro ⟨written, reducerFailures⟩ reduced ⟨reductions, hreduces, rfl⟩
  refine leaves_bind.2 ((propagate_attempts written reduced).imp ?_ fun _ _ => trivial)
  rintro passFailures passed ⟨evaluations, hpasses, rfl⟩
  refine leaves_bind.2 ((notifyAll_inTurn payload subscribers passed).imp ?_ fun _ _ => trivial)
  rintro listenerFailures w' ⟨notifications, hlistens, hnotified, rfl⟩
  refine leaves_pure.2 ⟨_, .fired hdeliver hreduces hpasses hlistens hnotified, ?_⟩
  simp only [List.filterMap_append]

/-- The failures that a change is applied with are those of the attempts that it brings. -/
theorem apply_brings {change : Change}
    (hknown : ∀ source payload, change = .fired source payload →
      source.index < w.hub.sources.size) :
    (apply session hooks change).Leaves (fun failures w' => ∃ attempts,
      change.Brings session hooks (w.begin (.applied change)) attempts w' ∧
        failures = attempts.filterMap (·.failure?)) (fun _ => True) w := by
  refine leaves_bind.2 (leaves_modify.2 ?_)
  cases change with
  | written cell =>
    refine (propagate_attempts [cell] _).imp ?_ fun _ _ => trivial
    rintro failures w' ⟨evaluations, hpasses, rfl⟩
    exact ⟨evaluations, .written hpasses, rfl⟩
  | fired source payload =>
    obtain ⟨subscribers, hub, hdeliver⟩ := Hub.exists_deliver (hknown source payload rfl)
    exact deliver_brings payload hdeliver

end Session

end EffectGraph
