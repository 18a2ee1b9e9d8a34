import Mathlib
import EffectGraph.Proofs.Session.Attempts
import EffectGraph.Proofs.Session.Spans
import EffectGraph.Proofs.Session.Reachable

/-!
# Batches

A write or an occurrence that is requested while nothing is being settled makes up a batch: the change
is applied, and then all that wait are, one at a time in the order of their requests, until none waits.
`Visits.call_settles_all` says what a batch amounts to, whatever is requested meanwhile.
-/

namespace EffectGraph

open Exec World

/-! ## Calls -/

/-- A call that requests a change. -/
inductive Call where
  /-- A cell is written. -/
  | set (cell : SignalId) (value : Value)
  /-- An occurrence is delivered to a source. -/
  | fire (source : SourceId) (payload : Value)

namespace Call

/-- The change that is requested. -/
def change : Call → Change
  | .set cell _ => .written cell
  | .fire source payload => .fired source payload

/-- Makes the call. -/
def exec (hooks : Hooks) : Call → Exec (Except Failure Unit)
  | .set cell value => writeCell hooks cell value
  | .fire source payload => Exec.fire hooks source payload

/-- What a call does at once: it writes a value if there is such a cell, and makes sure that a source
exists. If there is none, the call is refused. -/
def accept (w : World) : Call → Except Failure World
  | .set cell value =>
    match w.graph.node cell with
    | .error failure => .error failure
    | .ok node =>
      if node.kind.isCell then
        (w.graph.settle cell value).map fun graph => World.begin { w with graph } (.wrote cell value)
      else .error (.notWritable cell)
  | .fire source _ => (w.hub.get source).map fun _ => w

variable {w w₁ : World}

theorem accept_set {cell : SignalId} {value : Value} {graph : Graph} (hcell : w.graph.IsCell cell)
    (hstore : w.graph.settle cell value = .ok graph) :
    (Call.set cell value).accept w = .ok (World.begin { w with graph } (.wrote cell value)) := by
  obtain ⟨node, hnode, hkind⟩ := hcell
  have hiscell : node.kind.isCell = true := by
    rw [hkind]
    rfl
  simp only [accept, Graph.node_eq_ok.2 hnode, if_pos hiscell, hstore]
  rfl

theorem accept_fire {source : SourceId} {payload : Value} {found : Source}
    (hfound : w.hub.get source = .ok found) : (Call.fire source payload).accept w = .ok w := by
  simp only [accept, hfound]
  rfl

/-- A call is refused at once, or it is accepted and requests its change. -/
theorem exec_leaves (call : Call) {hooks : Hooks} {Q : Except Failure Unit → World → Prop}
    {E : World → Prop}
    (hrefused : ∀ failure, call.accept w = .error failure → Q (.error failure) w)
    (haccepted : ∀ w₁, call.accept w = .ok w₁ → (request hooks call.change).Leaves Q E w₁) :
    (call.exec hooks).Leaves Q E w := by
  cases call with
  | set cell value =>
    refine leaves_bind.2 (leaves_get.2 ?_)
    cases hnode : w.graph.node cell with
    | error failure =>
      have hrefuse : (Call.set cell value).accept w = .error failure := by simp [accept, hnode]
      exact leaves_pure.2 (hrefused failure hrefuse)
    | ok node =>
      dsimp only
      by_cases hcell : node.kind.isCell = true
      · rw [if_pos hcell]
        refine leaves_bind.2 (write_leaves (fun graph hstore => ?_) fun failure hgone => ?_)
        · exact haccepted _ (accept_set (Graph.isCell_of_node hnode hcell) hstore)
        · rw [hnode] at hgone
          cases hgone
      · rw [if_neg hcell]
        have hrefuse : (Call.set cell value).accept w = .error (.notWritable cell) := by
          simp [accept, hnode, hcell]
        exact leaves_pure.2 (hrefused _ hrefuse)
  | fire source payload =>
    refine leaves_bind.2 (leaves_get.2 ?_)
    cases hfound : w.hub.get source with
    | error failure =>
      have hrefuse : (Call.fire source payload).accept w = .error failure := by
        simp [accept, hfound, Except.map]
      exact leaves_pure.2 (hrefused failure hrefuse)
    | ok found => exact haccepted w (accept_fire hfound)

/-- What an accepted call has done. -/
theorem accept_eq_ok {call : Call} (h : call.accept w = .ok w₁) :
    (∃ cell value graph, call = .set cell value ∧ w.graph.settle cell value = .ok graph ∧
        w₁ = World.begin { w with graph } (.wrote cell value)) ∨
      ∃ source payload found, call = .fire source payload ∧ w.hub.get source = .ok found ∧
        w₁ = w := by
  cases call with
  | set cell value =>
    cases hnode : w.graph.node cell with
    | error failure => simp [accept, hnode] at h
    | ok node =>
      by_cases hcell : node.kind.isCell = true
      · cases hstore : w.graph.settle cell value with
        | error failure => simp [accept, hnode, hcell, hstore, Except.map] at h
        | ok graph =>
          simp only [accept, hnode, hcell, hstore, Except.map, if_true, Except.ok.injEq] at h
          exact .inl ⟨cell, value, graph, rfl, hstore, h.symm⟩
      · simp [accept, hnode, hcell] at h
  | fire source payload =>
    cases hfound : w.hub.get source with
    | error failure => simp [accept, hfound, Except.map] at h
    | ok found =>
      simp only [accept, hfound, Except.map, Except.ok.injEq] at h
      exact .inr ⟨source, payload, found, rfl, hfound, h.symm⟩

theorem settling_of_accept {call : Call} (h : call.accept w = .ok w₁) :
    w₁.settling = w.settling := by
  rcases accept_eq_ok h with ⟨cell, value, graph, rfl, -, rfl⟩ | ⟨source, payload, found, rfl, -, rfl⟩
  · rfl
  · rfl

/-- What becomes of a call that is made while changes are being settled: its change waits. -/
def deferred (call : Call) (w : World) : World :=
  if call.change.waitsIn w.queue then w else w.enqueue call.change

/-- A call that is made while changes are being settled ends at once. -/
theorem exec_of_settling (call : Call) (hooks : Hooks) (hsettling : w.settling = true) :
    call.exec hooks w = match call.accept w with
      | .error failure => (some (.error failure), w)
      | .ok w₁ => (some (.ok ()), call.deferred w₁) := by
  have hleaves : (call.exec hooks).Leaves (fun result w' => (some result, w') =
      match call.accept w with
      | .error failure => (some (.error failure), w)
      | .ok w₁ => (some (.ok ()), call.deferred w₁)) (fun _ => False) w := by
    refine call.exec_leaves (fun failure hrefused => by rw [hrefused]) fun w₁ haccepted => ?_
    have hsettling₁ : w₁.settling = true := (settling_of_accept haccepted).trans hsettling
    rw [haccepted]
    refine request_leaves hsettling₁ (fun hwaits => ?_) fun hnew => ?_
    · simp [deferred, hwaits]
    · simp [deferred, hnew]
  obtain ⟨result, w', hexec, heq⟩ := hleaves.exists
  exact hexec.trans heq

/-- A batch starts with the requested change at the front of the queue, so to speak. -/
theorem spans_of_accept {call : Call} (h : call.accept w = .ok w₁) :
    Spans [] [] { w with queue := [call.change] }
      { w₁ with settling := true, queue := [call.change] } := by
  rcases accept_eq_ok h with ⟨cell, value, graph, rfl, hstore, rfl⟩ |
    ⟨source, payload, found, rfl, -, rfl⟩
  · refine ⟨[⟨.wrote cell value, .of { w.toScene with graph }⟩], rfl, rfl, rfl, rfl,
      fun k hk => ?_, fun m hm => ?_, fun hknown => hknown⟩
    · rw [List.mem_singleton.1 hk]
      exact .inr List.mem_cons_self
    · rw [List.mem_singleton.1 hm]
      have hread := Graph.value_of_settle hstore
      simpa [Moment.IsOrderly] using hread
  · refine ⟨[], rfl, rfl, rfl, rfl, fun k hk => ?_, fun m hm => ?_, fun hknown => hknown⟩
    · exact absurd hk List.not_mem_nil
    · exact absurd hm List.not_mem_nil

theorem knowsQueued_of_accept {call : Call} (h : call.accept w = .ok w₁) :
    World.KnowsQueued { w with queue := [call.change] } := by
  intro source payload hfired
  have hcall : .fired source payload = call.change := List.mem_singleton.1 hfired
  rcases accept_eq_ok h with ⟨cell, value, graph, rfl, -, -⟩ | ⟨_, _, found, rfl, hfound, -⟩
  · cases hcall
  · obtain ⟨rfl, rfl⟩ := Change.fired.inj hcall
    exact Hub.index_lt_of_get hfound

end Call

/-! ## Applying one change after another -/

/-- The application of a change. -/
structure Application where
  change : Change
  start : World
  failures : List Failure
  final : World

namespace Session

/-- The application took place as the session has it: it attempted what the change brings, the
failures are those of the attempts in their order, and no other change was applied meanwhile. -/
structure Applies (session : Session) (hooks : Hooks) (a : Application) : Prop where
  ran : apply session hooks a.change a.start = (some a.failures, a.final)
  attempted : ∃ attempts,
    a.change.Brings session hooks (a.start.begin (.applied a.change)) attempts a.final ∧
      a.failures = attempts.filterMap (·.failure?)
  alone : ∃ since, a.final.past = since ++ a.start.past ∧ appliedIn since = [a.change]

/-- A change is applied, and then whatever change is the first to wait when one has been applied,
until none waits. -/
inductive Drains (session : Session) (hooks : Hooks) :
    Change → World → List Application → World → Prop where
  | last {a : Application} (applies : session.Applies hooks a) (hqueue : a.final.queue = []) :
    Drains session hooks a.change a.start [a] a.final
  | next {a : Application} {rest : List Application} {next : Change} {queue : List Change}
    {w' : World} (applies : session.Applies hooks a) (hqueue : a.final.queue = next :: queue)
    (others : Drains session hooks next { a.final with queue } rest w') :
    Drains session hooks a.change a.start (a :: rest) w'

variable {session : Session} {level : Nat} {taken : List Change} {w₀ w w₁ : World}

/-- Every application within a batch takes place as the session has it. -/
theorem apply_applies {change : Change} (hsettling : w.settling = true)
    (hknown : ∀ source payload, change = .fired source payload →
      source.index < w.hub.sources.size) {failures : List Failure} {w' : World}
    (hran : apply session (session.hooksAt level) change w = (some failures, w')) :
    session.Applies (session.hooksAt level) ⟨change, w, failures, w'⟩ := by
  refine ⟨hran, (apply_brings hknown).of_eq_some hran, ?_⟩
  have hfront : Spans [] [] { w with queue := change :: w.queue } { w with queue := change :: w.queue } :=
    .refl hsettling
  obtain ⟨since, hspan⟩ := (apply_spans hfront).of_eq_some hran
  exact ⟨since, hspan.past_eq, hspan.applied_eq⟩

/-- Applying a change and all that wait is one application after another, and takes every change out of
the queue. -/
theorem drain_applies (bound : Nat) : ∀ {change : Change} {taken : List Change} {w : World},
    Spans [] taken w₀ { w with queue := change :: w.queue } → w₀.KnowsQueued →
      (drain session (session.hooksAt level) bound change).Leaves
        (fun failures w' => w'.queue = [] ∧ ∃ applications,
          session.Drains (session.hooksAt level) change w applications w' ∧
            Spans [] (taken ++ applications.map (·.change)) w₀ w' ∧
              failures = applications.flatMap (·.failures))
        (fun w' => w'.settling = true) w := by
  -- What carries the induction: all that was taken out of the queue since `w₀` has been applied, and
  -- the change that comes next was at its front.
  induction bound with
  | zero => exact fun h _ => leaves_failure.2 h.settling
  | succ n ih =>
    intro change taken w h hknown
    have hsource : ∀ source payload, change = .fired source payload →
        source.index < w.hub.sources.size := by
      rintro source payload rfl
      obtain ⟨since, hspan⟩ := h
      exact hspan.known hknown source payload List.mem_cons_self
    have happly : (apply session (session.hooksAt level) change).Leaves
        (fun _ w' => Spans [] (taken ++ [change]) w₀ w') (fun w' => w'.settling = true) w :=
      apply_spans h
    refine leaves_bind.2 ((happly.and (leaves_self _ w)).imp ?_ fun w' hcut => hcut.1)
    rintro failures w₁ ⟨h₁, hran⟩
    have hsettling : w.settling = true := h.settling
    have happlies := apply_applies hsettling hsource hran
    refine leaves_bind.2 (leaves_get.2 ?_)
    cases hqueue : w₁.queue with
    | nil =>
      exact leaves_pure.2 ⟨hqueue, [⟨change, w, failures, w₁⟩], .last happlies hqueue, h₁, by simp⟩
    | cons next queue =>
      refine leaves_bind.2 (leaves_set.2 (leaves_bind.2 ?_))
      have hfront : Spans [] (taken ++ [change]) w₀
          { { w₁ with queue } with queue := next :: queue } := by
        rw [← hqueue]
        exact h₁
      refine (ih hfront hknown).mono ?_
      rintro later w' ⟨hempty, applications, hdrains, hspans, rfl⟩
      refine leaves_pure.2 ⟨hempty, ⟨change, w, failures, w₁⟩ :: applications,
        .next happlies hqueue hdrains, ?_, by simp⟩
      rw [List.append_assoc] at hspans
      exact hspans

/-- What the settling of a change amounts to. -/
def Settles (session : Session) (hooks : Hooks) (w₀ : World) (change : Change) (w : World)
    (result : Except Failure Unit) (w' : World) : Prop :=
  ∃ applications last, last.queue = [] ∧ w' = { last with settling := false, journal := w'.journal } ∧
    session.Drains hooks change { w with settling := true } applications last ∧
      Spans [] (applications.map (·.change)) w₀ last ∧
        result = Script.settled (applications.flatMap (·.failures))

/-- Settling a change applies it and all that is requested meanwhile. -/
theorem settle_settles (bound : Nat) {change : Change}
    (h : Spans [] [] w₀ { w with settling := true, queue := change :: w.queue })
    (hknown : w₀.KnowsQueued) :
    (settle session (session.hooksAt level) bound change).Leaves
      (session.Settles (session.hooksAt level) w₀ change w) (fun w' => w'.settling = true) w := by
  refine leaves_bind.2 (leaves_modify.2 (leaves_bind.2 ?_))
  refine (drain_applies bound (w := { w with settling := true }) h hknown).mono ?_
  rintro failures last ⟨hempty, applications, hdrains, hspans, rfl⟩
  refine leaves_bind.2 (leaves_modify.2 ?_)
  dsimp only
  split
  · exact leaves_pure.2 ⟨applications, last, hempty, rfl, hdrains, hspans, rfl⟩
  · refine leaves_bind.2 (leaves_modify.2 (leaves_pure.2 ?_))
    exact ⟨applications, last, hempty, rfl, hdrains, hspans, rfl⟩

end Session

/-! ## Between batches nothing waits -/

/-- No change is being settled, and none waits. -/
def World.Calm (w : World) : Prop := w.settling = false ∧ w.queue = []

/-- One state comes after another, and is calm if that was. -/
def World.Calmly (w w' : World) : Prop := Follows w w' ∧ (w.Calm → w'.Calm)

/-- An action that starts in a calm state can be cut off while changes wait, but then one is being
settled. -/
def World.StrandedOnlyIn (w w' : World) : Prop := w.Calm → w'.settling = false → w'.queue = []

theorem composes_calmly : Composes Calmly StrandedOnlyIn where
  refl w := ⟨.refl w, id⟩
  trans h h' := ⟨h.1.trans h'.1, fun hcalm => h'.2 (h.2 hcalm)⟩
  cut _ hcalm _ := hcalm.2
  trans_cut h h' hcalm := h' (h.2 hcalm)

theorem admits_calmly : Admits Calmly StrandedOnlyIn := by
  refine composes_calmly.admits (fun hact => ?_) fun h => h.1
  obtain ⟨hsettling, hqueue⟩ := hact.queue_eq
  exact ⟨Steps.follows hact.steps, fun hcalm => ⟨hsettling.trans hcalm.1, hqueue.trans hcalm.2⟩⟩

namespace Session

variable {session : Session} {level : Nat} {w w₁ : World}

/-- An accepted call settles its change if none is being settled. -/
theorem request_settles {call : Call} (hcalm : w.Calm) (h : call.accept w = .ok w₁) :
    (request (session.hooksAt level) call.change).Leaves
      (session.Settles (session.hooksAt (level - 1)) { w with queue := [call.change] } call.change w₁)
      (fun w' => w'.settling = false → w'.queue = []) w₁ := by
  have hcalm₁ : w₁.Calm := by
    rcases Call.accept_eq_ok h with ⟨cell, value, graph, rfl, -, rfl⟩ | ⟨_, _, _, rfl, -, rfl⟩
    · exact hcalm
    · exact hcalm
  refine leaves_bind.2 (leaves_get.2 ?_)
  rw [if_neg (by simp [hcalm₁.1])]
  cases level with
  | zero => exact leaves_failure.2 fun _ => hcalm₁.2
  | succ n =>
    have hfront : Spans [] [] { w with queue := [call.change] }
        { w₁ with settling := true, queue := call.change :: w₁.queue } := by
      rw [hcalm₁.2]
      exact Call.spans_of_accept h
    have hsettle : (settle session (session.hooksAt n) n call.change).Leaves _ _ w₁ :=
      settle_settles n hfront (Call.knowsQueued_of_accept h)
    refine hsettle.imp (fun _ _ hsettles => hsettles) ?_
    intro w' hcut hsettling
    rw [hcut] at hsettling
    cases hsettling

/-- Scripts leave a session calm. -/
theorem tracks_calmly (session : Session) (level : Nat) :
    Tracks (session.hooksAt level) Calmly StrandedOnlyIn := by
  -- Writing a cell and firing a source are both calls, so one argument serves them.
  have hrequest {level : Nat} (call : Call) {w w₁ : World} (hfollows : Follows w w₁)
      (h : call.accept w = .ok w₁) : (request (session.hooksAt level) call.change).Leaves
        (fun _ w' => Calmly w w') (StrandedOnlyIn w) w₁ := by
    have hsteps := stepwise_request (session.hooksAt_stepwise level) call.change w₁
    refine leaves_of_eq (fun result w' heq => ⟨?_, fun hcalm => ?_⟩) fun w' heq hcalm => ?_
    · exact hfollows.trans (Steps.follows (hsteps.of_eq_some heq))
    · obtain ⟨_, last, hempty, hlast, -⟩ := (request_settles hcalm h).of_eq_some heq
      rw [hlast]
      exact ⟨rfl, hempty⟩
    · exact (request_settles hcalm h).of_eq_none heq
  refine ⟨tracks_hooksAt session admits_calmly.toCalls session.makes_all ?_ ?_ level,
    admits_calmly.every⟩
  · intro level w cell value graph hcell hstore
    have hwritten : Steps w (World.begin { w with graph } (.wrote cell value)) :=
      .head (.store hstore) (steps_begin _ _)
    exact hrequest _ (Steps.follows hwritten) (Call.accept_set hcell hstore)
  · intro level w source payload found hfound
    exact hrequest (.fire source payload) (.refl w) (Call.accept_fire hfound)

theorem Reachable.calm (h : session.Reachable w) : w.Calm := by
  induction h with
  | start document journal => exact ⟨rfl, rfl⟩
  | run _ hrun ih =>
    have hexec := session.advance_eq_of_execute_eq hrun
    exact ((Script.exec_tracked session (session.tracks_calmly _) _ _).of_eq_some hexec).2 ih

/-- Wherever a session gets to, changes wait only while one is being settled. -/
theorem Visits.calm (h : session.Visits w) (hsettling : w.settling = false) : w.Calm := by
  obtain ⟨w₀, level, script, hreach, rfl⟩ := h
  have htracked := Script.exec_tracked session (session.tracks_calmly level) script w₀
  have hleaves : (script.exec session (session.hooksAt level)).Leaves
      (fun _ w' => w'.settling = false → w'.queue = [])
      (fun w' => w'.settling = false → w'.queue = []) w₀ :=
    htracked.imp (fun _ _ hcalmly _ => (hcalmly.2 hreach.calm).2) fun _ hcut => hcut hreach.calm
  exact ⟨hsettling, hleaves.left hsettling⟩

/-! ## What a batch amounts to -/

/-- What becomes of a change that was requested while none was being settled. -/
structure IsBatch (session : Session) (hooks : Hooks) (change : Change) (w w₁ : World)
    (applications : List Application) (since : List Moment) (result : Except Failure Unit)
    (w' : World) : Prop where
  /-- The change is applied, and then whatever waits, one application after another. -/
  drained : ∃ last, w' = { last with settling := false, journal := w'.journal } ∧
    session.Drains hooks change { w₁ with settling := true } applications last
  past_eq : w'.past = since ++ w.past
  /-- All changes that are requested are applied once each, in the order of the requests. -/
  order : applications.map (·.change) = change :: queuedIn since
  /-- What is written can be read at once. -/
  readable : ∀ m ∈ since, ∀ cell value, m.activity = .wrote cell value →
    m.scene.value.graph.value cell = .ok value
  /-- After every write a pass starts from the cell. -/
  passed : ∀ later m earlier cell value, since = later ++ m :: earlier →
    m.activity = .wrote cell value →
      ∃ pass ∈ later, ∃ roots, pass.activity = .propagating roots ∧ cell ∈ roots
  /-- No write is put into the queue while one of the same cell waits there. -/
  shared : ∀ m ∈ since, ∀ cell, m.activity = .queued (.written cell) →
    .written cell ∉ m.scene.value.queue
  queue_eq : w'.queue = []
  settling_eq : w'.settling = false
  /-- The result lists the failures of all applications. -/
  result_eq : result = Script.settled (applications.flatMap (·.failures))

/-- What is applied is the change, and what was requested meanwhile. -/
theorem Settles.appliedIn_eq {hooks : Hooks} {change : Change} {result : Except Failure Unit}
    {w' : World} (h : session.Settles hooks { w with queue := [change] } change w₁ result w') :
    ∃ since, w'.past = since ++ w.past ∧ appliedIn since = change :: queuedIn since := by
  obtain ⟨applications, last, hempty, hlast, -, ⟨since, hspan⟩, -⟩ := h
  refine ⟨since, ?_, ?_⟩
  · rw [hlast]
    exact hspan.past_eq
  · have hfifo := hspan.fifo
    rw [hempty, List.append_nil] at hfifo
    rw [hspan.applied_eq, ← hfifo]
    rfl

/-- Settling a change makes up a batch. -/
theorem Settles.isBatch {hooks : Hooks} {change : Change} {result : Except Failure Unit} {w' : World}
    (h : session.Settles hooks { w with queue := [change] } change w₁ result w') :
    ∃ applications since, session.IsBatch hooks change w w₁ applications since result w' := by
  obtain ⟨applications, last, hempty, hlast, hdrains, ⟨since, hspan⟩, hresult⟩ := h
  have hopen : openWrites since = [] := hspan.openWrites_eq_nil hempty
  refine ⟨applications, since, ⟨last, hlast, hdrains⟩, ?_, ?_, ?_, ?_, ?_, ?_, ?_, hresult⟩
  · rw [hlast]
    exact hspan.past_eq
  · have hfifo := hspan.fifo
    rw [hempty, List.append_nil] at hfifo
    exact hfifo.symm
  · intro m hm cell value hwrote
    have horderly := hspan.orderly m hm
    simp only [Moment.IsOrderly, hwrote] at horderly
    exact horderly
  · intro later m earlier cell value hsince hwrote
    rw [hsince] at hopen
    exact exists_pass_of_openWrites_eq_nil hwrote hopen
  · intro m hm cell hqueued hwaits
    have horderly := hspan.orderly m hm
    simp only [Moment.IsOrderly, hqueued] at horderly
    have hwaiting := Change.waitsIn_iff.2 ⟨cell, rfl, hwaits⟩
    rw [horderly] at hwaiting
    cases hwaiting
  · rw [hlast]
    exact hempty
  · rw [hlast]

/-- **A call settles all that is requested meanwhile.** Wherever a session gets to, let a cell be
written or an occurrence be fired while nothing is being settled, and let the call end. If there is no
such cell or source, nothing has happened. Otherwise the change has been applied, and after it, one at
a time and in the order of their requests, all changes that reducers, computations, effects and
listeners requested meanwhile: these calls ended at once, with the value written and the change in the
queue. After every write a pass started from the cell, nothing waits any more, and the result lists
the failures of all applications. -/
theorem Visits.call_settles_all (h : session.Visits w) (hsettling : w.settling = false) {call : Call}
    {result : Except Failure Unit} {w' : World}
    (hcall : call.exec (session.hooksAt level) w = (some result, w')) :
    (match call.accept w with
      | .error failure => result = .error failure ∧ w' = w
      | .ok w₁ => ∃ applications since, session.IsBatch (session.hooksAt (level - 1)) call.change
          w w₁ applications since result w') ∧
      ∀ (meanwhile : Call) (hooks : Hooks) (v : World), v.settling = true →
        meanwhile.exec hooks v = match meanwhile.accept v with
          | .error failure => (some (.error failure), v)
          | .ok v₁ => (some (.ok ()), meanwhile.deferred v₁) := by
  have hcalm := h.calm hsettling
  have hleaves : (call.exec (session.hooksAt level)).Leaves (fun result w' =>
      match call.accept w with
      | .error failure => result = .error failure ∧ w' = w
      | .ok w₁ => ∃ applications since, session.IsBatch (session.hooksAt (level - 1)) call.change
          w w₁ applications since result w') (fun _ => True) w := by
    refine call.exec_leaves (fun failure hrefused => ?_) fun w₁ haccepted => ?_
    · rw [hrefused]
      exact ⟨rfl, rfl⟩
    · rw [haccepted]
      exact (request_settles hcalm haccepted).imp (fun _ _ hsettles => hsettles.isBatch)
        fun _ _ => trivial
  exact ⟨hleaves.of_eq_some hcall, fun meanwhile hooks v => meanwhile.exec_of_settling hooks⟩

/-- A source whose listener, on one payload, writes a cell twice and fires the source again, and fails
on the other payload; and a signal derived from the cell, which fails on what is written. -/
private def echoing : Script :=
  .ask (.source "pings") fun (pings : SourceId) =>
  .ask (.cell (.bool false)) fun (cell : SignalId) =>
  .derive [.signal cell] (fun
    | [.bool true] => .done (.error (.raised (.bool true)))
    | inputs => .done (.ok (.list inputs))) fun _ =>
  .listen pings (fun
    | .bool true =>
      .set cell (.bool true) fun _ => .fire pings (.bool false) fun _ =>
      .set cell (.bool true) fun _ => .done (.ok .unit)
    | _ => .done (.error (.raised .unit))) fun _ => .done (.ok .unit)

/-- What becomes of firing the source. -/
private theorem echoing_run : ∃ w w', Reachable {} w ∧
    (Call.fire ⟨0⟩ (.bool true)).accept w = .ok w ∧
    (Call.fire ⟨0⟩ (.bool true)).exec (hooksAt {} 4) w =
      (some (.error (.propagation [.uncaught (.bool true), .uncaught .unit])), w') ∧
    queuedIn (w'.past.take (w'.past.length - w.past.length)) =
      [.written ⟨0⟩, .fired ⟨0⟩ (.bool false)] := by
  have hrun : execute {} 0 echoing {} = some (.ok .unit, (advance {} 0 echoing {}).2) := rfl
  have hreach : Reachable {} (advance {} 0 echoing {}).2 := .run (.start .empty #[]) hrun
  rcases hcall : (Call.fire ⟨0⟩ (.bool true)).exec (hooksAt {} 4) (advance {} 0 echoing {}).2 with
    ⟨result, w'⟩
  have hended := hcall
  cbv at hended
  obtain ⟨rfl, rfl⟩ := Prod.mk.inj hended
  exact ⟨_, _, hreach, rfl, hcall, rfl⟩

theorem Visits.call_settles_all_echoing : ∃ w w' applications since, Visits {} w ∧
    (Call.fire ⟨0⟩ (.bool true)).exec (hooksAt {} 4) w =
      (some (.error (.propagation [.uncaught (.bool true), .uncaught .unit])), w') ∧
    IsBatch {} (hooksAt {} 3) (.fired ⟨0⟩ (.bool true)) w w applications since
      (.error (.propagation [.uncaught (.bool true), .uncaught .unit])) w' ∧
    applications.map (·.change) =
      [.fired ⟨0⟩ (.bool true), .written ⟨0⟩, .fired ⟨0⟩ (.bool false)] := by
  obtain ⟨w, w', hreach, haccept, hcall, hqueued⟩ := echoing_run
  have hsettled := (Visits.call_settles_all hreach.visits hreach.calm.1 hcall).1
  rw [haccept] at hsettled
  obtain ⟨applications, since, hbatch⟩ := hsettled
  have hsince : w'.past.take (w'.past.length - w.past.length) = since := by
    rw [hbatch.past_eq]
    simp
  rw [hsince] at hqueued
  refine ⟨w, w', applications, since, hreach.visits, hcall, hbatch, ?_⟩
  rw [hbatch.order, hqueued]
  rfl

end Session

end EffectGraph
