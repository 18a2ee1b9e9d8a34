import EffectGraph.Proofs.Session.Currency
import EffectGraph.Proofs.Session.Levels

/-!
# What is requested while a change is being settled

While a change is being settled, scripts do not settle others: a change that they request goes into
the queue, and a cell that they write keeps its write there until a pass starts from it. `Span` says
this of the moments that lie between two states. What waited and what was put into the queue since is
what was taken out of it and what waits now; and a write that no pass has followed waits in the
queue, or its cell is a root of a pass that is still to start.
-/

namespace EffectGraph

open Exec World

/-! ## Moments -/

/-- The change that is put into the queue. -/
def Activity.queued? : Activity → Option Change
  | .queued change => some change
  | _ => none

/-- The change that is applied. -/
def Activity.applied? : Activity → Option Change
  | .applied change => some change
  | _ => none

/-- The changes that were put into the queue, in order. The moments come latest first. -/
def queuedIn (since : List Moment) : List Change :=
  (since.filterMap (·.activity.queued?)).reverse

/-- The changes that were applied, in order. -/
def appliedIn (since : List Moment) : List Change :=
  (since.filterMap (·.activity.applied?)).reverse

@[simp] theorem queuedIn_nil : queuedIn [] = [] := rfl

@[simp] theorem appliedIn_nil : appliedIn [] = [] := rfl

@[simp] theorem queuedIn_append (later earlier : List Moment) :
    queuedIn (later ++ earlier) = queuedIn earlier ++ queuedIn later := by
  simp [queuedIn]

@[simp] theorem appliedIn_append (later earlier : List Moment) :
    appliedIn (later ++ earlier) = appliedIn earlier ++ appliedIn later := by
  simp [appliedIn]

theorem mem_openWrites_append {later earlier : List Moment} {cell : SignalId}
    (h : cell ∈ openWrites (later ++ earlier)) :
    cell ∈ openWrites later ∨ cell ∈ openWrites earlier := by
  induction later with
  | nil => exact .inr h
  | cons m rest ih =>
    obtain ⟨activity, scene⟩ := m
    cases activity with
    | wrote written value =>
      rcases List.mem_cons.1 h with rfl | h
      · exact .inl List.mem_cons_self
      · exact (ih h).imp_left fun hmem => List.mem_cons_of_mem _ hmem
    | propagating roots =>
      obtain ⟨hmem, hroot⟩ := List.mem_filter.1 h
      exact (ih hmem).imp_left fun hmem => List.mem_filter.2 ⟨hmem, hroot⟩
    | queued | applied | reducing | evaluating | listening => exact ih h

/-- Nothing but a pass from the cell closes a write. -/
theorem mem_openWrites_of_unpassed {later earlier : List Moment} {cell : SignalId}
    (hnone : ∀ pass ∈ later, ∀ roots, pass.activity = .propagating roots → cell ∉ roots)
    (h : cell ∈ openWrites earlier) : cell ∈ openWrites (later ++ earlier) := by
  induction later with
  | nil => exact h
  | cons last rest ih =>
    have hrest := ih fun pass hpass => hnone pass (List.mem_cons_of_mem _ hpass)
    obtain ⟨activity, scene⟩ := last
    cases activity with
    | wrote written value => exact List.mem_cons_of_mem _ hrest
    | propagating roots =>
      have hroot := hnone _ List.mem_cons_self roots rfl
      exact List.mem_filter.2 ⟨hrest, by simpa using hroot⟩
    | queued | applied | reducing | evaluating | listening => exact hrest

/-- If no write is open, then a pass has started from every cell after its last write. -/
theorem exists_pass_of_openWrites_eq_nil {later earlier : List Moment} {m : Moment}
    {cell : SignalId} {value : Value} (hwrote : m.activity = .wrote cell value)
    (h : openWrites (later ++ m :: earlier) = []) :
    ∃ pass ∈ later, ∃ roots, pass.activity = .propagating roots ∧ cell ∈ roots := by
  have hopen : cell ∈ openWrites (m :: earlier) := by
    obtain ⟨activity, scene⟩ := m
    obtain rfl : activity = .wrote cell value := hwrote
    exact List.mem_cons_self
  by_contra hnone
  push Not at hnone
  have hstays := mem_openWrites_of_unpassed hnone hopen
  rw [h] at hstays
  exact absurd hstays List.not_mem_nil

/-- A cell that has just been written has the value, and a write that is put into the queue does not
wait there yet. -/
def Moment.IsOrderly (m : Moment) : Prop :=
  match m.activity with
  | .wrote cell value => m.scene.value.graph.value cell = .ok value
  | .queued change => change.waitsIn m.scene.value.queue = false
  | _ => True

/-- Every occurrence that waits is one of a source that exists. -/
def World.KnowsQueued (w : World) : Prop :=
  ∀ source payload, .fired source payload ∈ w.queue → source.index < w.hub.sources.size

/-! ## Spans -/

/-- What lies between two states while changes are being settled. Passes are still to start from the
roots, and some changes have been taken out of the queue and applied. -/
structure Span (roots : List SignalId) (taken : List Change) (w w' : World) (since : List Moment) :
    Prop where
  past_eq : w'.past = since ++ w.past
  settling_eq : w'.settling = true
  /-- The queue is first in, first out. -/
  fifo : w.queue ++ queuedIn since = taken ++ w'.queue
  applied_eq : appliedIn since = taken
  /-- A pass from every written cell has started, is to start or waits. -/
  covered : ∀ cell ∈ openWrites since, cell ∈ roots ∨ .written cell ∈ w'.queue
  orderly : ∀ m ∈ since, m.IsOrderly
  known : w.KnowsQueued → w'.KnowsQueued

/-- One state comes after another within the settling of changes. -/
def Spans (roots : List SignalId) (taken : List Change) (w w' : World) : Prop :=
  ∃ since, Span roots taken w w' since

namespace Span

variable {roots roots' : List SignalId} {taken : List Change} {w w' w'' : World}
  {since : List Moment}

theorem refl (hsettling : w.settling = true) : Span [] [] w w [] := by
  refine ⟨rfl, hsettling, ?_, rfl, ?_, ?_, id⟩
  · simp
  · intro cell hcell
    exact absurd hcell List.not_mem_nil
  · intro m hm
    exact absurd hm List.not_mem_nil

/-- One more moment, at which no change is applied. -/
theorem note (h : Span roots taken w w' since) {m : Moment} (hpast : w''.past = m :: w'.past)
    (hsettling : w''.settling = true) (hunapplied : m.activity.applied? = none)
    (hqueue : w''.queue = w'.queue ++ queuedIn [m])
    (hcovered : ∀ cell ∈ openWrites (m :: since), cell ∈ roots' ∨ .written cell ∈ w''.queue)
    (horderly : m.IsOrderly) (hknown : w'.KnowsQueued → w''.KnowsQueued) :
    Span roots' taken w w'' (m :: since) where
  past_eq := by
    rw [hpast, h.past_eq]
    rfl
  settling_eq := hsettling
  fifo := by
    have hqueued : queuedIn (m :: since) = queuedIn since ++ queuedIn [m] := queuedIn_append [m] since
    rw [hqueued, ← List.append_assoc, h.fifo, hqueue, List.append_assoc]
  applied_eq := by
    have happlied : appliedIn (m :: since) = appliedIn since ++ appliedIn [m] :=
      appliedIn_append [m] since
    have hnone : appliedIn [m] = [] := by simp [appliedIn, hunapplied]
    rw [happlied, hnone, List.append_nil, h.applied_eq]
  covered := hcovered
  orderly k hk := by
    rcases List.mem_cons.1 hk with rfl | hk
    · exact horderly
    · exact h.orderly k hk
  known hknows := hknown (h.known hknows)

/-- When nothing waits and no pass is to start, a pass has started from every cell since it was last
written. -/
theorem openWrites_eq_nil (h : Span [] taken w w' since) (hempty : w'.queue = []) :
    openWrites since = [] := by
  rw [List.eq_nil_iff_forall_not_mem]
  intro cell hcell
  rcases h.covered cell hcell with hroot | hwaits
  · exact List.not_mem_nil hroot
  · rw [hempty] at hwaits
    exact List.not_mem_nil hwaits

end Span

namespace Spans

variable {roots roots' : List SignalId} {taken : List Change} {w w₁ w' : World}

theorem refl (hsettling : w.settling = true) : Spans [] [] w w := ⟨[], .refl hsettling⟩

theorem settling (h : Spans roots taken w w') : w'.settling = true := by
  obtain ⟨since, hspan⟩ := h
  exact hspan.settling_eq

theorem mono (h : Spans roots taken w w') (hsub : ∀ cell ∈ roots, cell ∈ roots') :
    Spans roots' taken w w' := by
  obtain ⟨since, hspan⟩ := h
  refine ⟨since, { hspan with covered := fun cell hcell => ?_ }⟩
  exact (hspan.covered cell hcell).imp_left (hsub cell)

/-- As long as no change is taken out of the queue, all that waits goes on waiting. -/
theorem trans (h : Spans roots taken w w₁) (h' : Spans [] [] w₁ w') : Spans roots taken w w' := by
  obtain ⟨since, hspan⟩ := h
  obtain ⟨since', hspan'⟩ := h'
  have hqueue : w₁.queue ++ queuedIn since' = w'.queue := hspan'.fifo
  refine ⟨since' ++ since, ?_, hspan'.settling_eq, ?_, ?_, fun cell hcell => ?_, fun m hm => ?_,
    fun hknown => hspan'.known (hspan.known hknown)⟩
  · rw [hspan'.past_eq, hspan.past_eq, List.append_assoc]
  · rw [queuedIn_append, ← List.append_assoc, hspan.fifo, List.append_assoc, hqueue]
  · rw [appliedIn_append, hspan.applied_eq, hspan'.applied_eq, List.append_nil]
  · rcases mem_openWrites_append hcell with hlater | hearlier
    · exact .inr ((hspan'.covered cell hlater).resolve_left List.not_mem_nil)
    · refine (hspan.covered cell hearlier).imp_right fun hwaits => ?_
      rw [← hqueue]
      exact List.mem_append_left _ hwaits
  · rcases List.mem_append.1 hm with hm | hm
    · exact hspan'.orderly m hm
    · exact hspan.orderly m hm

/-- Changes of the graph, the hub and the host go unnoticed, as long as sources stay. -/
theorem of_same (hsettling : w.settling = true) (hpast : w'.past = w.past)
    (hsettling' : w'.settling = w.settling) (hqueue : w'.queue = w.queue)
    (hsources : w.hub.sources.size ≤ w'.hub.sources.size) : Spans [] [] w w' := by
  refine ⟨[], hpast, hsettling'.trans hsettling, ?_, rfl, ?_, ?_, fun hknown source payload hfired => ?_⟩
  · rw [hqueue]
    simp
  · exact fun cell hcell => absurd hcell List.not_mem_nil
  · exact fun m hm => absurd hm List.not_mem_nil
  · rw [hqueue] at hfired
    exact (hknown source payload hfired).trans_le hsources

theorem start (hsettling : w.settling = true) {activity : Activity} (hstart : activity.IsStart) :
    Spans [] [] w (w.begin activity) := by
  have hqueue : w.queue = w.queue ++ [] := (List.append_nil w.queue).symm
  refine ⟨[⟨activity, .of w.toScene⟩], ?_⟩
  cases activity with
  | reducing | propagating | evaluating | listening =>
    exact (Span.refl hsettling).note rfl hsettling rfl hqueue
      (fun cell hcell => absurd hcell List.not_mem_nil) trivial id
  | queued | applied | wrote => exact hstart.elim

/-- A pass that starts from the roots reads what was written to them. -/
theorem pass (h : Spans roots taken w w') : Spans [] taken w (w'.begin (.propagating roots)) := by
  obtain ⟨since, hspan⟩ := h
  have hqueue : w'.queue = w'.queue ++ [] := (List.append_nil w'.queue).symm
  refine ⟨_, hspan.note rfl hspan.settling_eq rfl hqueue (fun cell hcell => ?_) trivial id⟩
  obtain ⟨hopen, hroot⟩ := List.mem_filter.1 hcell
  refine .inr ((hspan.covered cell hopen).resolve_left fun hmem => ?_)
  simp [hmem] at hroot

/-- A cell that is written is a root of a pass to come. -/
theorem write (h : Spans roots taken w w') {cell : SignalId} {value : Value} {graph : Graph}
    (hstore : w'.graph.settle cell value = .ok graph) :
    Spans (cell :: roots) taken w (World.begin { w' with graph } (.wrote cell value)) := by
  obtain ⟨since, hspan⟩ := h
  have hqueue : w'.queue = w'.queue ++ [] := (List.append_nil w'.queue).symm
  refine ⟨_, hspan.note rfl hspan.settling_eq rfl hqueue (fun k hk => ?_) ?_ id⟩
  · rcases List.mem_cons.1 hk with rfl | hk
    · exact .inl List.mem_cons_self
    · exact (hspan.covered k hk).imp_left fun hroot => List.mem_cons_of_mem _ hroot
  · have hread := Graph.value_of_settle hstore
    simpa [Moment.IsOrderly] using hread

/-- A write of a cell that waits already needs no other pass. -/
theorem of_waits {change : Change} (h : Spans (change.roots ++ roots) taken w w')
    (hwaits : change.waitsIn w'.queue = true) : Spans roots taken w w' := by
  obtain ⟨since, hspan⟩ := h
  refine ⟨since, { hspan with covered := fun cell hcell => ?_ }⟩
  rcases hspan.covered cell hcell with hroot | hqueued
  · rcases List.mem_append.1 hroot with hroot | hroot
    · exact .inr (Change.written_mem_of_waitsIn hwaits hroot)
    · exact .inl hroot
  · exact .inr hqueued

end Spans

def World.enqueue (w : World) (change : Change) : World :=
  { (w.report .changeQueued).begin (.queued change) with queue := w.queue ++ [change] }

namespace Spans

variable {roots : List SignalId} {taken : List Change} {w w₁ w' : World}

/-- A change that joins the queue is going to be applied. -/
theorem enqueue {change : Change} (h : Spans (change.roots ++ roots) taken w w')
    (hnew : change.waitsIn w'.queue = false)
    (hknown : ∀ source payload, change = .fired source payload →
      source.index < w'.hub.sources.size) : Spans roots taken w (w'.enqueue change) := by
  obtain ⟨since, hspan⟩ := h
  have hqueue : (w'.enqueue change).queue = w'.queue ++ [change] := rfl
  refine ⟨_, hspan.note rfl hspan.settling_eq rfl hqueue (fun cell hcell => ?_) ?_
    fun hall source payload hfired => ?_⟩
  · rw [hqueue]
    rcases hspan.covered cell hcell with hroot | hwaits
    · rcases List.mem_append.1 hroot with hroot | hroot
      · cases change with
        | fired source payload => exact absurd hroot List.not_mem_nil
        | written id =>
          obtain rfl := List.mem_singleton.1 hroot
          exact .inr (List.mem_append_right _ List.mem_cons_self)
      · exact .inl hroot
    · exact .inr (List.mem_append_left _ hwaits)
  · simp only [Moment.IsOrderly, Ghost.value_of]
    exact hnew
  · rw [hqueue] at hfired
    rcases List.mem_append.1 hfired with hfired | hfired
    · exact hall source payload hfired
    · exact hknown source payload (List.mem_singleton.1 hfired).symm

end Spans

/-! ## Scripts -/

/-- One state comes after another, and if changes are being settled, then within that. -/
def World.Within (w w' : World) : Prop :=
  Follows w w' ∧ (w.settling = true → Spans [] [] w w')

/-- If changes are being settled, they still are. -/
def World.GoesOn (w w' : World) : Prop := w.settling = true → w'.settling = true

theorem Spans.within {roots : List SignalId} {taken : List Change} {w₀ w w' : World}
    (h : Spans roots taken w₀ w) (hwithin : Within w w') : Spans roots taken w₀ w' :=
  h.trans (hwithin.2 h.settling)

/-- An act neither puts a change into the queue nor takes one out. -/
theorem World.Act.spans {w w' : World} (h : Act w w') (hsettling : w.settling = true) :
    Spans [] [] w w' := by
  cases h with
  | host | store | cell | insert | drop | bind =>
    exact .of_same hsettling rfl rfl rfl le_rfl
  | evaluating id inputs => exact .start hsettling trivial
  | remove hremove =>
    obtain ⟨graph, -, rfl⟩ := removeSignal_eq_ok.1 hremove
    exact .of_same hsettling rfl rfl rfl (by simp [Hub.detach])
  | source name => exact .of_same hsettling rfl rfl rfl (by simp [Hub.create])
  | merge hmerge => exact .of_same hsettling rfl rfl rfl (Hub.size_le_merge hmerge)
  | listen hsubscribe =>
    exact .of_same hsettling rfl rfl rfl (Hub.size_subscribe hsubscribe).ge
  | attach _ hsubscribe =>
    exact .of_same hsettling rfl rfl rfl (Hub.size_subscribe hsubscribe).ge

theorem composes_within : Composes Within GoesOn where
  refl w := ⟨.refl w, fun hsettling => .refl hsettling⟩
  trans h h' := ⟨h.1.trans h'.1, fun hsettling => (h.2 hsettling).within h'⟩
  cut _ := id
  trans_cut h h' hsettling := h' (h.2 hsettling).settling

theorem admits_within : Admits Within GoesOn :=
  composes_within.admits (fun hact => ⟨Steps.follows hact.steps, hact.spans⟩) fun h => h.1

/-- Requesting a change while changes are being settled puts it into the queue. -/
theorem request_leaves {hooks : Hooks} {change : Change} {w : World}
    {Q : Except Failure Unit → World → Prop} {E : World → Prop} (hsettling : w.settling = true)
    (hwaits : change.waitsIn w.queue = true → Q (.ok ()) w)
    (hnew : change.waitsIn w.queue = false → Q (.ok ()) (w.enqueue change)) :
    (request hooks change).Leaves Q E w := by
  refine leaves_bind.2 (leaves_get.2 ?_)
  rw [if_pos hsettling]
  by_cases h : change.waitsIn w.queue = true
  · rw [if_pos h]
    exact leaves_pure.2 (hwaits h)
  · rw [if_neg h]
    refine leaves_bind.2 (leaves_modify.2 (leaves_bind.2 (leaves_modify.2 ?_)))
    exact leaves_bind.2 (leaves_modify.2 (leaves_pure.2 (hnew (by simpa using h))))

theorem steps_enqueue (w : World) (change : Change) : Steps w (w.enqueue change) :=
  .tail (.head (step_report w _) (steps_begin _ _)) (.enqueue _ _)

/-- A change that is requested while others are being settled is going to be applied. -/
theorem request_spans {hooks : Hooks} {change : Change} {roots : List SignalId}
    {taken : List Change} {w₀ w : World} {E : World → Prop}
    (h : Spans (change.roots ++ roots) taken w₀ w)
    (hknown : ∀ source payload, change = .fired source payload →
      source.index < w.hub.sources.size) :
    (request hooks change).Leaves (fun _ w' => Spans roots taken w₀ w') E w :=
  request_leaves h.settling (fun hwaits => h.of_waits hwaits) fun hnew => h.enqueue hnew hknown

namespace Session

variable (session : Session)

/-- A request takes steps. While changes are being settled it does no more than to put its change into
the queue. -/
theorem request_while_settling {level : Nat} {change : Change} {w w₁ : World} {P : World → Prop}
    (hsteps : Steps w w₁) (hsettling : w₁.settling = w.settling) (hwaits : w.settling = true → P w₁)
    (hnew : w.settling = true → P (w₁.enqueue change)) :
    (request (session.hooksAt level) change).Leaves
      (fun _ w' => Steps w w' ∧ (w.settling = true → P w')) (fun _ => True) w₁ := by
  by_cases h : w.settling = true
  · exact request_leaves (hsettling.trans h) (fun _ => ⟨hsteps, hwaits⟩) fun _ =>
      ⟨hsteps.trans (steps_enqueue w₁ change), hnew⟩
  · refine (stepwise_request (session.hooksAt_stepwise level) change w₁).imp ?_ fun _ _ => trivial
    exact fun _ w' hrequested => ⟨hsteps.trans hrequested, fun hset => absurd hset h⟩

/-- A request leads along: it follows by its steps, and what it spans matters only while changes are
being settled. -/
private theorem request_within {level : Nat} {change : Change} {w w₁ : World}
    (hfollows : Follows w w₁)
    (hspans : w.settling = true → (request (session.hooksAt level) change).Leaves
      (fun _ w' => Spans [] [] w w') (fun _ => False) w₁) :
    (request (session.hooksAt level) change).Leaves (fun _ w' => Within w w') (GoesOn w) w₁ := by
  have hsteps := stepwise_request (session.hooksAt_stepwise level) change w₁
  refine leaves_of_eq (fun result w' heq => ⟨?_, fun hsettling => ?_⟩) fun w' heq hsettling => ?_
  · exact hfollows.trans (Steps.follows (hsteps.of_eq_some heq))
  · exact (hspans hsettling).of_eq_some heq
  · exact ((hspans hsettling).of_eq_none heq).elim

/-- Whatever a script does at any level while changes are being settled lies within that. -/
theorem tracks_within (level : Nat) : Tracks (session.hooksAt level) Within GoesOn := by
  refine ⟨tracks_hooksAt session admits_within.toCalls session.makes_all ?_ ?_ level,
    admits_within.every⟩
  · intro level w cell value graph _ hstore
    have hwritten : Steps w (World.begin { w with graph } (.wrote cell value)) :=
      .head (.store hstore) (steps_begin _ _)
    refine request_within session (Steps.follows hwritten) fun hsettling => ?_
    exact request_spans (Spans.write (.refl hsettling) hstore) fun _ _ h => by cases h
  · intro level w source payload found hfound
    refine request_within session (.refl w) fun hsettling => ?_
    refine request_spans (.refl hsettling) fun source' payload' h => ?_
    obtain ⟨rfl, rfl⟩ := Change.fired.inj h
    exact Hub.index_lt_of_get hfound

theorem carries_within (level : Nat) :
    session.Carries (session.hooksAt level) Within GoesOn := by
  refine (session.tracks_within level).carries (fun {w activity} hstart => ?_) session
  exact ⟨Steps.follows (steps_begin w activity), fun hsettling => .start hsettling hstart⟩

end Session

/-! ## Changes -/

variable {roots : List SignalId} {taken : List Change} {w₀ w : World}

/-- The change at the front of the queue is applied: it leaves the queue, and a pass from the cell
that it wrote is to start. -/
theorem Spans.applied {change : Change}
    (h : Spans [] taken w₀ { w with queue := change :: w.queue }) :
    Spans change.roots (taken ++ [change]) w₀ (w.begin (.applied change)) := by
  obtain ⟨since, hspan⟩ := h
  have hpast : w.past = since ++ w₀.past := hspan.past_eq
  have hfifo : w₀.queue ++ queuedIn since = taken ++ change :: w.queue := hspan.fifo
  refine ⟨⟨.applied change, .of w.toScene⟩ :: since, ?_, hspan.settling_eq, ?_, ?_,
    fun cell hcell => ?_, fun m hm => ?_, fun hknown source payload hfired => ?_⟩
  · rw [List.cons_append, ← hpast]
    rfl
  · rw [List.append_assoc, List.singleton_append]
    exact hfifo
  · have happlied : appliedIn (⟨.applied change, .of w.toScene⟩ :: since) =
        appliedIn since ++ [change] := appliedIn_append [_] since
    rw [happlied, hspan.applied_eq]
  · rcases List.mem_cons.1 ((hspan.covered cell hcell).resolve_left List.not_mem_nil) with rfl | hmem
    · exact .inl List.mem_cons_self
    · exact .inr hmem
  · rcases List.mem_cons.1 hm with rfl | hm
    · trivial
    · exact hspan.orderly m hm
  · exact hspan.known hknown source payload (List.mem_cons_of_mem _ hfired)

theorem Exec.Tracked.spans {α : Type} {x : Exec α} (hx : x.Tracked Within GoesOn)
    (h : Spans roots taken w₀ w) :
    x.Leaves (fun _ w' => Spans roots taken w₀ w') (fun w' => w'.settling = true) w :=
  (hx w).imp (fun _ _ hwithin => h.within hwithin) fun _ hgoes => hgoes h.settling

namespace Session

variable {session : Session} {level : Nat}

/-- What a reducer gave is written, and then the cell is a root of the pass to come. -/
theorem storeReduced_spans (h : Spans roots taken w₀ w) (target : SignalId)
    (next : Except Failure Value) :
    (storeReduced target next).Leaves
      (fun result w' => match result with
        | .ok () => Spans (target :: roots) taken w₀ w'
        | .error _ => Spans roots taken w₀ w') (fun w' => w'.settling = true) w := by
  cases next with
  | error failure => exact leaves_pure.2 h
  | ok value => exact write_leaves (fun _ hstore => h.write hstore) fun _ _ => h

theorem finish_spans {payload : Value} {subscribers : List Subscriber}
    (hrest : ∀ {roots w}, Spans roots taken w₀ w →
      (reduceAll session (session.hooksAt level) payload roots subscribers).Leaves
        (fun result w' => Spans result.1 taken w₀ w') (fun w' => w'.settling = true) w)
    (h : Spans roots taken w₀ w) (target : SignalId) (next : Except Failure Value) :
    (reduceAll.finish session (session.hooksAt level) payload roots target next subscribers).Leaves
      (fun result w' => Spans result.1 taken w₀ w') (fun w' => w'.settling = true) w := by
  unfold reduceAll.finish
  refine leaves_bind.2 ((storeReduced_spans h target next).mono fun result w₁ hstored => ?_)
  cases result with
  | ok _ =>
    refine hrest (hstored.mono fun cell hcell => ?_)
    split
    · rename_i hmem
      rcases List.mem_cons.1 hcell with rfl | hcell
      · exact hmem
      · exact hcell
    · rcases List.mem_cons.1 hcell with rfl | hcell
      · exact List.mem_append_right _ List.mem_cons_self
      · exact List.mem_append_left _ hcell
  | error failure =>
    have hreported := (admits_within.report (.reducerFailed target failure)).spans hstored
    refine leaves_bind.2 (hreported.mono fun _ w₂ h₂ => ?_)
    exact leaves_bind.2 ((hrest h₂).mono fun result w₃ h₃ => leaves_pure.2 h₃)

/-- The cells that the reducers write are roots of the pass to come. -/
theorem reduceAll_spans (payload : Value) (subscribers : List Subscriber) :
    ∀ {roots : List SignalId} {w : World}, Spans roots taken w₀ w →
      (reduceAll session (session.hooksAt level) payload roots subscribers).Leaves
        (fun result w' => Spans result.1 taken w₀ w') (fun w' => w'.settling = true) w := by
  have hcarries := session.carries_within level
  induction subscribers with
  | nil =>
    intro roots w h
    rw [reduceAll]
    exact leaves_pure.2 h
  | cons subscriber rest ih =>
    intro roots w h
    rw [reduceAll.eq_def]
    cases subscriber with
    | fold target reducer =>
      have hreduced := (hcarries.reduce payload target
        fun current => reducer current payload).spans h
      exact leaves_bind.2 (hreduced.mono fun next w₁ h₁ => finish_spans ih h₁ target next)
    | foldProgram target reducer =>
      have hreduced := (hcarries.reduceProgram payload target
        fun current => reducer current payload).spans h
      exact leaves_bind.2 (hreduced.mono fun next w₁ h₁ => finish_spans ih h₁ target next)
    | listener listener => exact ih h
    | forward source => exact ih h

theorem propagate_spans (h : Spans roots taken w₀ w) :
    (propagate session (session.hooksAt level) roots).Leaves
      (fun _ w' => Spans [] taken w₀ w') (fun w' => w'.settling = true) w := by
  refine propagate_leaves (fun hempty => ?_) fun _ => ?_
  · rwa [hempty] at h
  · have hreported : Spans roots taken w₀ (w.report (passEvent w.graph roots)) :=
      leaves_modify.1 ((admits_within.report _).spans h)
    exact (evaluateAll_tracked session (session.tracks_within level) _).spans hreported.pass

theorem deliver_spans (h : Spans [] taken w₀ w) (source : SourceId) (payload : Value) :
    (deliver session (session.hooksAt level) source payload).Leaves
      (fun _ w' => Spans [] taken w₀ w') (fun w' => w'.settling = true) w := by
  refine leaves_bind.2 (leaves_get.2 ?_)
  split
  · exact leaves_pure.2 h
  · rename_i subscribers hub hdeliver
    have hcounted : Spans [] taken w₀ { w with hub } :=
      h.trans (.of_same h.settling rfl rfl rfl (Hub.size_deliver hdeliver).ge)
    refine leaves_bind.2 (leaves_set.2 (leaves_bind.2 ?_))
    refine ((admits_within.report _).spans hcounted).mono fun _ w₁ h₁ => leaves_bind.2 ?_
    refine (reduceAll_spans payload subscribers h₁).mono fun reduced w₂ h₂ => leaves_bind.2 ?_
    refine (propagate_spans h₂).mono fun _ w₃ h₃ => leaves_bind.2 ?_
    have hnotify := (session.carries_within level).notifyAll payload subscribers
    exact (hnotify.spans h₃).mono fun _ w₄ h₄ => leaves_pure.2 h₄

/-- Applying the change at the front of the queue takes it out, and leaves no pass to start. -/
theorem apply_spans {change : Change}
    (h : Spans [] taken w₀ { w with queue := change :: w.queue }) :
    (apply session (session.hooksAt level) change).Leaves
      (fun _ w' => Spans [] (taken ++ [change]) w₀ w') (fun w' => w'.settling = true) w := by
  have happlied := h.applied
  refine leaves_bind.2 (leaves_modify.2 ?_)
  cases change with
  | written cell => exact propagate_spans happlied
  | fired source payload => exact deliver_spans happlied source payload

end Session

end EffectGraph
