import Mathlib
import EffectGraph.Proofs.Session.Batches
import EffectGraph.Proofs.Session.Deliveries

/-!
# Folds

A cell that is folded over a source always holds the left fold of its reducer over the payloads that
were fired on sources from which its source is reached (`Reachable.fold_holds_foldl`).
-/

namespace EffectGraph

open Exec World

/-! ## Attaching a fold -/

/-- Attaching a subscriber adds a cell and subscribes to the source. -/
theorem Exec.attach_eq_ok {source : SourceId} {initial : Value} {subscriber : SignalId → Subscriber}
    {event : SignalId → Event} {target : SignalId} {w₀ w₁ : World}
    (h : attach source initial subscriber event w₀ = (some (.ok target), w₁)) :
    ∃ found hub, w₀.hub.get source = .ok found ∧ target = (w₀.createCell initial).1 ∧
      w₀.hub.subscribe source (subscriber target) = .ok hub ∧
        w₁ = World.report { (w₀.createCell initial).2 with hub } (event target) := by
  have hleaves : (attach source initial subscriber event).Leaves (fun result w' => ∀ id,
      result = .ok id → ∃ found hub, w₀.hub.get source = .ok found ∧
        id = (w₀.createCell initial).1 ∧ w₀.hub.subscribe source (subscriber id) = .ok hub ∧
          w' = World.report { (w₀.createCell initial).2 with hub } (event id)) (fun _ => True) w₀ := by
    refine leaves_bind.2 (leaves_get.2 ?_)
    cases hfound : w₀.hub.get source with
    | error failure => exact leaves_pure.2 fun id heq => by cases heq
    | ok found =>
      refine leaves_bind.2 (leaves_modifyGet.2 (leaves_bind.2 (subscribe_leaves ?_ ?_)))
      · intro hub hsubscribe
        refine leaves_bind.2 (leaves_modify.2 (leaves_pure.2 fun id heq => ?_))
        obtain rfl := Except.ok.inj heq
        exact ⟨found, hub, rfl, rfl, hsubscribe, rfl⟩
      · exact fun failure _ => leaves_pure.2 fun id heq => by cases heq
  exact hleaves.of_eq_some h target rfl

namespace Session

variable {session : Session} {c : FoldCell} {w₀ w₁ w : World} {initial : Value}

/-- A fold that was just attached is attached to its source, and its cell has the first value. -/
theorem Reachable.attached (h : session.Reachable w₀)
    (hattach : attach c.source initial (.fold · c.reducer) (.foldAttached c.source) w₀ =
      (some (.ok c.target), w₁)) (hhub : c.hub = w₁.hub) :
    c.Attached w₁ ∧ w₁.graph.value c.target = .ok initial := by
  obtain ⟨found, hub, hfound, htarget, hsubscribe, rfl⟩ := attach_eq_ok hattach
  have hadded : (w₀.createCell initial).2.graph.node? c.target = some (Graph.cellNode initial) := by
    rw [htarget]
    exact (Graph.grows_insertCell w₀.graph initial).node?_self
  have hcell : (w₀.createCell initial).2.graph.IsCell c.target := ⟨_, hadded, rfl⟩
  have hnew (s : Subscriber) (k : Nat) (hs : s ∈ w₀.hub.roads.items k) :
      ¬ s.writes c.target = true := by
    intro hwrites
    have hold : s.target? = some c.target := by simpa [Subscriber.writes] using hwrites
    obtain ⟨node, hnode, -⟩ := h.wellFormed.now.targets (Hub.subscribed_of_mem_items hs) hold
    have hlt := Graph.index_lt hnode
    rw [htarget] at hlt
    exact lt_irrefl _ hlt
  refine ⟨⟨hcell.onlyEver, ⟨?_, fun a => ?_, fun k => ?_⟩, ?_⟩, Graph.value_of_node? hadded⟩
  · have hknown := Hub.index_lt_of_get hfound
    rw [← Hub.size_subscribe hsubscribe] at hknown
    exact hknown
  · rw [hhub]
  · have hnone : (w₀.hub.roads.items k).filter (·.writes c.target) = [] :=
      List.filter_eq_nil_iff.2 fun s hs => hnew s k hs
    have hitems := Hub.items_subscribe hsubscribe k
    have hwrites : (Subscriber.fold c.target c.reducer).writes c.target = true := by
      simp [Subscriber.writes, Subscriber.target?]
    refine (congrArg _ hitems).trans ?_
    rw [List.filter_append, hnone, List.nil_append]
    split
    · rw [List.filter_cons_of_pos hwrites, List.filter_nil]
    · rfl
  · have hqueue : w₀.queue = [] := h.calm.2
    intro hmem
    have hnil : .written c.target ∈ w₀.queue := hmem
    rw [hqueue] at hnil
    exact absurd hnil List.not_mem_nil

/-! ## Later states -/

/-- Scripts of the host lead from one state to the other. -/
def Later (session : Session) : World → World → Prop :=
  Relation.ReflTransGen fun w w' =>
    ∃ level script result, session.execute level script w = some (result, w')

theorem Later.leads {w w' : World} (h : session.Later w w') (hfunction : c.IsFunction session) :
    c.Leads w w' := by
  induction h with
  | refl => exact c.admits_leads.refl w
  | tail _ hrun ih =>
    obtain ⟨level, script, result, hexec⟩ := hrun
    have hscript := Script.exec_tracked session (tracks_leads hfunction level) script
    exact c.admits_leads.trans ih ((hscript _).of_eq_some (session.advance_eq_of_execute_eq hexec))

/-- The host fires one source after another. What is requested altogether are these occurrences, each
followed by what reactions requested while it was settled. -/
inductive Fires (session : Session) : World → List Change → World → Prop where
  | nil (w : World) : Fires session w [] w
  | cons {w w₁ w' : World} {level : Nat} {source : SourceId} {payload : Value}
    {result : Except Failure Unit} {since : List Moment} {requested : List Change}
    (hfire : Exec.fire (session.hooksAt level) source payload w = (some result, w₁))
    (hpast : w₁.past = since ++ w.past) (others : Fires session w₁ requested w') :
    Fires session w (.fired source payload :: (queuedIn since ++ requested)) w'

theorem Fires.later {w w' : World} {requested : List Change} (h : session.Fires w requested w') :
    session.Later w w' := by
  induction h with
  | nil => exact .refl
  | @cons w w₁ w' level source payload result since requested hfire _ _ ih =>
    have hrun : session.execute level (.fire source payload fun _ => .done (.ok .unit)) w =
        some (.ok .unit, w₁) := execute_eq_of_advance_eq (bind_eq_of_eq_some hfire)
    exact .head ⟨level, _, _, hrun⟩ ih

/-- Firing a source applies the occurrence and what is requested meanwhile, unless there is no such
source. -/
theorem fire_applies {w w' : World} {level : Nat} {source : SourceId} {payload : Value}
    {result : Except Failure Unit} {since : List Moment} (hcalm : w.Calm)
    (hfire : Exec.fire (session.hooksAt level) source payload w = (some result, w'))
    (hpast : w'.past = since ++ w.past) :
    (since = [] ∧ ¬ source.index < w.hub.sources.size) ∨
      appliedIn since = .fired source payload :: queuedIn since := by
  have hleaves : ((Call.fire source payload).exec (session.hooksAt level)).Leaves
      (fun _ w' => (w' = w ∧ ¬ source.index < w.hub.sources.size) ∨ ∃ since,
        w'.past = since ++ w.past ∧ appliedIn since = .fired source payload :: queuedIn since)
      (fun _ => True) w := by
    refine Call.exec_leaves _ (fun failure hrefused => .inl ⟨rfl, fun hlt => ?_⟩)
      fun w₁ haccepted => ?_
    · obtain ⟨found, hfound⟩ : ∃ found, w.hub.get source = .ok found :=
        ⟨_, Hub.get_eq_ok.2 (Array.getElem?_eq_getElem hlt)⟩
      rw [Call.accept_fire hfound] at hrefused
      cases hrefused
    · exact (request_settles hcalm haccepted).imp (fun _ _ h => .inr h.appliedIn_eq) fun _ _ => trivial
  rcases hleaves.of_eq_some hfire with ⟨rfl, hunknown⟩ | ⟨since', hpast', happlied⟩
  · exact .inl ⟨List.append_left_eq_self.1 hpast.symm, hunknown⟩
  · obtain rfl : since = since' := List.append_cancel_right (hpast.symm.trans hpast')
    exact .inr happlied

/-- The payloads that firing a source brings are those of what is requested: of the occurrence itself
and of the occurrences that reactions fire meanwhile. -/
theorem fire_payloads_eq {w w' : World} {level : Nat} {source : SourceId} {payload : Value}
    {result : Except Failure Unit} {since : List Moment} (hcalm : w.Calm) (hattached : c.Attached w)
    (hfire : Exec.fire (session.hooksAt level) source payload w = (some result, w'))
    (hpast : w'.past = since ++ w.past) :
    c.payloads since = payloadsTo c.hub c.source (.fired source payload :: queuedIn since) := by
  rcases fire_applies hcalm hfire hpast with ⟨rfl, hunknown⟩ | happlied
  · -- The source does not exist, so it reaches no other.
    have hunreached : ¬ c.hub.Reaches source c.source := by
      intro hreaches
      exact hunknown ((hattached.subscribed.reaches_iff source).2 hreaches).index_lt
    rw [queuedIn_nil, payloadsTo_fired, if_neg hunreached]
    rfl
  · rw [FoldCell.payloads, happlied]

/-- The payloads that reach the source are those among what was requested. -/
theorem Fires.payloads_eq (hfunction : c.IsFunction session) {w w' : World}
    {requested : List Change} (h : session.Fires w requested w') :
    w.Calm → c.Attached w → w'.graph.contains c.target → ∀ {since : List Moment},
      w'.past = since ++ w.past → c.Undisturbed since →
        c.payloads since = payloadsTo c.hub c.source requested := by
  induction h with
  | nil w =>
    intro _ _ _ since hpast _
    rw [List.append_left_eq_self.1 hpast.symm]
    rfl
  | @cons w w₁ w' level source payload result earlier requested hfire hpast others ih =>
    intro hcalm hattached hcontains since hsince hundisturbed
    -- What happens is what the first call brings and then what the others bring.
    obtain ⟨later, -, hlater⟩ := others.later.leads hfunction
    have hsplit : since = later ++ earlier := by
      refine List.append_cancel_right (hsince.symm.trans ?_)
      rw [hlater.past_eq, hpast, List.append_assoc]
    subst hsplit
    obtain ⟨hundisturbed', hundisturbed₁⟩ := hundisturbed.append
    obtain ⟨earlier', -, hearlier⟩ :=
      ((tracks_leads hfunction level).fireSource source payload w).of_eq_some hfire
    obtain rfl : earlier = earlier' :=
      List.append_cancel_right (hpast.symm.trans hearlier.past_eq)
    -- After the first call nothing waits and the fold is still attached.
    have hcontains₁ : w₁.graph.contains c.target :=
      (hattached.cell.follows hearlier.follows).contains_before hlater.follows hcontains
    have hattached₁ := (hearlier.keeps hundisturbed₁ hcontains₁ hattached).1
    have hcalm₁ := (((session.tracks_calmly level).fireSource source payload w).of_eq_some hfire).2
      hcalm
    have hfirst := fire_payloads_eq hcalm hattached hfire hpast
    have hrest := ih hcalm₁ hattached₁ hcontains hlater.past_eq hundisturbed'
    rw [FoldCell.payloads_append, hfirst, hrest, ← List.cons_append, payloadsTo_append]

/-- **A fold holds the left fold of its reducer.** Let a fold whose reducer is a function of its two
arguments be attached to a source, let the host execute any scripts afterwards, and let the cell of the
fold still exist and be written by nobody else. Then the cell holds the left fold of the reducer, from
the first value, over the payloads of the occurrences that were applied since on sources from which the
source of the fold is reached, each once and in order; payloads on which the reducer fails are skipped.
The source has had as many occurrences more, those on which the reducer failed included. Which sources
reach it has not changed. If the host did nothing but fire sources, then the payloads are those that
were fired, by the host or by reactions, in the order of the requests. -/
theorem Reachable.fold_holds_foldl (h : session.Reachable w₀)
    (hattach : attach c.source initial (.fold · c.reducer) (.foldAttached c.source) w₀ =
      (some (.ok c.target), w₁)) (hhub : c.hub = w₁.hub) (hfunction : c.IsFunction session)
    (hlater : session.Later w₁ w) {since : List Moment} (hpast : w.past = since ++ w₁.past)
    (hcontains : w.graph.contains c.target) (hundisturbed : c.Undisturbed since) :
    w.graph.value c.target = .ok ((c.payloads since).foldl c.next initial) ∧
      (∀ before, (w₁.hub.get c.source).map (·.occurrences) = .ok before →
        (w.hub.get c.source).map (·.occurrences) = .ok (before + (c.payloads since).length)) ∧
      (∀ source, w.hub.Reaches source c.source ↔ c.hub.Reaches source c.source) ∧
      ∀ requested, session.Fires w₁ requested w →
        c.payloads since = payloadsTo c.hub c.source requested := by
  obtain ⟨hattached, hvalue⟩ := h.attached hattach hhub
  obtain ⟨since', -, hreceives⟩ := hlater.leads hfunction
  obtain rfl : since' = since := List.append_cancel_right (hreceives.past_eq.symm.trans hpast)
  obtain ⟨hattached', hfolded, hcounted⟩ := hreceives.keeps hundisturbed hcontains hattached
  refine ⟨hfolded initial hvalue, fun before hbefore => ?_, hattached'.subscribed.reaches_iff,
    fun requested hfires => ?_⟩
  · rw [Hub.get_occurrences hattached.subscribed.known] at hbefore
    rw [Hub.get_occurrences hattached'.subscribed.known, hcounted, Except.ok.inj hbefore]
  · have hcalm : w₁.Calm := by
      obtain ⟨found, hub, -, -, -, rfl⟩ := attach_eq_ok hattach
      exact h.calm
    exact hfires.payloads_eq hfunction hcalm hattached hcontains hpast hundisturbed

/-- Two sources are merged, the merged source is merged with the first one again, and another source
stands apart. -/
private def rejoining : Script :=
  .ask (.source "a") fun (a : SourceId) =>
  .ask (.source "b") fun (b : SourceId) =>
  .ask (.merge a b) fun (merged : Except Failure SourceId) =>
  match merged with
  | .error failure => .done (.error (.ofFailure failure))
  | .ok merged =>
    .ask (.merge merged a) fun _ => .ask (.source "c") fun _ => .done (.ok .unit)

/-- The value is turned over by a payload that is true. Other payloads than truth values fail. -/
private def turned : Value → Value → Except Interrupt Value
  | .bool current, .bool payload => .ok (.bool (current != payload))
  | _, _ => .error (.raised .unit)

private def turn (current payload : Value) : Script := .done (turned current payload)

private def turning (hub : Hub) : FoldCell where
  hub := hub
  source := ⟨3⟩
  target := ⟨0⟩
  reducer := turn
  step := turned

private theorem turning_isFunction (hub : Hub) : (turning hub).IsFunction {} where
  result_eq hrun := (Prod.mk.inj (Option.some.inj hrun)).1.symm
  plain {current payload value} hstep := by
    have hturned : turned current payload = .ok value := hstep
    unfold turned at hturned
    split at hturned
    · rw [← Except.ok.inj hturned]
      rfl
    · cases hturned

/-- Both sources are fired, on the second one the reducer fails, and so is the source that stands
apart. -/
private def turnedTwice : List Change :=
  [.fired ⟨0⟩ (.bool true), .fired ⟨1⟩ .unit, .fired ⟨4⟩ (.bool true)]

private theorem rejoining_run : ∃ w₀ w₁ w since, Reachable {} w₀ ∧
    attach ⟨3⟩ (.bool false) (.fold · turn) (.foldAttached ⟨3⟩) w₀ = (some (.ok ⟨0⟩), w₁) ∧
    Fires {} w₁ turnedTwice w ∧ w.past = since ++ w₁.past ∧ w.graph.contains ⟨0⟩ ∧
    queuedIn since = [] ∧ appliedIn since = turnedTwice ∧
    payloadsTo w₁.hub ⟨3⟩ turnedTwice = [.bool true, .unit] ∧
    (w₁.hub.get ⟨3⟩).map (·.occurrences) = .ok 0 := by
  rcases hrun : advance {} 0 rejoining {} with ⟨result, w₀⟩
  have hended := hrun
  cbv at hended
  obtain ⟨rfl, hw₀⟩ := Prod.mk.inj hended
  have hreach : Reachable {} w₀ := .run (.start .empty #[]) (execute_eq_of_advance_eq hrun)
  rcases hattach : attach ⟨3⟩ (.bool false) (.fold · turn) (.foldAttached ⟨3⟩) w₀ with ⟨result, w₁⟩
  have hended := hattach
  rw [← hw₀] at hended
  cbv at hended
  obtain ⟨rfl, hw₁⟩ := Prod.mk.inj hended
  rcases hfirst : Exec.fire (hooksAt {} 2) ⟨0⟩ (.bool true) w₁ with ⟨result, w₂⟩
  have hended := hfirst
  rw [← hw₁] at hended
  cbv at hended
  obtain ⟨rfl, hw₂⟩ := Prod.mk.inj hended
  rcases hsecond : Exec.fire (hooksAt {} 2) ⟨1⟩ .unit w₂ with ⟨result, w₃⟩
  have hended := hsecond
  rw [← hw₂] at hended
  cbv at hended
  obtain ⟨rfl, hw₃⟩ := Prod.mk.inj hended
  rcases hthird : Exec.fire (hooksAt {} 2) ⟨4⟩ (.bool true) w₃ with ⟨result, w⟩
  have hended := hthird
  rw [← hw₃] at hended
  cbv at hended
  obtain ⟨rfl, hw⟩ := Prod.mk.inj hended
  obtain ⟨hpast₂, hqueued₂⟩ : w₂.past = w₂.past.take 4 ++ w₁.past ∧
      queuedIn (w₂.past.take 4) = [] := by
    rw [← hw₂, ← hw₁]
    exact ⟨rfl, rfl⟩
  obtain ⟨hpast₃, hqueued₃⟩ : w₃.past = w₃.past.take 2 ++ w₂.past ∧
      queuedIn (w₃.past.take 2) = [] := by
    rw [← hw₃, ← hw₂]
    exact ⟨rfl, rfl⟩
  obtain ⟨hpast, hqueued⟩ : w.past = w.past.take 1 ++ w₃.past ∧
      queuedIn (w.past.take 1) = [] := by
    rw [← hw, ← hw₃]
    exact ⟨rfl, rfl⟩
  have hfires := Fires.cons hfirst hpast₂ (.cons hsecond hpast₃ (.cons hthird hpast (.nil w)))
  rw [hqueued₂, hqueued₃, hqueued] at hfires
  refine ⟨w₀, w₁, w, w.past.take 7, hreach, hattach, hfires, ?_, ?_, ?_, ?_, ?_, ?_⟩
  · rw [← hw, ← hw₁]
    rfl
  · rw [← hw]
    rfl
  · rw [← hw]
    rfl
  · rw [← hw]
    rfl
  · rw [← hw₁]
    cbv
  · rw [← hw₁]
    rfl

theorem Reachable.fold_holds_foldl_rejoining : ∃ w₀ w₁ w, Reachable {} w₀ ∧
    attach ⟨3⟩ (.bool false) (.fold · turn) (.foldAttached ⟨3⟩) w₀ = (some (.ok ⟨0⟩), w₁) ∧
    (turning w₁.hub).IsFunction {} ∧ Fires {} w₁ turnedTwice w ∧
    w.graph.value ⟨0⟩ = .ok (.bool true) ∧ (w.hub.get ⟨3⟩).map (·.occurrences) = .ok 2 := by
  obtain ⟨w₀, w₁, w, since, hreach, hattach, hfires, hpast, hcontains, hqueued, happlied,
    hpayloads, hbefore⟩ := rejoining_run
  have hundisturbed : (turning w₁.hub).Undisturbed since := by
    refine ⟨?_, ?_⟩
    · rw [hqueued]
      exact List.not_mem_nil
    · rw [happlied]
      simp [turnedTwice]
  obtain ⟨hvalue, hcounted, -, hpayloads'⟩ := hreach.fold_holds_foldl (c := turning w₁.hub) hattach
    rfl (turning_isFunction _) hfires.later hpast hcontains hundisturbed
  have hfolded : (turning w₁.hub).payloads since = [.bool true, .unit] :=
    (hpayloads' _ hfires).trans hpayloads
  rw [hfolded] at hvalue hcounted
  exact ⟨w₀, w₁, w, hreach, hattach, turning_isFunction _, hfires, hvalue, hcounted 0 hbefore⟩

end Session

end EffectGraph
