import EffectGraph.Proofs.Session.Sound
import EffectGraph.Proofs.Session.Levels

/-!
# Scripts leave a session sound

A script may write cells, create and remove nodes and fail. Whatever it does, it leaves no write
open that nobody is going to settle (`Script.exec_steady`). This supposes that what it derives is
computed in a pure way; whether that is so can be seen from the past of the state that it leaves.
-/

namespace EffectGraph

open Exec World

namespace Session

variable (session : Session) {α β : Type}

/-- If the action ends and all that was derived until then is pure, then with the property. And
whether it ends or not, all its moments were good. -/
def Ensures (x : Exec α) (Q : α → World → Prop) (w : World) : Prop :=
  x.Leaves (fun a w' => session.PureSoFar w'.past → Q a w')
    (fun w' => session.PureSoFar w'.past → session.AllGood w'.past) w

/-- The action leaves a sound state as sound as it was. -/
structure Steady (x : Exec α) : Prop where
  stepwise : x.Stepwise
  sound : ∀ {roots w}, session.Sound roots [] w →
    session.Ensures x (fun _ w' => session.Sound roots [] w' ∧ w'.settling = w.settling) w

variable {session}

/-! ## Putting actions together -/

section

variable {x : Exec α} {f : α → Exec β} {Q : α → World → Prop} {R : β → World → Prop} {w : World}

theorem Ensures.mono {Q' : α → World → Prop} (h : session.Ensures x Q w)
    (hsub : ∀ a w', Q a w' → Q' a w') : session.Ensures x Q' w :=
  Leaves.mono h fun a w' hQ hpure => hsub a w' (hQ hpure)

/-- The steps that an action takes are known as well. -/
theorem Ensures.and_steps (h : session.Ensures x Q w) (hsteps : x.Stepwise) :
    session.Ensures x (fun a w' => Q a w' ∧ w.Steps w') w :=
  (Leaves.and h (hsteps w)).imp (fun _ _ hleft hpure => ⟨hleft.1 hpure, hleft.2⟩)
    fun _ hbroken => hbroken.1

/-- Nothing has to be known of actions that always end. -/
theorem ensures_of_leaves (h : x.Leaves Q (fun _ => False) w) : session.Ensures x Q w :=
  h.imp (fun _ _ hQ _ => hQ) fun _ hbroken => hbroken.elim

theorem ensures_pure {a : α} {Q : α → World → Prop} (h : Q a w) :
    session.Ensures (pure a) Q w :=
  leaves_pure.2 fun _ => h

/-- An action may follow on what is known if all that was derived so far is pure: it takes no moment
back, so what is pure in the end was so before. -/
theorem Ensures.after (hsteps : x.Stepwise) (h : session.PureSoFar w.past → session.Ensures x Q w) :
    session.Ensures x Q w := by
  have hpast : w.past <:+ (x w).2.past := (hsteps.steps w).follows.past_suffix
  refine leaves_of_eq (fun a w' heq hpure => ?_) fun w' heq hpure => ?_
  · rw [heq] at hpast
    exact (h (hpure.of_suffix hpast)).of_eq_some heq hpure
  · rw [heq] at hpast
    exact (h (hpure.of_suffix hpast)).of_eq_none heq hpure

theorem ensures_bind (hx : session.Ensures x Q w) (hsteps : ∀ a, (f a).Stepwise)
    (hf : ∀ a w₁, Q a w₁ → session.Ensures (f a) R w₁) : session.Ensures (x >>= f) R w :=
  leaves_bind.2 <| Leaves.mono hx fun a w₁ hQ =>
    Ensures.after (hsteps a) fun hpure => hf a w₁ (hQ hpure)

theorem ensures_get_bind {f : World → Exec β} (h : session.Ensures (f w) R w) :
    session.Ensures ((get : Exec World) >>= f) R w :=
  leaves_bind.2 (leaves_get.2 h)

end

theorem steady_pure (a : α) : session.Steady (pure a) :=
  ⟨stepwise_pure a, fun h => ensures_pure ⟨h, rfl⟩⟩

/-- Not to end is good enough. -/
theorem ensures_failure {roots todo : List SignalId} {w : World} {Q : α → World → Prop}
    (h : session.Sound roots todo w) : session.Ensures (failure : Exec α) Q w :=
  leaves_failure.2 fun _ => h.allGood

theorem steady_failure : session.Steady (failure : Exec α) :=
  ⟨stepwise_failure, fun h => ensures_failure h⟩

theorem Steady.bind {x : Exec α} {f : α → Exec β} (hx : session.Steady x)
    (hf : ∀ a, session.Steady (f a)) : session.Steady (x >>= f) := by
  refine ⟨hx.stepwise.bind fun a => (hf a).stepwise, fun h => ?_⟩
  refine ensures_bind (hx.sound h) (fun a => (hf a).stepwise) fun a w₁ ⟨h₁, hsettling⟩ => ?_
  rw [← hsettling]
  exact (hf a).sound h₁

/-- A steady action may follow on what is known if all that was derived so far is pure. -/
theorem Steady.follow {x : Exec α} (hx : session.Steady x) {roots : List SignalId} {w₀ w : World}
    (h : session.PureSoFar w.past → session.Sound roots [] w ∧ w.settling = w₀.settling) :
    session.Ensures x (fun _ w' => session.Sound roots [] w' ∧ w'.settling = w₀.settling) w := by
  refine Ensures.after hx.stepwise fun hpure => ?_
  obtain ⟨hsound, hsettling⟩ := h hpure
  rw [← hsettling]
  exact hx.sound hsound

/-- An action that goes on from the present state is steady if it is so from every sound one. -/
theorem steady_get_bind {f : World → Exec β} (hsteps : ((get : Exec World) >>= f).Stepwise)
    (hf : ∀ {roots w}, session.Sound roots [] w → session.Ensures (f w)
      (fun _ w' => session.Sound roots [] w' ∧ w'.settling = w.settling) w) :
    session.Steady ((get : Exec World) >>= f) :=
  ⟨hsteps, fun h => ensures_get_bind (hf h)⟩

/-! ## Requests -/

section

variable {roots todo : List SignalId} {w w' : World}

theorem Sound.journal (h : session.Sound roots todo w) (journal : Array Entry) :
    session.Sound roots todo { w with journal } :=
  h.of_same (.single (.host w w.document journal)) rfl rfl rfl rfl

theorem Sound.report (h : session.Sound roots todo w) (event : Event) :
    session.Sound roots todo (w.report event) := h.journal _

theorem Sound.createCell (h : session.Sound roots [] w) (value : Value) :
    session.Sound roots [] (w.createCell value).2 := by
  have hg := Graph.grows_insertCell w.graph value
  refine h.grow hg (.single (.cell w value)) rfl (fun hwatch => ?_) (fun _ _ hkind => ?_)
    (fun _ hk => hk) (.inr fun _ _ hkind => ?_)
  · cases hwatch
  · cases hkind
  · cases hkind

theorem Sound.removeSignal (h : session.Sound roots [] w) {id : SignalId}
    {removed : List SignalId} (hremove : w.removeSignal id = .ok (removed, w')) :
    session.Sound roots [] w' ∧ w'.settling = w.settling := by
  have hstep : Step w w' := .remove hremove
  obtain ⟨graph, hgraph, rfl⟩ := removeSignal_eq_ok.1 hremove
  obtain ⟨hid, rfl, rfl⟩ := Graph.remove_eq_ok.1 hgraph
  refine ⟨h.erase ?_ (.single hstep) fun k hk => absurd hk List.not_mem_nil, rfl⟩
  exact Graph.removable_subtree h.wellFormed.now.graph (Graph.contains_iff.2 hid)

theorem Sound.discard {ids : List SignalId} (h : session.Sound roots [] w) :
    session.Sound roots [] (w.discard ids).2 ∧ (w.discard ids).2.settling = w.settling := by
  induction ids generalizing w with
  | nil => exact ⟨h, rfl⟩
  | cons id rest ih =>
    unfold World.discard
    split
    · cases hremove : w.removeSignal id with
      | error failure => exact ⟨h, rfl⟩
      | ok result =>
        obtain ⟨removed, w₁⟩ := result
        obtain ⟨h₁, hsettling₁⟩ := h.removeSignal hremove
        obtain ⟨h₂, hsettling₂⟩ := ih (h₁.report (.transientsDiscarded id removed.length))
        exact ⟨h₂, hsettling₂.trans hsettling₁⟩
    · exact ih h

/-- Answering a request leaves a session as sound as it was. -/
theorem Sound.answer (h : session.Sound roots [] w) (request : Request) :
    session.Sound roots [] (World.answer session request w).2 ∧
      (World.answer session request w).2.settling = w.settling := by
  have hsteps := steps_answer session request w
  cases request with
  | cell initial => exact ⟨h.createCell initial, rfl⟩
  | discardSince mark => exact h.discard
  | tearDown id =>
    simp only [World.answer, World.tearDown]
    cases hremove : w.removeSignal id with
    | error failure => exact ⟨h, rfl⟩
    | ok result =>
      obtain ⟨h₁, hsettling⟩ := h.removeSignal hremove
      exact ⟨h₁.report _, hsettling⟩
  | merge left right =>
    simp only [World.answer, World.merge] at hsteps ⊢
    cases hmerge : w.hub.merge left right with
    | error failure => exact ⟨h, rfl⟩
    | ok result =>
      rw [hmerge] at hsteps
      exact ⟨h.of_same hsteps rfl rfl rfl rfl, rfl⟩
  | setProperty id name value =>
    simp only [World.answer, World.setProperty] at hsteps ⊢
    cases hproperty : w.document.setProperty id name value with
    | error failure => exact ⟨h, rfl⟩
    | ok document =>
      rw [hproperty] at hsteps
      exact ⟨h.of_same hsteps rfl rfl rfl rfl, rfl⟩
  | _ => exact ⟨h.of_same hsteps rfl rfl rfl rfl, rfl⟩

end

/-! ## Actions -/

theorem steady_report (event : Event) : session.Steady (report event) :=
  ⟨stepwise_report event, fun h => leaves_modify.2 fun _ => ⟨h.report event, rfl⟩⟩

theorem steady_ask (request : Request) :
    session.Steady (modifyGet (World.answer session request) : Exec request.Reply) :=
  ⟨stepwise_modifyGet fun w => steps_answer session request w,
    fun h => leaves_modifyGet.2 fun _ => h.answer request⟩

/-- Adding a subscriber changes nothing but the hub. -/
theorem ensures_subscribe {roots : List SignalId} {w : World} (h : session.Sound roots [] w)
    {source : SourceId} {subscriber : Subscriber}
    (htarget : ∀ target, subscriber.target? = some target → w.graph.IsCell target) :
    session.Ensures (subscribe source subscriber)
      (fun _ w' => session.Sound roots [] w' ∧ w'.settling = w.settling) w := by
  refine ensures_of_leaves (subscribe_leaves (fun hub hsubscribe => ?_) fun _ _ => ⟨h, rfl⟩)
  exact ⟨h.of_same (.single (.subscribe htarget hsubscribe)) rfl rfl rfl rfl, rfl⟩

theorem steady_listen (source : SourceId) (listener : Value → Script) :
    session.Steady (subscribe source (.listener listener)) := by
  have htarget {w : World} : ∀ target, (Subscriber.listener listener).target? = some target →
      w.graph.IsCell target := fun target htarget => by cases htarget
  exact ⟨admits_steps.listen source trivial, fun h => ensures_subscribe h htarget⟩

theorem steady_attach (source : SourceId) (initial : Value) {subscriber : SignalId → Subscriber}
    (event : SignalId → Event)
    (htarget : ∀ id, (subscriber id).target? = some id) :
    session.Steady (attach source initial subscriber event) := by
  refine steady_get_bind (admits_steps.attach source initial event htarget) fun {roots w} h => ?_
  split
  · exact ensures_pure ⟨h, rfl⟩
  · refine leaves_bind.2 (leaves_modifyGet.2 ?_)
    have hcell := h.createCell initial
    have htargets (target : SignalId)
        (h : (subscriber (w.createCell initial).1).target? = some target) :
        (w.createCell initial).2.graph.IsCell target := by
      rw [htarget, Option.some.injEq] at h
      rw [← h]
      exact ⟨_, (Graph.grows_insertCell w.graph initial).node?_self, rfl⟩
    refine ensures_bind (ensures_subscribe hcell htargets) (fun result => ?_)
      fun result w₁ ⟨h₁, hsettling⟩ => ?_
    · cases result with
      | error failure => exact stepwise_pure _
      | ok _ => exact (stepwise_report _).bind fun _ => stepwise_pure _
    · cases result with
      | error failure => exact ensures_pure ⟨h₁, hsettling⟩
      | ok _ =>
        refine (((steady_report _).bind fun _ => steady_pure _).sound h₁).mono ?_
        exact fun _ w' ⟨h', hsettling'⟩ => ⟨h', hsettling'.trans hsettling⟩

/-- A write opens, or fails and does nothing. -/
theorem ensures_write {roots : List SignalId} {w : World} (h : session.Sound roots [] w)
    {cell : SignalId} (hcell : w.graph.OnlyEver (· = .cell) cell) (value : Value) :
    session.Ensures (write cell value) (fun result w' => w'.settling = w.settling ∧
      match result with
      | .ok () => session.Sound (cell :: roots) [] w'
      | .error _ => session.Sound roots [] w') w := by
  refine ensures_of_leaves (leaves_bind.2 (settleNode_leaves (fun graph hstore => ?_) ?_))
  · exact leaves_bind.2 (leaves_modify.2 (leaves_pure.2 ⟨rfl, h.write hcell hstore⟩))
  · exact fun _ _ => leaves_pure.2 ⟨rfl, h⟩

end Session

/-- What is done elsewhere leaves a session sound: in particular, settling a change settles it. -/
structure Hooks.Steady (session : Session) (hooks : Hooks) : Prop where
  stepwise : hooks.Stepwise
  dispatch : ∀ i, session.Steady (hooks.dispatch i)
  settle : ∀ {change roots w}, session.Sound (change.roots ++ roots) [] w → w.settling = false →
    session.Ensures (hooks.settle change)
      (fun _ w' => session.Sound roots [] w' ∧ w'.settling = w.settling) w

namespace Session

variable {session : Session} {hooks : Hooks} (hhooks : hooks.Steady session)

include hhooks

/-- A change that is requested is settled now, or waits. -/
theorem ensures_request (change : Change) {roots : List SignalId} {w : World}
    (h : session.Sound (change.roots ++ roots) [] w) :
    session.Ensures (request hooks change)
      (fun _ w' => session.Sound roots [] w' ∧ w'.settling = w.settling) w := by
  refine ensures_get_bind ?_
  split
  · rename_i hsettling
    split
    · rename_i hwaits
      exact ensures_pure ⟨h.of_waits hwaits, rfl⟩
    · have hbegun : session.Sound (change.roots ++ roots) []
          ((w.report .changeQueued).begin (.queued change)) :=
        (h.report .changeQueued).begin rfl (fun _ => rfl) trivial
      refine leaves_bind.2 (leaves_modify.2 (leaves_bind.2 (leaves_modify.2 ?_)))
      exact leaves_bind.2 (leaves_modify.2 (ensures_pure ⟨hbegun.enqueue hsettling, rfl⟩))
  · rename_i hsettling
    exact hhooks.settle h (by simpa using hsettling)

theorem steady_writeCell (cell : SignalId) (value : Value) :
    session.Steady (writeCell hooks cell value) := by
  refine steady_get_bind (hhooks.stepwise.tracks.writeCell cell value) fun {roots w} h => ?_
  split
  · exact ensures_pure ⟨h, rfl⟩
  · rename_i node hnode
    split
    · rename_i hcell
      have hcell : w.graph.OnlyEver (· = .cell) cell :=
        (Graph.isCell_of_node hnode hcell).onlyEver
      refine ensures_bind (ensures_write h hcell value) (fun result => ?_)
        fun result w₁ ⟨hsettling, h₁⟩ => ?_
      · cases result with
        | error failure => exact stepwise_pure _
        | ok _ => exact stepwise_request hhooks.stepwise _
      · rw [← hsettling]
        cases result with
        | error failure => exact ensures_pure ⟨h₁, rfl⟩
        | ok _ => exact ensures_request hhooks (.written cell) h₁
    · exact ensures_pure ⟨h, rfl⟩

theorem steady_fire (source : SourceId) (payload : Value) :
    session.Steady (fire hooks source payload) := by
  refine steady_get_bind (hhooks.stepwise.tracks.fireSource source payload) fun {roots w} h => ?_
  split
  · exact ensures_pure ⟨h, rfl⟩
  · exact ensures_request hhooks (.fired source payload) h

end Session

end EffectGraph
