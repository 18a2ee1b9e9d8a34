import EffectGraph.Proofs.Event.Exchanging
import EffectGraph.Proofs.Session.Actions

/-!
# Actions that mirror each other

Two states are like each other if they differ in reducers that are exchanged, and in what no script
can see: the past, and what the engine has reported in the journal. One action mirrors another if from
states that are like each other both end with the same result, or are both cut off, in states that are
again like each other (`Exec.Mirrors`). It need do so only as long as all that begins is fine for the
exchange; what has begun is read off the past of the first state.

Every state is like itself. So what a part of the first action adds to the past can be told without
asking whether the second action still keeps up with it.
-/

namespace EffectGraph

open Exec World

variable {e : Exchange}

/-- The value that the host has noted down with the entry. -/
def Entry.note? : Entry → Option Value
  | .note value => some value
  | .event _ | .activity _ => none

namespace World

/-- What the host has noted down. -/
def notes (w : World) : List Value := w.journal.toList.filterMap Entry.note?

theorem notes_log (w : World) (entry : Entry) :
    (w.log entry).notes = w.notes ++ entry.note?.toList := by
  rw [notes, log, Array.toList_push, List.filterMap_append]
  cases hnote : entry.note? <;> simp [notes, hnote]

/-- The states differ in reducers that are exchanged, in the past and in what has been reported. -/
structure Like (e : Exchange) (w w' : World) : Prop where
  graph_eq : w'.graph = w.graph
  hub : w.hub.Alike e w'.hub
  queue_eq : w'.queue = w.queue
  settling_eq : w'.settling = w.settling
  document_eq : w'.document = w.document
  notes_eq : w'.notes = w.notes

/-- All that has begun from the first state to the second one is fine. -/
def FineSince (e : Exchange) (w v : World) : Prop :=
  ∀ since, v.past = since ++ w.past → ∀ m ∈ since, e.fine m.activity

section

variable {w u v : World}

theorem FineSince.first (h : w.FineSince e v) (hv : u.past <:+ v.past) :
    w.FineSince e u := by
  obtain ⟨later, hlater⟩ := hv
  intro since hsince m hm
  refine h (later ++ since) ?_ m (List.mem_append_right _ hm)
  rw [← hlater, hsince, List.append_assoc]

theorem FineSince.second (h : w.FineSince e v) (hu : w.past <:+ u.past) : u.FineSince e v := by
  obtain ⟨earlier, hearlier⟩ := hu
  intro since hsince m hm
  refine h (since ++ earlier) ?_ m (List.mem_append_left _ hm)
  rw [hsince, ← hearlier, List.append_assoc]

end

namespace Like

variable {w w' : World}

theorem refl (w : World) : w.Like e w := ⟨rfl, .refl _, rfl, rfl, rfl, rfl⟩

theorem storing (h : w.Like e w') (graph : Graph) :
    Like e { w with graph } { w' with graph } :=
  ⟨rfl, h.hub, h.queue_eq, h.settling_eq, h.document_eq, h.notes_eq⟩

theorem connecting (h : w.Like e w') {hub hub' : Hub} (hhub : hub.Alike e hub') :
    Like e { w with hub } { w' with hub := hub' } :=
  ⟨h.graph_eq, hhub, h.queue_eq, h.settling_eq, h.document_eq, h.notes_eq⟩

theorem queueing (h : w.Like e w') (queue : List Change) :
    Like e { w with queue } { w' with queue } :=
  ⟨h.graph_eq, h.hub, rfl, h.settling_eq, h.document_eq, h.notes_eq⟩

theorem settling (h : w.Like e w') (settling : Bool) :
    Like e { w with settling } { w' with settling } :=
  ⟨h.graph_eq, h.hub, h.queue_eq, rfl, h.document_eq, h.notes_eq⟩

theorem showing (h : w.Like e w') (document : Document) :
    Like e { w with document } { w' with document } :=
  ⟨h.graph_eq, h.hub, h.queue_eq, h.settling_eq, rfl, h.notes_eq⟩

theorem log (h : w.Like e w') {entry entry' : Entry} (hnote : entry'.note? = entry.note?) :
    Like e (w.log entry) (w'.log entry') := by
  refine ⟨h.graph_eq, h.hub, h.queue_eq, h.settling_eq, h.document_eq, ?_⟩
  rw [notes_log, notes_log, h.notes_eq, hnote]

theorem report (h : w.Like e w') (event event' : Event) :
    Like e (w.report event) (w'.report event') := h.log rfl

theorem report_left (h : w.Like e w') (event : Event) : Like e (w.report event) w' := by
  refine ⟨h.graph_eq, h.hub, h.queue_eq, h.settling_eq, h.document_eq, ?_⟩
  rw [World.report, notes_log, h.notes_eq]
  exact (List.append_nil _).symm

theorem reported (w : World) (event : Event) : w.Like e (w.report event) := by
  refine ⟨rfl, .refl _, rfl, rfl, rfl, ?_⟩
  rw [World.report, notes_log]
  exact List.append_nil _

theorem begin (h : w.Like e w') (activity : Activity) :
    Like e (w.begin activity) (w'.begin activity) := by
  refine ⟨h.graph_eq, h.hub, h.queue_eq, h.settling_eq, h.document_eq, ?_⟩
  rw [World.begin, World.begin, notes_log, notes_log]
  exact congrArg (· ++ _) h.notes_eq

/-- Where nothing is exchanged, the second state is the first one but for the journal and the past. -/
theorem eq_of_empty (h : w.Like .empty w') :
    w' = { w with journal := w'.journal, past := w'.past } := by
  obtain ⟨hgraph, hhub, hqueue, hsettling, hdocument, -⟩ := h
  have hsame := hhub.eq_of_empty
  obtain ⟨⟨graph, hub, queue, settling, document, journal⟩, past⟩ := w'
  simp_all

theorem symm_of_empty (h : w.Like .empty w') : w'.Like .empty w := by
  have hnotes := h.notes_eq.symm
  rw [h.eq_of_empty] at hnotes ⊢
  exact ⟨rfl, .refl _, rfl, rfl, rfl, hnotes⟩

theorem trans_of_empty {w'' : World} (h : w.Like .empty w') (h' : w'.Like .empty w'') :
    w.Like .empty w'' := by
  have hnotes := h'.notes_eq.trans h.notes_eq
  rw [h'.eq_of_empty, h.eq_of_empty] at hnotes ⊢
  exact ⟨rfl, .refl _, rfl, rfl, rfl, hnotes⟩

/-! ## Requests -/

/-- A signal is removed in both states, or in none. -/
theorem removeSignal_cases (h : w.Like e w') (id : SignalId) :
    (∃ failure, w.removeSignal id = .error failure ∧ w'.removeSignal id = .error failure) ∨
      ∃ removed v v', w.removeSignal id = .ok (removed, v) ∧
        w'.removeSignal id = .ok (removed, v') ∧ v.past = w.past ∧ v.Like e v' := by
  unfold removeSignal
  rw [h.graph_eq]
  cases w.graph.remove id with
  | error failure => exact .inl ⟨failure, rfl, rfl⟩
  | ok result =>
    obtain ⟨removed, graph⟩ := result
    exact .inr ⟨removed, _, _, rfl, rfl, rfl, (h.storing graph).connecting (h.hub.detach removed)⟩

theorem tearDown (h : w.Like e w') (id : SignalId) :
    (w'.tearDown id).1 = (w.tearDown id).1 ∧ (w.tearDown id).2.past = w.past ∧
      (w.tearDown id).2.Like e (w'.tearDown id).2 := by
  unfold World.tearDown
  rcases h.removeSignal_cases id with ⟨failure, hw, hw'⟩ | ⟨removed, v, v', hw, hw', hpast, hlike⟩
  · rw [hw, hw']
    exact ⟨rfl, rfl, h⟩
  · rw [hw, hw']
    exact ⟨rfl, hpast, hlike.report _ _⟩

theorem discard (h : w.Like e w') (ids : List SignalId) :
    (w'.discard ids).1 = (w.discard ids).1 ∧ (w.discard ids).2.past = w.past ∧
      (w.discard ids).2.Like e (w'.discard ids).2 := by
  induction ids generalizing w w' with
  | nil => exact ⟨rfl, rfl, h⟩
  | cons id rest ih =>
    rw [World.discard, World.discard, h.graph_eq]
    split
    · rcases h.removeSignal_cases id with ⟨failure, hw, hw'⟩ | ⟨removed, v, v', hw, hw', hpast, hlike⟩
      · rw [hw, hw']
        exact ⟨rfl, rfl, h⟩
      · rw [hw, hw']
        obtain ⟨hreply, hpast', hrest⟩ := ih (hlike.report
          (.transientsDiscarded id removed.length) (.transientsDiscarded id removed.length))
        exact ⟨hreply, hpast'.trans hpast, hrest⟩
    · exact ih h

theorem merge (h : w.Like e w') (left right : SourceId) :
    (w'.merge left right).1 = (w.merge left right).1 ∧ (w.merge left right).2.past = w.past ∧
      (w.merge left right).2.Like e (w'.merge left right).2 := by
  unfold World.merge
  rcases h.hub.merge_cases left right with ⟨failure, hw, hw'⟩ | ⟨merged, hub, hub', hw, hw', halike⟩
  · rw [hw, hw']
    exact ⟨rfl, rfl, h⟩
  · rw [hw, hw']
    exact ⟨rfl, rfl, h.connecting halike⟩

theorem setProperty (h : w.Like e w') (id : ElementId) (name : String) (value : Value) :
    (w'.setProperty id name value).1 = (w.setProperty id name value).1 ∧
      (w.setProperty id name value).2.past = w.past ∧
      (w.setProperty id name value).2.Like e (w'.setProperty id name value).2 := by
  unfold World.setProperty
  rw [h.document_eq]
  cases w.document.setProperty id name value with
  | error failure => exact ⟨rfl, rfl, h⟩
  | ok document => exact ⟨rfl, rfl, (h.log rfl).showing document⟩

theorem createCell (h : w.Like e w') (value : Value) :
    (w'.createCell value).1 = (w.createCell value).1 ∧ (w.createCell value).2.past = w.past ∧
      (w.createCell value).2.Like e (w'.createCell value).2 := by
  have hcell : w'.graph.insertCell value = w.graph.insertCell value := by rw [h.graph_eq]
  have hid : (w'.createCell value).1 = (w.createCell value).1 :=
    congrArg (fun cell : SignalId × Graph => cell.1) hcell
  have hgraph : (w'.createCell value).2.graph = (w.createCell value).2.graph :=
    congrArg (fun cell : SignalId × Graph => cell.2) hcell
  exact ⟨hid, rfl, hgraph, h.hub, h.queue_eq, h.settling_eq, h.document_eq, h.notes_eq⟩

/-- Every request has the same reply in both states. -/
theorem answer (h : w.Like e w') (session : Session) (request : Request) :
    (World.answer session request w').1 = (World.answer session request w).1 ∧
      (World.answer session request w).2.past = w.past ∧
      (World.answer session request w).2.Like e (World.answer session request w').2 := by
  cases request with
  | sample id => exact ⟨congrArg (·.value id) h.graph_eq, rfl, h⟩
  | read value => exact ⟨congrArg (·.resolve value) h.graph_eq, rfl, h⟩
  | cell initial => exact h.createCell initial
  | tearDown id => exact h.tearDown id
  | inspect id => exact ⟨congrArg (·.inspect id) h.graph_eq, rfl, h⟩
  | liveSignals => exact ⟨congrArg (·.liveIds) h.graph_eq, rfl, h⟩
  | mark => exact ⟨congrArg (·.mark) h.graph_eq, rfl, h⟩
  | discardSince mark =>
    have hcreated : w'.graph.createdSince mark = w.graph.createdSince mark := by rw [h.graph_eq]
    obtain ⟨hreply, hpast, hlike⟩ := h.discard (w.graph.createdSince mark)
    simp only [World.answer, hcreated]
    exact ⟨hreply, hpast, hlike⟩
  | source name => exact ⟨h.hub.create_eq name, rfl, h.connecting (h.hub.create name)⟩
  | on element event =>
    exact ⟨h.hub.on_eq element event, rfl, h.connecting (h.hub.on element event)⟩
  | bound element event => exact ⟨h.hub.bound_eq element event, rfl, h⟩
  | sourceName source => exact ⟨h.hub.map_get_eq source fun _ _ hs => hs.name_eq, rfl, h⟩
  | merge left right => exact h.merge left right
  | occurrences source =>
    exact ⟨h.hub.map_get_eq source fun _ _ hs => hs.occurrences_eq, rfl, h⟩
  | subscriberCount source =>
    exact ⟨h.hub.map_get_eq source fun _ _ hs => hs.subscribers.length_eq.symm, rfl, h⟩
  | sourceCount => exact ⟨h.hub.size_eq, rfl, h⟩
  | record entry => exact ⟨rfl, rfl, h.log rfl⟩
  | createElement tagName domId =>
    obtain ⟨id, hid⟩ : ∃ id, id = w.document.create tagName domId := ⟨_, rfl⟩
    have hid' : id = w'.document.create tagName domId := by rw [h.document_eq, hid]
    simp only [World.answer, ← hid, ← hid']
    exact ⟨rfl, trivial, h.showing _⟩
  | elementById domId => exact ⟨congrArg (·.find? domId) h.document_eq, rfl, h⟩
  | element id => exact ⟨congrArg (·.get id) h.document_eq, rfl, h⟩
  | property id name => exact ⟨congrArg (·.property id name) h.document_eq, rfl, h⟩
  | setProperty id name value => exact h.setProperty id name value
  | textContent id => exact ⟨congrArg (·.textContent id) h.document_eq, rfl, h⟩
  | tags => exact ⟨rfl, rfl, h⟩
  | settings => exact ⟨rfl, rfl, h⟩

end Like

end World

namespace Exec

variable {α β : Type}

/-- Started from these states, the first action forgets no moment; and if all that begins is fine, the
second action ends with the same result, or is cut off as well, in a state like that of the first. -/
structure MirrorsFrom (e : Exchange) (x y : Exec α) (w w' : World) : Prop where
  grows : w.past <:+ (x w).2.past
  same : w.FineSince e (x w).2 → (y w').1 = (x w).1 ∧ (x w).2.Like e (y w').2

/-- From states that are like each other, the actions do the same. -/
def Mirrors (e : Exchange) (x y : Exec α) : Prop :=
  ∀ w w', w.Like e w' → x.MirrorsFrom e y w w'

/-- From states that are like each other, the action does the same. -/
abbrev Mirrored (e : Exchange) (x : Exec α) : Prop := x.Mirrors e x

section

variable {x y : Exec α} {f g : α → Exec β} {w w' : World}

theorem MirrorsFrom.bind (h : x.MirrorsFrom e y w w') (hf : ∀ a, (f a).Mirrors e (g a)) :
    (x >>= f).MirrorsFrom e (y >>= g) w w' := by
  obtain ⟨hgrows, hsame⟩ := h
  rcases hx : x w with ⟨_ | a, v⟩ <;> rw [hx] at hgrows hsame
  · have hcut := bind_eq_of_eq_none (f := f) hx
    refine ⟨by rwa [hcut], fun hfine => ?_⟩
    rw [hcut] at hfine ⊢
    obtain ⟨hreply, hlike⟩ := hsame hfine
    rcases hy : y w' with ⟨_ | b, v'⟩ <;> rw [hy] at hreply hlike
    · rw [bind_eq_of_eq_none hy]
      exact ⟨rfl, hlike⟩
    · cases hreply
  · have hgoes := bind_eq_of_eq_some (f := f) hx
    -- What is begun by the rest can be told from the first state alone.
    have hrest := (hf a v v (.refl v)).grows
    refine ⟨by rw [hgoes]; exact hgrows.trans hrest, fun hfine => ?_⟩
    rw [hgoes] at hfine ⊢
    obtain ⟨hreply, hlike⟩ := hsame (hfine.first hrest)
    rcases hy : y w' with ⟨_ | b, v'⟩ <;> rw [hy] at hreply hlike
    · cases hreply
    · obtain rfl := Option.some.inj hreply
      rw [bind_eq_of_eq_some hy]
      exact (hf b v v' hlike).same (hfine.second hgrows)

theorem Mirrors.bind (h : x.Mirrors e y) (hf : ∀ a, (f a).Mirrors e (g a)) :
    (x >>= f).Mirrors e (y >>= g) := fun w w' hw => (h w w' hw).bind hf

theorem mirrorsFrom_of_past_eq (hpast : (x w).2.past = w.past) (hreply : (y w').1 = (x w).1)
    (hlike : (x w).2.Like e (y w').2) : x.MirrorsFrom e y w w' :=
  ⟨hpast ▸ List.suffix_refl _, fun _ => ⟨hreply, hlike⟩⟩

theorem mirrorsFrom_of_eq_some {a : α} {v v' : World} (hx : x w = (some a, v))
    (hy : y w' = (some a, v')) (hpast : v.past = w.past) (hlike : v.Like e v') :
    x.MirrorsFrom e y w w' := by
  refine mirrorsFrom_of_past_eq ?_ ?_ ?_ <;> rw [hx]
  · exact hpast
  · rw [hy]
  · rwa [hy]

/-- The actions may have begun elsewhere, as long as the first one has added nothing to the past. -/
theorem MirrorsFrom.of_eq {x' y' : Exec α} {v v' : World} (h : x'.MirrorsFrom e y' v v')
    (hx : x w = x' v) (hy : y w' = y' v') (hpast : v.past = w.past) : x.MirrorsFrom e y w w' := by
  constructor
  case grows =>
    rw [hx, ← hpast]
    exact h.grows
  case same =>
    intro hfine
    rw [hx] at hfine ⊢
    rw [hy]
    refine h.same fun since hsince => hfine since ?_
    rw [hsince, hpast]

theorem mirrored_pure (a : α) : (pure a : Exec α).Mirrored e :=
  fun _ _ hw => mirrorsFrom_of_past_eq rfl rfl hw

theorem mirrored_failure : (failure : Exec α).Mirrored e :=
  fun _ _ hw => mirrorsFrom_of_past_eq rfl rfl hw

theorem mirrors_get_bind {f g : World → Exec α}
    (h : ∀ w w', w.Like e w' → (f w).MirrorsFrom e (g w') w w') :
    ((get : Exec World) >>= f).Mirrors e (get >>= g) :=
  fun w w' hw => ⟨(h w w' hw).grows, (h w w' hw).same⟩

/-- What is done with the state is the same in both. -/
theorem mirrors_get_bind_of_eq {f g : World → Exec α}
    (h : ∀ w w', w.Like e w' → g w' = g w ∧ (f w).Mirrors e (g w)) :
    ((get : Exec World) >>= f).Mirrors e (get >>= g) := by
  refine mirrors_get_bind fun w w' hw => ?_
  obtain ⟨heq, hmirrors⟩ := h w w' hw
  rw [heq]
  exact hmirrors w w' hw

theorem mirrorsFrom_set {v v' : World} (hpast : v.past = w.past) (hlike : v.Like e v') :
    (set v : Exec PUnit).MirrorsFrom e (set v') w w' := mirrorsFrom_of_past_eq hpast rfl hlike

theorem mirrors_modify {f g : World → World} (hpast : ∀ w, (f w).past = w.past)
    (hlike : ∀ w w', w.Like e w' → (f w).Like e (g w')) :
    (modify f : Exec PUnit).Mirrors e (modify g) :=
  fun w w' hw => mirrorsFrom_of_past_eq (hpast w) rfl (hlike w w' hw)

/-! ## Single actions -/

theorem mirrors_report (event event' : Event) : (report event).Mirrors e (report event') :=
  mirrors_modify (fun _ => rfl) fun _ _ hw => hw.report event event'

theorem mirrors_report_bind {event : Event} (h : x.Mirrors e y) :
    (report event >>= fun _ => x).Mirrors e y :=
  fun w w' hw => (h (w.report event) w' (hw.report_left event)).of_eq rfl rfl rfl

/-- When it may matter what begins, it is known to be fine. -/
theorem mirrors_begin_bind {activity : Activity} {x y : Exec α}
    (h : x.Mirrored e) (hfine : e.fine activity → x.Mirrors e y) :
    (begin activity >>= fun _ => x).Mirrors e (begin activity >>= fun _ => y) := by
  intro w w' hw
  have hself := (h (w.begin activity) (w.begin activity) (.refl _)).grows
  refine ⟨(List.suffix_cons _ _).trans hself, fun hsince => ?_⟩
  have hbegun := hsince.first hself
  have hmoment : e.fine activity := hbegun [_] rfl _ (List.mem_singleton_self _)
  exact (hfine hmoment _ _ (hw.begin activity)).same (hsince.second (List.suffix_cons _ _))

theorem mirrored_begin (activity : Activity) : (begin activity).Mirrored e :=
  fun _ _ hw => ⟨List.suffix_cons _ _, fun _ => ⟨rfl, hw.begin activity⟩⟩

theorem mirrored_ask (session : Session) (request : Request) :
    (modifyGet (World.answer session request) : Exec request.Reply).Mirrored e := by
  intro w w' hw
  obtain ⟨hreply, hpast, hlike⟩ := hw.answer session request
  exact mirrorsFrom_of_past_eq hpast (congrArg some hreply) hlike

/-- An action that may fail does so in both states, or in none. -/
theorem mirrors_tryWorld {f g : World → Except Failure (α × World)}
    (h : ∀ w w', w.Like e w' → (∃ failure, f w = .error failure ∧ g w' = .error failure) ∨
      ∃ a v v', f w = .ok (a, v) ∧ g w' = .ok (a, v') ∧ v.past = w.past ∧ v.Like e v') :
    (tryWorld f).Mirrors e (tryWorld g) := by
  intro w w' hw
  rcases h w w' hw with ⟨failure, hfw, hgw⟩ | ⟨a, v, v', hfw, hgw, hpast, hlike⟩
  · refine mirrorsFrom_of_past_eq ?_ ?_ ?_ <;> simp only [tryWorld, hfw, hgw]
    exact hw
  · refine mirrorsFrom_of_past_eq ?_ ?_ ?_ <;> simp only [tryWorld, hfw, hgw]
    · exact hpast
    · exact hlike

/-- What is done with the graph may fail. -/
theorem mirrored_tryGraph (change : Graph → Except Failure β) (reply : β → α)
    (graph : β → Graph) :
    (tryWorld fun w => (change w.graph).map fun b =>
      (reply b, { w with graph := graph b })).Mirrored e := by
  refine mirrors_tryWorld fun w w' hw => ?_
  rw [hw.graph_eq]
  cases change w.graph with
  | error failure => exact .inl ⟨failure, rfl, rfl⟩
  | ok b => exact .inr ⟨_, _, _, rfl, rfl, rfl, hw.storing (graph b)⟩

theorem mirrored_settleNode (id : SignalId) (value : Value) : (settleNode id value).Mirrored e :=
  mirrored_tryGraph (·.settle id value) (fun _ => ()) fun graph => graph

theorem mirrored_insertNode (kind : NodeKind) (inputs : List SignalId) :
    (insertNode kind inputs).Mirrored e :=
  mirrored_tryGraph (·.insert kind inputs) (fun added => added.1) fun added => added.2

theorem mirrored_removeNode (id : SignalId) : (removeNode id).Mirrored e :=
  mirrored_tryGraph (·.remove id) (fun _ => ()) fun removal => removal.2

theorem mirrored_write (cell : SignalId) (value : Value) : (write cell value).Mirrored e := by
  refine (mirrored_settleNode cell value).bind fun reply => ?_
  cases reply with
  | error failure => exact mirrored_pure _
  | ok _ => exact (mirrored_begin _).bind fun _ => mirrored_pure _

theorem mirrors_subscribe (source : SourceId) {s s' : Subscriber} (hs : s.Alike e s') :
    (subscribe source s).Mirrors e (subscribe source s') := by
  refine mirrors_tryWorld fun w w' hw => ?_
  rcases hw.hub.subscribe_cases source hs with ⟨hfirst, hsecond⟩ | ⟨hub, hub', hfirst, hsecond, halike⟩
  · rw [hfirst, hsecond]
    exact .inl ⟨_, rfl, rfl⟩
  · rw [hfirst, hsecond]
    exact .inr ⟨_, _, _, rfl, rfl, rfl, hw.connecting halike⟩

/-- Ends with the cell that a subscriber has been attached to. -/
private def attached (target : SignalId) (event : SignalId → Event) :
    Except Failure Unit → Exec (Except Failure SignalId)
  | .error failure => return .error failure
  | .ok () => do
    report (event target)
    return .ok target

private theorem mirrors_attached (target : SignalId) (event event' : SignalId → Event)
    (reply : Except Failure Unit) :
    (attached target event reply).Mirrors e (attached target event' reply) := by
  cases reply with
  | error failure => exact mirrored_pure _
  | ok _ => exact (mirrors_report _ _).bind fun _ => mirrored_pure _

/-- Attaching subscribers that are alike, to the cell that is created for them, does the same. -/
theorem mirrorsFrom_attach (hw : w.Like e w') (source : SourceId) (initial : Value)
    (subscriber subscriber' : SignalId → Subscriber)
    (halike : (subscriber (w.createCell initial).1).Alike e (subscriber' (w.createCell initial).1))
    (event event' : SignalId → Event) :
    (attach source initial subscriber event).MirrorsFrom e (attach source initial subscriber' event')
      w w' := by
  unfold attach
  rcases hw.hub.get_cases source with ⟨hfirst, hsecond⟩ | ⟨found, found', hfirst, hsecond, -⟩
  · refine mirrorsFrom_of_eq_some (a := .error (.unknownSource source))
      ((get_bind_eq _ w).trans ?_) ((get_bind_eq _ w').trans ?_) rfl hw
    · rw [hfirst]
      rfl
    · rw [hsecond]
      rfl
  · obtain ⟨hid, hpast, hcreated⟩ := hw.createCell initial
    let target := (w.createCell initial).1
    have hrest : (subscribe source (subscriber target) >>= attached target event).Mirrors e
        (subscribe source (subscriber' target) >>= attached target event') :=
      (mirrors_subscribe source halike).bind fun reply => mirrors_attached target event event' reply
    refine (hrest _ _ hcreated).of_eq ((get_bind_eq _ w).trans ?_) ((get_bind_eq _ w').trans ?_) hpast
    · rw [hfirst]
      rfl
    · have hcell : (modifyGet (·.createCell initial) : Exec SignalId) w' =
          (some target, (w'.createCell initial).2) :=
        congrArg (fun id => (some id, (w'.createCell initial).2)) hid
      rw [hsecond]
      exact bind_eq_of_eq_some hcell

theorem mirrored_attach (source : SourceId) (initial : Value) (subscriber : SignalId → Subscriber)
    (event : SignalId → Event) :
    (attach source initial subscriber event).Mirrored e :=
  fun _ _ hw => mirrorsFrom_attach hw source initial _ _ (.same _) event event

/-! ## Nodes -/

/-- A new node whose first evaluation has failed is removed. -/
private def keepOrRemove (id : SignalId) : Except Interrupt Unit → Exec (Except Interrupt Unit)
  | .ok () => return .ok ()
  | .error interrupt => do
    match ← removeNode id with
    | .ok () => return .error interrupt
    | .error failure => return .error (.ofFailure failure)

private theorem mirrored_keepOrRemove (id : SignalId) (outcome : Except Interrupt Unit) :
    (keepOrRemove id outcome).Mirrored e := by
  cases outcome with
  | ok _ => exact mirrored_pure _
  | error interrupt =>
    refine (mirrored_removeNode id).bind fun reply => ?_
    cases reply with
    | ok _ => exact mirrored_pure _
    | error failure => exact mirrored_pure _

theorem mirrored_finishFirst (id : SignalId) (result : Except Interrupt Value) :
    (finishFirst id result).Mirrored e := by
  have hfinish (outcome : Except Interrupt Unit) := mirrored_keepOrRemove (e := e) id outcome
  cases result with
  | error interrupt => exact (mirrored_pure _).bind hfinish
  | ok value =>
    refine (mirrored_settleNode id value).bind fun reply => ?_
    cases reply with
    | ok _ => exact (mirrored_pure _).bind hfinish
    | error failure => exact (mirrored_pure _).bind hfinish

end

end Exec

end EffectGraph
