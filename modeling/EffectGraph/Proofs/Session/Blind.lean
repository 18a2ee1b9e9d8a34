import EffectGraph.Proofs.Session.Overlooking
import EffectGraph.Proofs.Session.Pairs
import EffectGraph.Proofs.Session.Reachable

/-!
# Blind to an observer

Of two states, let the second one have an observer in addition (`Observer.Beside`). An action is blind
to the observer if it does the same in both: it ends with the same result, and the observer is again
all that the second state has in addition, without having failed once more. Whatever overlooks the
observer is blind to it within a batch (`Script.Overlooks.blind`).
-/

namespace EffectGraph

open Exec World

variable {α : Type} {o : Observer α}

/-- What is kept by actions that are blind to an observer. -/
structure Standing where
  /-- A change is being settled. -/
  settling : Bool
  /-- The slot that the next node takes in the first state. -/
  mark : Nat
  /-- The slot that the next node takes in the second state. -/
  mark' : Nat
  /-- How the observer has failed so far. -/
  failures : List Failure

/-- The observer fails, again and again. -/
def Standing.failing (s : Standing) (own : List Failure) : Standing :=
  { s with failures := s.failures ++ own }

/-- The second state has the observer in addition, and this is how the two states stand. -/
structure Observer.Stands (o : Observer α) (s : Standing) (w w' : World) : Prop
    extends o.Beside w w' where
  settling : w.settling = s.settling
  wellFormed : w.toScene.WellFormed
  wellFormed' : w'.toScene.WellFormed
  wired : w.graph.Wired
  wired' : w'.graph.Wired
  mark_eq : w.graph.mark = s.mark
  mark_eq' : w'.graph.mark = s.mark'
  failures_eq : w'.failuresOf o.id = s.failures

namespace Observer.Stands

variable {s t : Standing} {w w' v v' : World}

/-- As long as the graphs and the hubs are the same, the rest may change. -/
theorem move (h : o.Stands s w w') (hbeside : o.Beside v v') (hgraph : v.graph = w.graph)
    (hhub : v.hub = w.hub) (hgraph' : v'.graph = w'.graph) (hhub' : v'.hub = w'.hub)
    (hsettling : v.settling = t.settling) (hmark : s.mark = t.mark) (hmark' : s.mark' = t.mark')
    (hfailures : v'.failuresOf o.id = t.failures) : o.Stands t v v' where
  toBeside := hbeside
  settling := hsettling
  wellFormed := h.wellFormed.of_same hgraph hhub
  wellFormed' := h.wellFormed'.of_same hgraph' hhub'
  wired := hgraph ▸ h.wired
  wired' := hgraph' ▸ h.wired'
  mark_eq := by rw [hgraph, h.mark_eq, hmark]
  mark_eq' := by rw [hgraph', h.mark_eq', hmark']
  failures_eq := hfailures

/-- What is not seen of the document does not matter, nor does the past. Of the journal only the
failures of the observer matter. -/
theorem host (h : o.Stands s w w') {document document' : Document} (journal : Array Entry)
    {journal' : Array Entry} (past past' : List Moment) (hview : o.view document' = o.view document)
    (havoids : document.Avoids o.id)
    (hreports : { w' with journal := journal' }.failuresOf o.id = w'.failuresOf o.id) :
    o.Stands s { w with document, journal, past }
      { w' with document := document', journal := journal', past := past' } := by
  have hoverlooks : World.Overlooks o { w with document, journal, past } :=
    ⟨h.overlooks.values, h.overlooks.kinds, h.overlooks.subscribers, h.overlooks.queue, havoids⟩
  exact h.move ⟨h.graph, h.present, h.hub_eq, h.queue_eq, h.settling_eq, hview, hoverlooks⟩
    rfl rfl rfl rfl h.settling rfl rfl (hreports.trans h.failures_eq)

theorem report (h : o.Stands s w w') (event : Event) {event' : Event}
    (hevent : (Entry.event event').failureOf? o.id = none) :
    o.Stands s (w.report event) (w'.report event') := by
  refine h.host _ w.past w'.past h.view_eq h.overlooks.document ?_
  refine (w'.failuresOf_log (.event event') o.id).trans ?_
  rw [hevent, Option.toList_none, List.append_nil]

theorem begin (h : o.Stands s w w') (activity : Activity) :
    o.Stands s (w.begin activity) (w'.begin activity) := by
  refine h.host _ _ _ h.view_eq h.overlooks.document ?_
  exact (w'.failuresOf_log (.activity activity) o.id).trans (List.append_nil _)

/-- The observer fails. -/
theorem failed (h : o.Stands s w w') (failure : Failure) :
    o.Stands (s.failing [failure]) w (w'.report (.recomputationFailed o.id failure)) := by
  refine h.move ⟨h.graph, h.present, h.hub_eq, h.queue_eq, h.settling_eq, h.view_eq, h.overlooks⟩
    rfl rfl rfl rfl h.settling rfl rfl ((w'.failuresOf_log _ o.id).trans ?_)
  rw [h.failures_eq]
  exact congrArg (s.failures ++ ·) (congrArg Option.toList (if_pos rfl))

theorem queued (h : o.Stands s w w') {queue : List Change}
    (hqueue : ∀ change ∈ queue, change.Avoids o.id) :
    o.Stands s { w with queue } { w' with queue } := by
  have hoverlooks : World.Overlooks o { w with queue } :=
    ⟨h.overlooks.values, h.overlooks.kinds, h.overlooks.subscribers, hqueue, h.overlooks.document⟩
  exact h.move ⟨h.graph, h.present, h.hub_eq, rfl, h.settling_eq, h.view_eq, hoverlooks⟩
    rfl rfl rfl rfl h.settling rfl rfl h.failures_eq

/-- The settling of a change begins or ends. -/
theorem settled (h : o.Stands s w w') (settling : Bool) :
    o.Stands { s with settling } { w with settling } { w' with settling } := by
  have hoverlooks : World.Overlooks o { w with settling } :=
    ⟨h.overlooks.values, h.overlooks.kinds, h.overlooks.subscribers, h.overlooks.queue,
      h.overlooks.document⟩
  exact h.move ⟨h.graph, h.present, h.hub_eq, h.queue_eq, rfl, h.view_eq, hoverlooks⟩
    rfl rfl rfl rfl rfl rfl rfl h.failures_eq

/-- Occurrences are counted. -/
theorem delivered (h : o.Stands s w w') {source : SourceId} {subscribers : List Subscriber}
    {hub : Hub} (hdeliver : w.hub.deliver source = .ok (subscribers, hub)) :
    o.Stands s { w with hub } { w' with hub } where
  toBeside := ⟨h.graph, h.present, rfl, h.queue_eq, h.settling_eq, h.view_eq, h.overlooks.values,
    h.overlooks.kinds, fun _ hs => h.overlooks.subscribers _ (Hub.subscribed_deliver hdeliver hs),
    h.overlooks.queue, h.overlooks.document⟩
  settling := h.settling
  wellFormed := Step.scene_wellFormed (.deliver hdeliver) h.wellFormed
  wellFormed' := Step.scene_wellFormed (.deliver (h.hub_eq ▸ hdeliver)) h.wellFormed'
  wired := h.wired
  wired' := h.wired'
  mark_eq := h.mark_eq
  mark_eq' := h.mark_eq'
  failures_eq := h.failures_eq

/-- The same value is stored in both. -/
theorem store (h : o.Stands s w w') {k : SignalId} {value : Value} {graph graph' : Graph}
    (hk : k ≠ o.id) (hvalue : value.Avoids o.id) (hstore : w.graph.settle k value = .ok graph)
    (hstore' : w'.graph.settle k value = .ok graph') :
    o.Stands s { w with graph } { w' with graph := graph' } := by
  have hstep : Step w { w with graph } := .store hstore
  have hstep' : Step w' { w' with graph := graph' } := .store hstore'
  have hwell := hstep.scene_wellFormed h.wellFormed
  have hwell' := hstep'.scene_wellFormed h.wellFormed'
  have hwired : graph.Wired := hstep.wired h.wired
  have hwired' : graph'.Wired := hstep'.wired h.wired'
  obtain ⟨-, rfl⟩ := Graph.settle_eq_ok.1 hstore
  obtain ⟨-, rfl⟩ := Graph.settle_eq_ok.1 hstore'
  have hnode (j : SignalId) (node : Node)
      (hj : (w.graph.modify k (Graph.settledNode value)).node? j = some node) :
      ∃ old, w.graph.node? j = some old ∧ node.kind = old.kind ∧
        (node.value = value ∨ node.value = old.value) := by
    rw [Graph.node?_modify] at hj
    split at hj
    · rw [Option.map_eq_some_iff] at hj
      obtain ⟨old, hold, rfl⟩ := hj
      exact ⟨old, hold, rfl, .inl rfl⟩
    · exact ⟨node, hj, rfl, .inr rfl⟩
  have hoverlooks :
      World.Overlooks o { w with graph := w.graph.modify k (Graph.settledNode value) } := by
    refine ⟨fun j node hj => ?_, fun j node hj => ?_, h.overlooks.subscribers, h.overlooks.queue,
      h.overlooks.document⟩
    · obtain ⟨old, hold, -, hstored | hkept⟩ := hnode j node hj
      · exact hstored ▸ hvalue
      · exact hkept ▸ h.overlooks.values j old hold
    · obtain ⟨old, hold, hkind, -⟩ := hnode j node hj
      exact hkind ▸ h.overlooks.kinds j old hold
  obtain ⟨self, hself, hkind⟩ := h.present
  refine ⟨⟨h.graph.settle hk value, ⟨self, ?_, hkind⟩, h.hub_eq, h.queue_eq, h.settling_eq, h.view_eq,
    hoverlooks⟩, h.settling, hwell, hwell', hwired, hwired', ?_, ?_, h.failures_eq⟩
  · rw [Graph.node?_modify, if_neg hk.symm]
    exact hself
  · rw [← h.mark_eq]
    exact Graph.size_modify _ _ _
  · rw [← h.mark_eq']
    exact Graph.size_modify _ _ _

/-- A value is stored in the observer. -/
theorem store_self (h : o.Stands s w w') {value : Value} {graph' : Graph}
    (hstore' : w'.graph.settle o.id value = .ok graph') :
    o.Stands s w { w' with graph := graph' } := by
  have hstep' : Step w' { w' with graph := graph' } := .store hstore'
  have hwell' := hstep'.scene_wellFormed h.wellFormed'
  have hwired' : graph'.Wired := hstep'.wired h.wired'
  obtain ⟨-, rfl⟩ := Graph.settle_eq_ok.1 hstore'
  obtain ⟨self, hself, hkind⟩ := h.present
  refine ⟨⟨h.graph.settle_self value, ⟨Graph.settledNode value self, ?_, hkind⟩, h.hub_eq, h.queue_eq,
    h.settling_eq, h.view_eq, h.overlooks⟩, h.settling, h.wellFormed, hwell', h.wired, hwired',
    h.mark_eq, ?_, h.failures_eq⟩
  · rw [Graph.node?_modify, if_pos rfl, hself]
    rfl
  · rw [← h.mark_eq']
    exact Graph.size_modify _ _ _

end Observer.Stands

/-! ## Actions that do not see the observer -/

namespace Exec

variable {β γ : Type} {s : Standing} {P : β → Prop} {R : γ → Prop} {x : Exec β}

/-- The action does the same in both states. What it ends with has the property. -/
def Blind (o : Observer α) (s : Standing) (P : β → Prop) (x : Exec β) : Prop :=
  ∀ w w', o.Stands s w w' →
    x.Pairs x (fun a v b v' => b = a ∧ P a ∧ o.Stands s v v') w w'

theorem Blind.mono (h : x.Blind o s P) {Q : β → Prop} (hsub : ∀ a, P a → Q a) : x.Blind o s Q := by
  intro w w' hw
  refine (h w w' hw).mono ?_
  rintro a v b v' ⟨heq, hP, hv⟩
  exact ⟨heq, hsub a hP, hv⟩

theorem blind_pure {a : β} (h : P a) : (pure a : Exec β).Blind o s P := fun _ _ hw => ⟨rfl, h, hw⟩

theorem blind_failure : (failure : Exec β).Blind o s P := fun _ _ _ => trivial

theorem Blind.bind {f : β → Exec γ} (h : x.Blind o s P) (hf : ∀ a, P a → (f a).Blind o s R) :
    (x >>= f).Blind o s R := by
  intro w w' hw
  refine pairs_bind ((h w w' hw).mono ?_)
  rintro a v b v' ⟨rfl, hP, hv⟩
  exact hf _ hP v v' hv

/-- What is done with the state is the same in both. -/
theorem blind_get_bind {f : World → Exec γ}
    (h : ∀ w w', o.Stands s w w' → f w' = f w ∧ (f w).Blind o s R) :
    ((get : Exec World) >>= f).Blind o s R := by
  intro w w' hw
  obtain ⟨heq, hblind⟩ := h w w' hw
  refine pairs_bind (pairs_get.2 ?_)
  rw [heq]
  exact hblind w w' hw

theorem blind_modify {f : World → World}
    (h : ∀ w w', o.Stands s w w' → o.Stands s (f w) (f w')) :
    (modify f : Exec PUnit).Blind o s fun _ => True :=
  fun w w' hw => pairs_modify.2 ⟨rfl, trivial, h w w' hw⟩

theorem blind_report {event : Event} (hevent : (Entry.event event).failureOf? o.id = none) :
    (report event).Blind o s fun _ => True :=
  blind_modify fun _ _ hw => hw.report event hevent

theorem blind_begin (activity : Activity) : (begin activity).Blind o s fun _ => True :=
  blind_modify fun _ _ hw => hw.begin activity

theorem blind_settleNode {k : SignalId} {value : Value} (hk : k ≠ o.id) (hvalue : value.Avoids o.id) :
    (settleNode k value).Blind o s (Fails (Failure.Avoids o.id)) := by
  intro w w' hw
  rcases hw.graph.cases hk with ⟨hnone, hnone'⟩ | ⟨node, node', hnode, hnode', -⟩
  · have hgone {v : World} (h : v.graph.node? k = none) :
        settleNode k value v = (some (.error (.unknownSignal k)), v) := by
      simp [settleNode, tryWorld, Graph.settle, Graph.node, h, Except.map]
    refine (pairs_of_eq_some (hgone hnone) (hgone hnone')).2 ⟨rfl, ?_, hw⟩
    exact fails_error fun _ heq => by cases heq
  · have hstored {v : World} {old : Node} (h : v.graph.node? k = some old) :
        settleNode k value v =
          (some (.ok ()), { v with graph := v.graph.modify k (Graph.settledNode value) }) := by
      simp [settleNode, tryWorld, Graph.settle_eq_ok.2 ⟨⟨old, h⟩, rfl⟩, Except.map]
    refine (pairs_of_eq_some (hstored hnode) (hstored hnode')).2 ⟨rfl, fails_ok _, ?_⟩
    exact hw.store hk hvalue (Graph.settle_eq_ok.2 ⟨⟨node, hnode⟩, rfl⟩)
      (Graph.settle_eq_ok.2 ⟨⟨node', hnode'⟩, rfl⟩)

theorem blind_write {cell : SignalId} {value : Value} (hcell : cell ≠ o.id)
    (hvalue : value.Avoids o.id) :
    (write cell value).Blind o s (Fails (Failure.Avoids o.id)) := by
  refine (blind_settleNode hcell hvalue).bind fun reply hreply => ?_
  cases reply with
  | error failure => exact blind_pure hreply
  | ok _ => exact (blind_begin _).bind fun _ _ => blind_pure (fails_ok _)

end Exec

/-! ## Requests -/

variable {s : Standing} {w w' : World} {request : Request}

/-- What is asked of the host is answered alike. -/
theorem Request.IsHost.stands (h : request.IsHost) (hblames : ¬ request.Blames o.id)
    (hsees : request.SeesOnly o.view) (session : Session)
    (hdocument : (World.answer session request w).2.document.Avoids o.id) (hw : o.Stands s w w') :
    (World.answer session request w').1 = (World.answer session request w).1 ∧
      o.Stands s (World.answer session request w).2 (World.answer session request w').2 := by
  obtain ⟨hreply, hview⟩ := hsees session w w' hw.view_eq
  have hreports := h.failuresOf_answer hblames session w'
  obtain ⟨_, document, journal, heq⟩ := h.quiet session w
  obtain ⟨_, document', journal', heq'⟩ := h.quiet session w'
  have hasked : (World.answer session request w).2 = { w with document, journal } :=
    congrArg Prod.snd heq
  have hasked' : (World.answer session request w').2 =
      { w' with document := document', journal := journal' } := congrArg Prod.snd heq'
  rw [hasked, hasked'] at hview
  rw [hasked] at hdocument
  rw [hasked'] at hreports
  refine ⟨hreply, ?_⟩
  rw [hasked, hasked']
  exact hw.host journal w.past w'.past hview hdocument hreports

/-- A request that overlooks the observer is answered alike, and not with anything that mentions it. -/
theorem Request.Overlooks.stands (h : request.Overlooks o) (session : Session)
    (hw : o.Stands s w w') :
    (World.answer session request w').1 = (World.answer session request w).1 ∧
      request.Avoids o.id (World.answer session request w).1 ∧
      o.Stands s (World.answer session request w).2 (World.answer session request w').2 := by
  have hdocument := hw.overlooks.document
  cases request with
  | sample id => exact ⟨hw.graph.value_eq h, Graph.replyAvoids_value hw.overlooks.values id, hw⟩
  | read value =>
    exact ⟨hw.graph.resolve_eq h, Graph.replyAvoids_resolve hw.overlooks.values value, hw⟩
  | setProperty id name value =>
    obtain ⟨hvalue, hsees⟩ := h
    have hset : (World.answer session (.setProperty id name value) w).2.document.Avoids o.id := by
      change (w.setProperty id name value).2.document.Avoids o.id
      unfold World.setProperty
      cases hwritten : w.document.setProperty id name value with
      | error failure => exact hdocument
      | ok document => exact hdocument.setProperty hvalue hwritten
    have hhost : Request.IsHost (.setProperty id name value) := trivial
    have hblames : ¬ Request.Blames o.id (.setProperty id name value) := by
      rintro ⟨failure, heq⟩
      cases heq
    obtain ⟨hreply, hstands⟩ := hhost.stands hblames hsees session hset hw
    exact ⟨hreply, trivial, hstands⟩
  | createElement tagName domId =>
    obtain ⟨hhost, hblames, hsees⟩ := h
    obtain ⟨hreply, hstands⟩ := hhost.stands hblames hsees session (hdocument.create tagName domId) hw
    exact ⟨hreply, trivial, hstands⟩
  | property id name =>
    obtain ⟨hhost, hblames, hsees⟩ := h
    obtain ⟨hreply, hstands⟩ := hhost.stands hblames hsees session hdocument hw
    exact ⟨hreply, hdocument.property id name, hstands⟩
  | element id =>
    obtain ⟨hhost, hblames, hsees⟩ := h
    obtain ⟨hreply, hstands⟩ := hhost.stands hblames hsees session hdocument hw
    exact ⟨hreply, hdocument id, hstands⟩
  | record | elementById | textContent | tags | settings =>
    obtain ⟨hhost, hblames, hsees⟩ := h
    obtain ⟨hreply, hstands⟩ := hhost.stands hblames hsees session hdocument hw
    exact ⟨hreply, trivial, hstands⟩
  | _ => exact h.1.elim

/-! ## Calls -/

namespace Exec

variable {hooks : Hooks}

theorem blind_ask (h : request.Overlooks o) (session : Session) :
    (modifyGet (World.answer session request) : Exec request.Reply).Blind o s
      (request.Avoids o.id) :=
  fun _ _ hw => pairs_modifyGet.2 (h.stands session hw)

/-- In a batch a change is put into the queue. -/
theorem blind_request (hs : s.settling = true) {change : Change} (hchange : change.Avoids o.id) :
    (Exec.request hooks change).Blind o s (Fails (Failure.Avoids o.id)) := by
  refine blind_get_bind fun w w' hw => ⟨?_, ?_⟩
  · rw [hw.settling_eq, hw.queue_eq]
  · rw [if_pos (hw.settling.trans hs)]
    split
    · exact blind_pure (fails_ok _)
    · refine (blind_report rfl).bind fun _ _ => (blind_begin _).bind fun _ _ => ?_
      refine (blind_modify fun v v' hv => ?_).bind fun _ _ => blind_pure (fails_ok _)
      rw [hv.queue_eq]
      refine hv.queued fun other hother => ?_
      rcases List.mem_append.1 hother with hold | hnew
      · exact hv.overlooks.queue other hold
      · exact List.mem_singleton.1 hnew ▸ hchange

theorem blind_writeCell (hs : s.settling = true) {cell : SignalId} {value : Value}
    (hcell : cell ≠ o.id) (hvalue : value.Avoids o.id) :
    (writeCell hooks cell value).Blind o s (Fails (Failure.Avoids o.id)) := by
  refine blind_get_bind fun w w' hw => ?_
  rcases hw.graph.cases hcell with ⟨hnone, hnone'⟩ | ⟨node, node', hnode, hnode', hsame⟩
  · rw [Graph.node_eq_error.2 ⟨hnone, rfl⟩, Graph.node_eq_error.2 ⟨hnone', rfl⟩]
    exact ⟨rfl, blind_pure (fails_error fun _ heq => (by cases heq))⟩
  · have hkind : node'.kind = node.kind := congrArg (·.kind) hsame
    rw [Graph.node_eq_ok.2 hnode, Graph.node_eq_ok.2 hnode']
    dsimp only
    rw [hkind]
    refine ⟨rfl, ?_⟩
    split
    · refine (blind_write hcell hvalue).bind fun reply hreply => ?_
      cases reply with
      | error failure => exact blind_pure hreply
      | ok _ => exact blind_request hs hcell
    · exact blind_pure (fails_error fun _ heq => (by cases heq))

theorem blind_fire (hs : s.settling = true) (source : SourceId) {payload : Value}
    (hpayload : payload.Avoids o.id) :
    (Exec.fire hooks source payload).Blind o s (Fails (Failure.Avoids o.id)) := by
  refine blind_get_bind fun w w' hw => ?_
  rw [hw.hub_eq]
  refine ⟨rfl, ?_⟩
  cases hfound : w.hub.get source with
  | error failure =>
    refine blind_pure (fails_error fun _ heq => ?_)
    subst heq
    unfold Hub.get at hfound
    split at hfound <;> cases hfound
  | ok found => exact blind_request hs hpayload

/-- A program is run alike if its instructions are interpreted alike. -/
theorem blind_runProgram {ok : Instruction → Prop} {program : Program}
    (hprogram : program.Confined (ResultAvoids o.id) ok)
    {interpreter : Instruction → Exec (Except Interrupt Value)}
    (hinterpreter : ∀ i, ok i → (interpreter i).Blind o s (ResultAvoids o.id)) (settings : Settings) :
    (runProgram settings interpreter program).Blind o s (ReplyAvoids o.id) := by
  intro w w' hw
  have hlimit (limit : Nat) : ReplyAvoids o.id (.error (.stepLimit limit)) :=
    replyAvoids_error fun _ heq => by cases heq
  have hruns : (program.run (announced settings interpreter) settings.stepLimit w).Pairs (o.Stands s)
      (fun _ _ => True) (ResultAvoids o.id)
      (program.run (announced settings interpreter) settings.stepLimit w') := by
    refine hprogram.run_pairs hlimit (fun n i v v' hi _ hv => ?_) hw
    have hblind : (announced settings interpreter n i).Blind o s (ResultAvoids o.id) := by
      unfold announced
      split
      · exact (blind_report rfl).bind fun _ _ => hinterpreter i hi
      · exact hinterpreter i hi
    rcases (hblind v v' hv).cases with
      ⟨u, u', hran, hran'⟩ | ⟨_, u, answer, u', hran, hran', rfl, hfine, hu⟩
    · exact ⟨none, u, u', hran, hran', fun _ => trivial, by simp⟩
    · refine ⟨some answer, u, u', hran, hran', by simp, fun result heq => ?_⟩
      obtain rfl := Option.some.inj heq
      exact ⟨hu, hfine⟩
  refine pairs_bind (pairs_get.2 ?_)
  revert hruns
  generalize program.run (announced settings interpreter) settings.stepLimit w = halt
  generalize program.run (announced settings interpreter) settings.stepLimit w' = halt'
  obtain ⟨_, _, v⟩ := halt
  obtain ⟨outcome, steps, v'⟩ := halt'
  rintro ⟨houtcome, hsteps, -, hended, hfine⟩
  dsimp only at houtcome hsteps hended hfine
  subst houtcome hsteps
  refine pairs_bind (pairs_set.2 ?_)
  have hreported (event : Event) {result : Except Failure Value}
      (hevent : (Entry.event event).failureOf? o.id = none) (hresult : ReplyAvoids o.id result)
      (hv : o.Stands s v v') := ((blind_report hevent).bind fun _ _ => blind_pure hresult) v v' hv
  cases outcome with
  | yielded value =>
    exact hreported (.programFinished steps) rfl (hfine (.ok value) rfl) (hended (by simp))
  | raised payload =>
    exact hreported (.failureEscaped steps payload) rfl (hfine (.error (.raised payload)) rfl)
      (hended (by simp))
  | exhausted limit =>
    exact hreported (.stepLimitReached limit) rfl (hlimit limit) (hended (by simp))
  | aborted failure =>
    have hresult : ReplyAvoids o.id (.error failure) := hfine (.error (.aborted failure)) rfl
    exact blind_pure hresult v v' (hended (by simp))
  | unanswered => trivial

end Exec

/-- **Scripts that overlook an observer are blind to it.** -/
theorem Script.Overlooks.blind {script : Script} (h : script.Overlooks o) (session : Session)
    {hooks : Hooks} (hs : s.settling = true)
    (hdispatch : ∀ i, o.performed i → (hooks.dispatch i).Blind o s (ResultAvoids o.id)) :
    (script.exec session hooks).Blind o s (ResultAvoids o.id) := by
  induction h with
  | done hresult => exact blind_pure hresult
  | ask hrequest _ ih => exact (blind_ask hrequest session).bind ih
  | set hcell hvalue _ ih => exact (blind_writeCell hs hcell hvalue).bind ih
  | fire hpayload _ ih => exact (blind_fire hs _ hpayload).bind ih
  | run hprogram _ ih => exact (blind_runProgram hprogram hdispatch _).bind ih
  | runWith hprogram _ _ ihinterpreter ih =>
    exact (blind_runProgram hprogram ihinterpreter _).bind ih
  | dispatch hi _ ih => exact (hdispatch _ hi).bind ih

namespace Session

variable {session : Session}

theorem blind_checkShape (i : Instruction) {value : Value} (hvalue : value.Avoids o.id) :
    (checkShape i value).Blind o s (ResultAvoids o.id) := by
  have herror {failure : Failure} (h : failure.Avoids o.id) :
      ResultAvoids o.id (.error (.ofFailure failure)) := by
    refine replyAvoids_error ?_
    rw [Interrupt.toFailure_ofFailure]
    exact h
  unfold checkShape
  split
  · exact blind_pure (replyAvoids_ok hvalue)
  · refine blind_get_bind fun w w' hw => ?_
    have hshape : currentShape w' value = currentShape w value := by
      cases value with
      | signal k =>
        have hk : k ≠ o.id := fun heq => hvalue (heq ▸ List.mem_singleton_self k)
        exact congrArg (Except.map Value.shape) (hw.graph.value_eq hk)
      | _ => rfl
    rw [hshape]
    refine ⟨rfl, ?_⟩
    cases hfound : currentShape w value with
    | error failure =>
      refine blind_pure (herror ?_)
      cases value with
      | signal k =>
        have hfails := (Graph.replyAvoids_value hw.overlooks.values k).2.map Value.shape
        exact hfails failure hfound
      | _ => cases hfound
    | ok found =>
      dsimp only
      split
      · exact blind_pure (replyAvoids_ok hvalue)
      · exact blind_pure (replyAvoids_error fun _ heq => by cases heq)

/-- At every level instructions are dispatched alike. -/
theorem Overlooks.blind_dispatch (h : session.Overlooks o) (hs : s.settling = true) (level : Nat)
    {i : Instruction} (hi : o.performed i) :
    ((session.hooksAt level).dispatch i).Blind o s (ResultAvoids o.id) := by
  induction level generalizing i with
  | zero => exact blind_failure
  | succ n ih =>
    change (dispatch session (session.hooksAt n) i).Blind o s (ResultAvoids o.id)
    unfold dispatch
    cases hhandler : Keyed.get? i.tag session.handlers with
    | none => exact blind_pure (replyAvoids_error fun _ heq => by cases heq)
    | some handler =>
      have hscript := h i handler hi hhandler
      refine (hscript.blind session hs fun j hj => ih hj).bind fun result hresult => ?_
      cases result with
      | error interrupt => exact blind_pure hresult
      | ok value =>
        dsimp only
        split
        · exact blind_checkShape i (hresult.1 value rfl)
        · exact blind_pure hresult

end Session

end EffectGraph
