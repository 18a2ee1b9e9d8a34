import EffectGraph.Proofs.Graph.Marks
import EffectGraph.Proofs.Session.Batches
import EffectGraph.Proofs.Session.Blind

/-!
# Observers do not interfere

Reducers, listeners and the computations of other nodes are blind to an observer that they overlook. A
pass, however, is not: over the second of two states it evaluates the observer in addition, somewhere
in between, and this may fail. So two passes find the same failures but for those of the observer
(`shadows_propagate`), and so do two batches (`settle_pairs`) and whole sequences of calls.
`Visits.observer_aside` says what this comes to.
-/

namespace EffectGraph

open Exec World

variable {α : Type} {o : Observer α} {s : Standing} {w w' : World}

/-! ## Evaluating other nodes -/

/-- What a node computes that overlooks the observer is the same in both states. -/
theorem NodeKind.Overlooks.blind {kind : NodeKind} (h : kind.Overlooks o) (session : Session)
    {hooks : Hooks} (hs : s.settling = true)
    (hdispatch : ∀ i, o.performed i → (hooks.dispatch i).Blind o s (ResultAvoids o.id))
    {inputs : List Value} (hinputs : ∀ input ∈ inputs, input.Avoids o.id) :
    (Session.computation session hooks kind inputs).Blind o s (ResultAvoids o.id) := by
  cases kind with
  | cell => exact blind_pure (replyAvoids_ok Value.avoids_unit)
  | derived operands compute => exact (h inputs hinputs).blind session hs hdispatch
  | watch input effect =>
    have hscript := h _ (Value.avoids_headD hinputs)
    refine (hscript.blind session hs hdispatch).bind fun result hresult => blind_pure ?_
    cases result with
    | ok value => exact replyAvoids_ok Value.avoids_unit
    | error interrupt => exact hresult

namespace Session

section

variable (session : Session) {hooks : Hooks} (hs : s.settling = true)
  (hdispatch : ∀ i, o.performed i → (hooks.dispatch i).Blind o s (ResultAvoids o.id))

include hs hdispatch

theorem blind_evaluate {k : SignalId} (hk : k ≠ o.id) :
    (evaluate session hooks k).Blind o s fun _ => True := by
  refine blind_get_bind fun w w' hw => ?_
  rcases hw.graph.cases hk with ⟨hnone, hnone'⟩ | ⟨node, node', hnode, hnode', hsame⟩
  · rw [Graph.node_eq_error.2 ⟨hnone, rfl⟩, Graph.node_eq_error.2 ⟨hnone', rfl⟩]
    exact ⟨rfl, blind_pure trivial⟩
  · have hkind : node'.kind = node.kind := congrArg (·.kind) hsame
    rw [Graph.node_eq_ok.2 hnode, Graph.node_eq_ok.2 hnode']
    dsimp only
    rw [hkind]
    refine ⟨rfl, ?_⟩
    split
    · exact blind_pure trivial
    · -- The node does not depend on the observer, which the first state does not have.
      have hdependencies : o.id ∉ node.kind.dependencies := fun hmem => by
        have hwired : w.graph.Wired := hw.wired
        have hlive := hwired.operands_live hw.wellFormed.graph hnode _ hmem
        rw [Graph.contains, hw.graph.absent] at hlive
        cases hlive
      have hoverlooks := hw.overlooks.kinds k node hnode
      refine Blind.bind (P := ResultAvoids o.id) (blind_get_bind fun v v' hv => ?_)
        fun result hresult => ?_
      · rw [hv.graph.inputsOf_eq hdependencies]
        refine ⟨rfl, ?_⟩
        cases hinputs : v.graph.inputsOf node.kind with
        | error failure =>
          refine blind_pure (replyAvoids_error ?_)
          rw [Interrupt.toFailure_ofFailure]
          have hvalues (j : SignalId) := (Graph.replyAvoids_value hv.overlooks.values j).2
          exact Graph.fails_inputsOf_of hvalues node.kind failure hinputs
        | ok inputs =>
          have havoids := Graph.avoids_of_inputsOf hv.overlooks.values hinputs
          exact (blind_begin _).bind fun _ _ => hoverlooks.blind session hs hdispatch havoids
      · cases result with
        | error interrupt => exact blind_pure trivial
        | ok value => exact (blind_settleNode hk (hresult.1 value rfl)).mono fun _ _ => trivial

/-! ## Reducers and listeners -/

theorem blind_reduce {payload : Value} {target : SignalId} {reducer : Value → Script}
    (htarget : target ≠ o.id)
    (hreducer : ∀ current, current.Avoids o.id → (reducer current).Overlooks o) :
    (reduce session hooks payload target reducer).Blind o s (ReplyAvoids o.id) := by
  refine blind_get_bind fun w w' hw => ?_
  rw [hw.graph.value_eq htarget]
  refine ⟨rfl, ?_⟩
  have hvalue := Graph.replyAvoids_value hw.overlooks.values target
  cases hcurrent : w.graph.value target with
  | error failure => exact blind_pure (hcurrent ▸ hvalue)
  | ok current =>
    have hscript := hreducer current (hvalue.1 current hcurrent)
    refine (blind_begin _).bind fun _ _ => (hscript.blind session hs hdispatch).bind
      fun result hresult => ?_
    cases result with
    | error interrupt => exact blind_pure hresult
    | ok value =>
      refine blind_get_bind fun v v' hv => ?_
      rw [hv.graph.resolve_eq (hresult.1 value rfl)]
      exact ⟨rfl, blind_pure (Graph.replyAvoids_resolve hv.overlooks.values value)⟩

omit hs in
/-- A program that is run in reaction to an occurrence does not see where the next node goes. -/
theorem blind_reaction {program : Program}
    (hprogram : program.Confined (ResultAvoids o.id) o.performed) :
    ((reaction program).exec session hooks).Blind o s (ResultAvoids o.id) := by
  intro w w' hw
  refine pairs_bind (pairs_modifyGet.2 (pairs_bind ?_))
  refine (blind_runProgram hprogram hdispatch session.settings w w' hw).mono ?_
  rintro _ v result v' ⟨rfl, hresult, hv⟩
  -- No node was created, so none is discarded.
  have hgone (u : World) : World.answer session (.discardSince u.graph.mark) u = (.ok (), u) := by
    change u.discard (u.graph.createdSince u.graph.mark) = (.ok (), u)
    rw [Graph.createdSince_mark]
    rfl
  have hfinish {outcome : Except Failure Value} {next : Except Failure Unit → Script} {u u' : World}
      (hnext : next (.ok ()) = .done (outcome.mapError Interrupt.aborted))
      (houtcome : ReplyAvoids o.id outcome) (hu : o.Stands s u u') :
      ((Script.ask (.discardSince w.graph.mark) next).exec session hooks).Pairs
        ((Script.ask (.discardSince w'.graph.mark) next).exec session hooks)
        (fun a v b v' => b = a ∧ ResultAvoids o.id a ∧ o.Stands s v v') u u' := by
    refine pairs_bind (pairs_modifyGet.2 ?_)
    rw [hw.mark_eq.trans hu.mark_eq.symm, hw.mark_eq'.trans hu.mark_eq'.symm, hgone, hgone]
    dsimp only
    rw [hnext]
    refine blind_pure ?_ u u' hu
    cases outcome with
    | ok value => exact houtcome
    | error failure => exact houtcome
  cases result with
  | error failure => exact hfinish rfl hresult hv
  | ok value =>
    have hread : Request.Overlooks o (.read value) := hresult.1 value rfl
    refine pairs_bind ((blind_ask hread session v v' hv).mono ?_)
    rintro _ u reply u' ⟨rfl, hreply, hu⟩
    exact hfinish rfl hreply hu

omit hs in
theorem blind_reduceProgram {payload : Value} {target : SignalId} {reducer : Value → Program}
    (htarget : target ≠ o.id) (hreducer : ∀ current, current.Avoids o.id →
      (reducer current).Confined (ResultAvoids o.id) o.performed) :
    (reduceProgram session hooks payload target reducer).Blind o s (ReplyAvoids o.id) := by
  refine blind_get_bind fun w w' hw => ?_
  rw [hw.graph.value_eq htarget]
  refine ⟨rfl, ?_⟩
  have hvalue := Graph.replyAvoids_value hw.overlooks.values target
  cases hcurrent : w.graph.value target with
  | error failure => exact blind_pure (hcurrent ▸ hvalue)
  | ok current =>
    have hprogram := hreducer current (hvalue.1 current hcurrent)
    exact (blind_begin _).bind fun _ _ => (blind_reaction session hdispatch hprogram).bind
      fun result hresult => blind_pure hresult

omit hs hdispatch in
theorem blind_finish {payload : Value} {written : List SignalId} {target : SignalId}
    (htarget : target ≠ o.id) {next : Except Failure Value} (hnext : ReplyAvoids o.id next)
    {rest : List Subscriber}
    (hrest : ∀ written, (reduceAll session hooks payload written rest).Blind o s fun _ => True) :
    (reduceAll.finish session hooks payload written target next rest).Blind o s fun _ => True := by
  have hstored : (storeReduced target next).Blind o s fun _ => True := by
    cases next with
    | error failure => exact blind_pure trivial
    | ok value => exact (blind_write htarget (hnext.1 value rfl)).mono fun _ _ => trivial
  unfold reduceAll.finish
  refine hstored.bind fun result _ => ?_
  cases result with
  | ok _ => exact hrest _
  | error failure =>
    exact (blind_report rfl).bind fun _ _ => (hrest written).bind fun _ _ => blind_pure trivial

theorem blind_reduceAll {payload : Value} (hpayload : payload.Avoids o.id)
    {subscribers : List Subscriber} (hsubscribers : ∀ s ∈ subscribers, s.Overlooks o)
    (written : List SignalId) :
    (reduceAll session hooks payload written subscribers).Blind o s fun _ => True := by
  induction subscribers generalizing written with
  | nil =>
    rw [reduceAll]
    exact blind_pure trivial
  | cons subscriber rest ih =>
    obtain ⟨hfirst, hrest⟩ := List.forall_mem_cons.1 hsubscribers
    rw [reduceAll.eq_def]
    cases subscriber with
    | fold target reducer =>
      obtain ⟨htarget, hreducer⟩ := hfirst
      refine (blind_reduce session hs hdispatch htarget fun current hcurrent => ?_).bind
        fun next hnext => blind_finish session htarget hnext (ih hrest)
      exact hreducer current payload hcurrent hpayload
    | foldProgram target reducer =>
      obtain ⟨htarget, hreducer⟩ := hfirst
      refine (blind_reduceProgram session hdispatch htarget fun current hcurrent => ?_).bind
        fun next hnext => blind_finish session htarget hnext (ih hrest)
      exact hreducer current payload hcurrent hpayload
    | listener listener => exact ih hrest written
    | forward source => exact ih hrest written

theorem blind_notifyAll {payload : Value} (hpayload : payload.Avoids o.id)
    {subscribers : List Subscriber} (hsubscribers : ∀ s ∈ subscribers, s.Overlooks o) :
    (notifyAll session hooks payload subscribers).Blind o s fun _ => True := by
  induction subscribers with
  | nil => exact blind_pure trivial
  | cons subscriber rest ih =>
    obtain ⟨hfirst, hrest⟩ := List.forall_mem_cons.1 hsubscribers
    cases subscriber with
    | listener listener =>
      refine (blind_begin _).bind fun _ _ => ((hfirst payload hpayload).blind session hs hdispatch).bind
        fun result _ => ?_
      cases result with
      | ok _ => exact ih hrest
      | error interrupt => exact (ih hrest).bind fun _ _ => blind_pure trivial
    | fold | foldProgram | forward => exact ih hrest

end

end Session

/-! ## Failures of the observer -/

/-- The second list has the failures of the first one, and besides them its own ones. -/
structure Adds (own failures failures' : List Failure) : Prop where
  kept : failures.Sublist failures'
  added : own.Sublist failures'
  perm : failures'.Perm (failures ++ own)

namespace Adds

variable {own own' failures failures' more more' : List Failure}

theorem refl (failures : List Failure) : Adds [] failures failures :=
  ⟨.refl _, List.nil_sublist _, (List.append_nil _).symm ▸ .refl _⟩

theorem append (h : Adds own failures failures') (h' : Adds own' more more') :
    Adds (own ++ own') (failures ++ more) (failures' ++ more') where
  kept := h.kept.append h'.kept
  added := h.added.append h'.added
  perm := by
    refine (h.perm.append h'.perm).trans ?_
    rw [List.append_assoc, List.append_assoc]
    exact (List.perm_append_comm_assoc own more own').append_left failures

/-- Others fail before and after. -/
theorem within (h : Adds own failures failures') (front back : List Failure) :
    Adds own (front ++ failures ++ back) (front ++ failures' ++ back) := by
  simpa using ((refl front).append h).append (refl back)

/-- Another node fails. -/
theorem cons (h : Adds own failures failures') (failure : Failure) :
    Adds own (failure :: failures) (failure :: failures') := (refl [failure]).append h

/-- The observer fails. -/
theorem cons_own (h : Adds own failures failures') (failure : Failure) :
    Adds (failure :: own) failures (failure :: failures') := by
  have hfailed : Adds [failure] [] [failure] := ⟨List.nil_sublist _, .refl _, .refl _⟩
  exact hfailed.append h

end Adds

theorem Standing.failing_failing (s : Standing) (own own' : List Failure) :
    (s.failing own).failing own' = s.failing (own ++ own') := by
  simp only [failing, List.append_assoc]

/-- The actions find the same failures but for those of the observer. -/
def Exec.Shadows (o : Observer α) (s : Standing) (x y : Exec (List Failure)) (w w' : World) : Prop :=
  x.Pairs y (fun failures v failures' v' =>
    ∃ own, Adds own failures failures' ∧ o.Stands (s.failing own) v v') w w'

/-- What is done in the second state only, and is not seen. -/
theorem Observer.Stands.unseen (h : o.Stands s w w') {v' : World} (hunseen : o.Unseen w' v') :
    o.Stands s w v' := by
  obtain ⟨document, journal, rfl, hview, hreports⟩ := hunseen
  exact h.host w.journal w.past w'.past (hview.trans h.view_eq) h.overlooks.document hreports

section

variable (session : Session) (hooks : Hooks) (haside : o.kind.StaysAside o)

include haside

theorem NodeKind.StaysAside.ne_cell : o.kind ≠ .cell := by
  intro hcell
  rw [hcell] at haside
  exact haside

/-- Evaluating the observer comes to an end, and nothing else happens. -/
theorem Exec.evaluateOn_observer (hw : o.Stands s w w') :
    (evaluateOn o.id o.kind (Session.computation session hooks o.kind)).Leaves
      (fun _ v' => o.Stands s w v') (fun _ => False) w' := by
  refine evaluateOn_cases (fun _ _ => hw) fun inputs _ => ?_
  have hbegun : o.Stands s w (w'.begin (.evaluating o.id inputs)) := by
    refine hw.host w.journal w.past _ hw.view_eq hw.overlooks.document ?_
    exact (w'.failuresOf_log (.activity (.evaluating o.id inputs)) o.id).trans (List.append_nil _)
  exact (haside.leaves session hooks inputs _).mono fun _ _ hunseen => hbegun.unseen hunseen

theorem Session.evaluate_observer (hw : o.Stands s w w') :
    (evaluate session hooks o.id).Leaves (fun _ v' => o.Stands s w v') (fun _ => False) w' := by
  obtain ⟨self, hself, hkind⟩ := hw.present
  have hnot : ¬ self.kind.isCell = true := fun hcell => by
    obtain ⟨node, hnode, hiscell⟩ := Graph.isCell_of_node (Graph.node_eq_ok.2 hself) hcell
    obtain rfl := Option.some.inj (hself.symm.trans hnode)
    exact haside.ne_cell (hkind.symm.trans hiscell)
  refine leaves_bind.2 (leaves_get.2 ?_)
  rw [Graph.node_eq_ok.2 hself]
  dsimp only
  rw [if_neg hnot, hkind]
  refine leaves_bind.2 ((evaluateOn_observer session hooks haside hw).mono fun result v' hv => ?_)
  cases result with
  | error interrupt => exact leaves_pure.2 hv
  | ok value => exact settleNode_leaves (fun _ hstored => hv.store_self hstored) fun _ _ => hv

/-- A node that is created, stays aside and is overlooked by what was there before is an observer. -/
theorem Exec.create_observer (hwell : w.toScene.WellFormed) (hwired : w.graph.Wired)
    (hid : o.id = ⟨w.graph.mark⟩) (hoverlooks : w.Overlooks o) :
    (create o.kind o.kind.dependencies (Session.computation session hooks o.kind)).Leaves
      (fun result w' => ∀ id, result = .ok id → id = o.id ∧ o.Beside w w') (fun _ => False) w := by
  refine create_leaves (fun _ _ id heq => by cases heq) fun id graph hinsert => ?_
  have hstep : Step w { w with graph } := .insert haside.ne_cell hinsert
  obtain ⟨rank, -, hgrows⟩ := Graph.grows_insert o.kind.nodup_dependencies hinsert
  obtain rfl : id = o.id := hgrows.id_eq.trans hid.symm
  have hinserted : o.Stands ⟨w.settling, w.graph.mark, graph.mark, w.failuresOf o.id⟩ w
      { w with graph } :=
    { graph := .of_grows hgrows, present := ⟨_, hgrows.node?_self, rfl⟩, hub_eq := rfl, queue_eq := rfl,
      settling_eq := rfl, view_eq := rfl, overlooks := hoverlooks, settling := rfl, wellFormed := hwell,
      wellFormed' := hstep.scene_wellFormed hwell, wired := hwired, wired' := hstep.wired hwired,
      mark_eq := rfl, mark_eq' := rfl, failures_eq := rfl }
  refine (evaluateOn_observer session hooks haside hinserted).mono fun result v' hv => ?_
  refine finishFirst_leaves (fun _ _ _ heq => by cases heq) (fun value stored _ hstore => ?_)
    fun _ _ _ _ _ _ heq => by cases heq
  exact fun _ heq => ⟨(Except.ok.inj heq).symm, (hv.store_self hstore).toBeside⟩

end

namespace Session

variable (session : Session) {hooks : Hooks} (haside : o.kind.StaysAside o)

include haside

variable (hs : s.settling = true)
  (hdispatch : ∀ s : Standing, s.settling = true → ∀ i, o.performed i →
    (hooks.dispatch i).Blind o s (ResultAvoids o.id))

include hs hdispatch

/-- Evaluating the observer among others changes nothing for the others. -/
theorem shadows_evaluateAll {ids ids' : List SignalId} (hids : ids'.filter (· ≠ o.id) = ids)
    (hw : o.Stands s w w') :
    Shadows o s (evaluateAll session hooks ids) (evaluateAll session hooks ids') w w' := by
  induction ids' generalizing ids s w w' with
  | nil =>
    obtain rfl : ids = [] := hids.symm
    exact ⟨[], .refl _, by simpa [Standing.failing] using hw⟩
  | cons k rest ih =>
    by_cases hk : k = o.id
    · subst hk
      rw [List.filter_cons_of_neg (by simp)] at hids
      obtain ⟨self, hself, -⟩ := hw.present
      refine pairs_right (leaves_get.2 ?_)
      rw [if_pos (Graph.contains_iff.2 ⟨self, hself⟩)]
      refine pairs_right ((evaluate_observer session hooks haside hw).mono fun result v' hv => ?_)
      cases result with
      | ok _ => exact ih hs hids hv
      | error failure =>
        refine pairs_right (leaves_modify.2 ?_)
        refine Pairs.bind_right ((ih (s := s.failing [failure]) hs hids (hv.failed failure)).mono ?_)
        rintro failures u failures' u' ⟨own, hadds, hu⟩
        rw [Standing.failing_failing] at hu
        exact leaves_pure.2 ⟨failure :: own, hadds.cons_own failure, hu⟩
    · rw [List.filter_cons_of_pos (by simpa using hk)] at hids
      subst hids
      refine pairs_bind (pairs_get.2 ?_)
      rw [hw.graph.contains_eq hk]
      split
      · refine pairs_bind ((blind_evaluate session hs (hdispatch s hs) hk w w' hw).mono ?_)
        rintro _ v result v' ⟨rfl, -, hv⟩
        cases result with
        | ok _ => exact ih hs rfl hv
        | error failure =>
          refine pairs_bind (pairs_modify.2 (pairs_bind ?_))
          have hreported : o.Stands s (v.report (.recomputationFailed k failure))
              (v'.report (.recomputationFailed k failure)) := hv.report _ (if_neg hk)
          refine (ih hs rfl hreported).mono ?_
          rintro failures u failures' u' ⟨own, hadds, hu⟩
          exact ⟨own, hadds.cons failure, hu⟩
      · exact ih hs rfl hw

/-- A pass finds the same failures but for those of the observer. -/
theorem shadows_propagate (roots : List SignalId) (hw : o.Stands s w w') :
    Shadows o s (propagate session hooks roots) (propagate session hooks roots) w w' := by
  unfold propagate
  split
  · exact ⟨[], .refl _, by simpa [Standing.failing] using hw⟩
  · simp only [List.partition_eq_filter_filter]
    refine pairs_bind (pairs_get.2 (pairs_bind (pairs_modify.2 (pairs_bind (pairs_modify.2 ?_)))))
    refine shadows_evaluateAll session haside hs hdispatch ?_ ((hw.report _ rfl).begin _)
    exact hw.graph.passOrder_eq hw.wellFormed.graph hw.wellFormed'.graph

theorem shadows_deliver (source : SourceId) {payload : Value} (hpayload : payload.Avoids o.id)
    (hw : o.Stands s w w') :
    Shadows o s (deliver session hooks source payload) (deliver session hooks source payload) w w' := by
  refine pairs_bind (pairs_get.2 ?_)
  rw [hw.hub_eq]
  cases hdeliver : w.hub.deliver source with
  | error failure => exact ⟨[], .refl _, by simpa [Standing.failing] using hw⟩
  | ok result =>
    obtain ⟨subscribers, hub⟩ := result
    have hsubscribers (subscriber : Subscriber) (hmem : subscriber ∈ subscribers) :
        subscriber.Overlooks o := by
      rw [Hub.subscribers_deliver hdeliver] at hmem
      cases subscriber with
      | forward => trivial
      | fold | foldProgram | listener =>
        exact hw.overlooks.subscribers _ (Hub.subscribed_of_reached hmem rfl)
    refine pairs_bind (pairs_set.2 (pairs_bind (pairs_modify.2 (pairs_bind ?_))))
    refine (blind_reduceAll session hs (hdispatch s hs) hpayload hsubscribers [] _ _
      ((hw.delivered hdeliver).report _ rfl)).mono ?_
    rintro _ v ⟨written, reduced⟩ v' ⟨rfl, -, hv⟩
    refine pairs_bind ((shadows_propagate session haside hs hdispatch written hv).mono ?_)
    rintro failures u failures' u' ⟨own, hadds, hu⟩
    have hs' : (s.failing own).settling = true := hs
    refine pairs_bind ((blind_notifyAll session hs' (hdispatch _ hs') hpayload hsubscribers u u'
      hu).mono ?_)
    rintro _ t notified t' ⟨rfl, -, ht⟩
    exact ⟨own, hadds.within reduced notified, ht⟩

theorem shadows_apply {change : Change} (hchange : change.Avoids o.id) (hw : o.Stands s w w') :
    Shadows o s (apply session hooks change) (apply session hooks change) w w' := by
  refine pairs_bind (pairs_modify.2 ?_)
  have hbegun := hw.begin (.applied change)
  cases change with
  | written cell => exact shadows_propagate session haside hs hdispatch [cell] hbegun
  | fired source payload =>
    exact shadows_deliver session haside hs hdispatch source hchange hbegun

theorem shadows_drain (bound : Nat) {change : Change} (hchange : change.Avoids o.id)
    (hw : o.Stands s w w') :
    Shadows o s (drain session hooks bound change) (drain session hooks bound change) w w' := by
  induction bound generalizing s w w' change with
  | zero => trivial
  | succ n ih =>
    refine pairs_bind ((shadows_apply session haside hs hdispatch hchange hw).mono ?_)
    rintro failures v failures' v' ⟨own, hadds, hv⟩
    refine pairs_bind (pairs_get.2 ?_)
    rw [hv.queue_eq]
    cases hqueue : v.queue with
    | nil => exact ⟨own, hadds, hv⟩
    | cons next queue =>
      have hwaiting : ∀ waiting ∈ next :: queue, waiting.Avoids o.id := hqueue ▸ hv.overlooks.queue
      obtain ⟨hnext, hrest⟩ := List.forall_mem_cons.1 hwaiting
      refine pairs_bind (pairs_set.2 (pairs_bind ?_))
      refine (ih (s := s.failing own) hs hnext (hv.queued hrest)).mono ?_
      rintro more u more' u' ⟨own', hadds', hu⟩
      rw [Standing.failing_failing] at hu
      exact ⟨own ++ own', hadds.append hadds', hu⟩

end Session

/-! ## Calls -/

/-- What a call replies in both states. It is refused in both, or its change is settled, and the
observer has failed in addition. -/
inductive ReplyAdds : List Failure → Except Failure Unit → Except Failure Unit → Prop where
  | refused (failure : Failure) : ReplyAdds [] (.error failure) (.error failure)
  | settled {own failures failures' : List Failure} (h : Adds own failures failures') :
    ReplyAdds own (Script.settled failures) (Script.settled failures')

/-- What a sequence of calls replies. The failures of the observer are those at one call after
another. -/
inductive RepliesAdd :
    List Failure → List (Except Failure Unit) → List (Except Failure Unit) → Prop where
  | nil : RepliesAdd [] [] []
  | cons {own own' : List Failure} {reply reply' : Except Failure Unit}
    {replies replies' : List (Except Failure Unit)} (h : ReplyAdds own reply reply')
    (hrest : RepliesAdd own' replies replies') :
    RepliesAdd (own ++ own') (reply :: replies) (reply' :: replies')

/-- The call does not mention the signal. -/
def Call.Avoids (x : SignalId) : Call → Prop
  | .set cell value => cell ≠ x ∧ value.Avoids x
  | .fire _ payload => payload.Avoids x

/-- Makes one call after another. -/
def Call.execAll (hooks : Hooks) : List Call → Exec (List (Except Failure Unit))
  | [] => return []
  | call :: rest => do
    let reply ← call.exec hooks
    return reply :: (← execAll hooks rest)

namespace Session

section

variable {session : Session} (hsession : session.Overlooks o) (haside : o.kind.StaysAside o)

include hsession haside

/-- Settling a change comes to the same but for failures of the observer. -/
theorem settle_pairs (hs : s.settling = false) (level bound : Nat) {change : Change}
    (hchange : change.Avoids o.id) (hw : o.Stands s w w') :
    (settle session (session.hooksAt level) bound change).Pairs
      (settle session (session.hooksAt level) bound change)
      (fun reply v reply' v' => ∃ own, ReplyAdds own reply reply' ∧ o.Stands (s.failing own) v v')
      w w' := by
  refine pairs_bind (pairs_modify.2 (pairs_bind ?_))
  have hdispatch (s : Standing) (hs : s.settling = true) (i : Instruction) (hi : o.performed i) :
      ((session.hooksAt level).dispatch i).Blind o s (ResultAvoids o.id) :=
    hsession.blind_dispatch hs level hi
  refine (shadows_drain session haside rfl hdispatch bound hchange (hw.settled true)).mono ?_
  rintro failures v failures' v' ⟨own, hadds, hv⟩
  have hlast := hv.settled false
  have hstanding : { ({ s with settling := true } : Standing).failing own with settling := false } =
      s.failing own := by
    rw [Standing.failing, Standing.failing, ← hs]
  rw [hstanding] at hlast
  have hreply := ReplyAdds.settled hadds
  refine pairs_bind (pairs_modify.2 ?_)
  dsimp only
  cases failures with
  | nil =>
    cases failures' with
    | nil => exact ⟨own, hreply, hlast⟩
    | cons failure' rest' =>
      -- Only the observer has failed, and the number of failures is reported in the second state.
      refine pairs_right (leaves_modify.2 ?_)
      refine ⟨own, hreply, hlast.unseen ⟨v'.document, _, rfl, rfl, ?_⟩⟩
      exact (World.failuresOf_log _ _ o.id).trans (List.append_nil _)
  | cons failure rest =>
    cases failures' with
    | nil => exact absurd hadds.kept (by simp)
    | cons failure' rest' =>
      exact pairs_bind (pairs_modify.2 ⟨own, hreply, hlast.report _ rfl⟩)

theorem request_pairs (hs : s.settling = false) (level : Nat) {change : Change}
    (hchange : change.Avoids o.id) (hw : o.Stands s w w') :
    (Exec.request (session.hooksAt level) change).Pairs (Exec.request (session.hooksAt level) change)
      (fun reply v reply' v' => ∃ own, ReplyAdds own reply reply' ∧ o.Stands (s.failing own) v v')
      w w' := by
  refine pairs_bind (pairs_get.2 ?_)
  have hcalm : ¬ w.settling = true := by simp [hw.settling, hs]
  rw [hw.settling_eq, if_neg hcalm, if_neg hcalm]
  cases level with
  | zero => trivial
  | succ n => exact settle_pairs hsession haside hs n n hchange hw

/-- A call comes to the same but for failures of the observer. -/
theorem call_pairs (hs : s.settling = false) (level : Nat) {call : Call} (hcall : call.Avoids o.id)
    (hw : o.Stands s w w') :
    (call.exec (session.hooksAt level)).Pairs (call.exec (session.hooksAt level))
      (fun reply v reply' v' => ∃ own, ReplyAdds own reply reply' ∧ o.Stands (s.failing own) v v')
      w w' := by
  have hrefused (failure : Failure) {v v' : World} (hv : o.Stands s v v') :
      ∃ own, ReplyAdds own (.error failure) (.error failure) ∧ o.Stands (s.failing own) v v' :=
    ⟨[], .refused failure, by simpa [Standing.failing] using hv⟩
  cases call with
  | set cell value =>
    obtain ⟨hcell, hvalue⟩ := hcall
    refine pairs_bind (pairs_get.2 ?_)
    rcases hw.graph.cases hcell with ⟨hnone, hnone'⟩ | ⟨node, node', hnode, hnode', hsame⟩
    · rw [Graph.node_eq_error.2 ⟨hnone, rfl⟩, Graph.node_eq_error.2 ⟨hnone', rfl⟩]
      exact hrefused _ hw
    · have hkind : node'.kind = node.kind := congrArg (·.kind) hsame
      rw [Graph.node_eq_ok.2 hnode, Graph.node_eq_ok.2 hnode']
      dsimp only
      rw [hkind]
      split
      · refine pairs_bind ((blind_write hcell hvalue w w' hw).mono ?_)
        rintro _ v reply v' ⟨rfl, -, hv⟩
        cases reply with
        | error failure => exact hrefused failure hv
        | ok _ => exact request_pairs hsession haside hs level hcell hv
      · exact hrefused _ hw
  | fire source payload =>
    refine pairs_bind (pairs_get.2 ?_)
    rw [hw.hub_eq]
    cases w.hub.get source with
    | error failure => exact hrefused failure hw
    | ok found => exact request_pairs hsession haside hs level hcall hw

/-- A sequence of calls comes to the same but for failures of the observer. -/
theorem calls_pairs (hs : s.settling = false) (level : Nat) {calls : List Call}
    (hcalls : ∀ call ∈ calls, call.Avoids o.id) (hw : o.Stands s w w') :
    (Call.execAll (session.hooksAt level) calls).Pairs (Call.execAll (session.hooksAt level) calls)
      (fun replies v replies' v' =>
        ∃ own, RepliesAdd own replies replies' ∧ o.Stands (s.failing own) v v') w w' := by
  induction calls generalizing s w w' with
  | nil => exact ⟨[], .nil, by simpa [Standing.failing] using hw⟩
  | cons call rest ih =>
    obtain ⟨hfirst, hrest⟩ := List.forall_mem_cons.1 hcalls
    refine pairs_bind ((call_pairs hsession haside hs level hfirst hw).mono ?_)
    rintro reply v reply' v' ⟨own, hreply, hv⟩
    refine pairs_bind ((ih (s := s.failing own) hs hrest hv).mono ?_)
    rintro replies u replies' u' ⟨own', hreplies, hu⟩
    rw [Standing.failing_failing] at hu
    exact ⟨own ++ own', .cons hreply hreplies, hu⟩

omit hsession haside in
/-- Between batches two states that a session can be in stand. -/
theorem Visits.stands (h : session.Visits w) (h' : session.Visits w') (hsettling : w.settling = false)
    (hbeside : o.Beside w w') :
    o.Stands ⟨false, w.graph.mark, w'.graph.mark, w'.failuresOf o.id⟩ w w' where
  toBeside := hbeside
  settling := hsettling
  wellFormed := h.wellFormed.now
  wellFormed' := h'.wellFormed.now
  wired := h.wired (.inl rfl)
  wired' := h'.wired (.inl rfl)
  mark_eq := rfl
  mark_eq' := rfl
  failures_eq := rfl

/-- **Observers do not interfere.** Wherever a session gets to while nothing is being settled, let a
second state have one more derived node or watch, which makes no call to the session and changes
nothing that others see, and let the nodes, reducers and listeners of the first state and the handlers
overlook it. Then any sequence of calls that write cells and fire sources comes to an end in both
states or in none, and afterwards every other node is the same: it has the same value, it has been
evaluated as often, and it is settled or not in both. All sources have had the same occurrences. The
failures that the calls reply are the same in the same order, but for those of the additional node:
these come in between, and the journal of the second state reports them as such. -/
theorem Visits.observer_aside (h : session.Visits w) (h' : session.Visits w')
    (hsettling : w.settling = false) (hbeside : o.Beside w w') (level : Nat) {calls : List Call}
    (hcalls : ∀ call ∈ calls, call.Avoids o.id) :
    (Call.execAll (session.hooksAt level) calls).Pairs (Call.execAll (session.hooksAt level) calls)
      (fun replies v replies' v' =>
        (∀ k, k ≠ o.id → (v'.graph.node? k).map Graph.unlinked = (v.graph.node? k).map Graph.unlinked) ∧
        v'.hub = v.hub ∧
        ∃ own, RepliesAdd own replies replies' ∧
          v'.failuresOf o.id = w'.failuresOf o.id ++ own) w w' := by
  have hstands := h.stands h' hsettling hbeside
  refine (calls_pairs hsession haside rfl level hcalls hstands).mono ?_
  rintro replies v replies' v' ⟨own, hreplies, hv⟩
  exact ⟨hv.graph.others, hv.hub_eq, own, hreplies, hv.failures_eq⟩

end

/-- A cell that holds what was clicked last, and a signal that follows it. -/
private def clicking : Script :=
  .ask (.source "clicks") fun (clicks : SourceId) =>
  .fold clicks (.bool false) (fun _ payload => .done (.ok payload)) fun _ =>
  .derive [.signal ⟨0⟩] (fun inputs => .done (.ok (inputs.headD .unit))) fun _ => .done (.ok .unit)

/-- A watch of the cell that fails on one value. -/
private def alarm : Observer Document where
  id := ⟨2⟩
  kind := .watch (.signal ⟨0⟩) fun
    | .bool true => .done (.error (.raised (.bool true)))
    | _ => .done (.ok .unit)
  view document := document
  performed _ := False

private def clicked : World := (advance {} 0 clicking {}).2

private def watched : World :=
  (create alarm.kind alarm.kind.dependencies (computation {} (hooksAt {} 0) alarm.kind) clicked).2

private theorem alarm_staysAside : alarm.kind.StaysAside alarm := by
  intro value
  dsimp only
  split <;> exact .done _

private theorem clicked_overlooks : clicked.Overlooks alarm where
  values := by
    rintro ⟨_ | _ | k⟩ node hnode
    · obtain rfl := Option.some.inj (show some _ = some node from hnode)
      exact List.not_mem_nil
    · obtain rfl := Option.some.inj (show some _ = some node from hnode)
      exact List.not_mem_nil
    · cases hnode
  kinds := by
    rintro ⟨_ | _ | k⟩ node hnode
    · obtain rfl := Option.some.inj (show some _ = some node from hnode)
      trivial
    · obtain rfl := Option.some.inj (show some _ = some node from hnode)
      exact fun inputs hinputs => .done (replyAvoids_ok (Value.avoids_headD hinputs))
    · cases hnode
  subscribers := by
    rintro subscriber ⟨source, hsource, hmem⟩
    have hsources : clicked.hub.sources =
        #[⟨"clicks", [.fold ⟨0⟩ fun _ payload => .done (.ok payload)], 0⟩] := rfl
    rw [hsources, List.mem_toArray, List.mem_singleton] at hsource
    subst hsource
    obtain rfl := List.mem_singleton.1 hmem
    exact ⟨by decide, fun _ payload _ hpayload => .done (replyAvoids_ok hpayload)⟩
  queue _ hchange := absurd hchange List.not_mem_nil
  document := by
    intro id element hget
    cases Document.get_eq_ok.1 hget

/-- Both states can be reached, and the second one has the watch in addition. -/
private theorem watched_beside :
    Visits {} clicked ∧ Visits {} watched ∧ alarm.Beside clicked watched := by
  have hclicked : Reachable {} clicked := .run (.start .empty #[]) (rfl : execute {} 0 clicking {} = _)
  have hcreated : create alarm.kind alarm.kind.dependencies (computation {} (hooksAt {} 0) alarm.kind)
      clicked = (some (.ok alarm.id), watched) := rfl
  have hvisits := hclicked.visits
  have hbeside := (create_observer {} (hooksAt {} 0) alarm_staysAside hvisits.wellFormed.now
    (hvisits.wired (.inl rfl)) rfl clicked_overlooks).of_eq_some hcreated
  refine ⟨hvisits, Reachable.visits ?_, (hbeside _ rfl).2⟩
  have hrun : execute {} 0 (.watch (.signal ⟨0⟩) (fun
    | .bool true => .done (.error (.raised (.bool true)))
    | _ => .done (.ok .unit)) fun _ => .done (.ok .unit)) clicked = some (.ok .unit, watched) := rfl
  exact .run hclicked hrun

/-- The calls that are made in both states, and what they reply. -/
private theorem clicked_run : ∃ v v',
    Call.execAll (hooksAt {} 3) [.fire ⟨0⟩ (.bool true), .set ⟨0⟩ (.bool false)] clicked =
      (some [.ok (), .ok ()], v) ∧
    Call.execAll (hooksAt {} 3) [.fire ⟨0⟩ (.bool true), .set ⟨0⟩ (.bool false)] watched =
      (some [.error (.propagation [.uncaught (.bool true)]), .ok ()], v') ∧
    v'.failuresOf ⟨2⟩ = [.uncaught (.bool true)] := by
  rcases hcalls : Call.execAll (hooksAt {} 3) [.fire ⟨0⟩ (.bool true), .set ⟨0⟩ (.bool false)] clicked
    with ⟨replies, v⟩
  rcases hcalls' : Call.execAll (hooksAt {} 3) [.fire ⟨0⟩ (.bool true), .set ⟨0⟩ (.bool false)] watched
    with ⟨replies', v'⟩
  have hended := hcalls
  cbv at hended
  obtain ⟨rfl, -⟩ := Prod.mk.inj hended
  have hended' := hcalls'
  cbv at hended'
  obtain ⟨rfl, hlast⟩ := Prod.mk.inj hended'
  refine ⟨v, v', rfl, rfl, ?_⟩
  rw [← hlast]
  rfl

theorem Visits.observer_aside_alarm : ∃ w w' v v', Visits {} w ∧ Visits {} w' ∧ alarm.Beside w w' ∧
    Call.execAll (hooksAt {} 3) [.fire ⟨0⟩ (.bool true), .set ⟨0⟩ (.bool false)] w =
      (some [.ok (), .ok ()], v) ∧
    Call.execAll (hooksAt {} 3) [.fire ⟨0⟩ (.bool true), .set ⟨0⟩ (.bool false)] w' =
      (some [.error (.propagation [.uncaught (.bool true)]), .ok ()], v') ∧
    (∀ k, k ≠ ⟨2⟩ → (v'.graph.node? k).map Graph.unlinked = (v.graph.node? k).map Graph.unlinked) ∧
    v'.hub = v.hub ∧ v'.failuresOf ⟨2⟩ = [.uncaught (.bool true)] := by
  obtain ⟨hvisits, hvisits', hbeside⟩ := watched_beside
  obtain ⟨v, v', hcalls, hcalls', hfailures⟩ := clicked_run
  have hsession : Overlooks {} alarm := fun _ _ hperformed => hperformed.elim
  have havoids : ∀ call ∈ [Call.fire ⟨0⟩ (.bool true), .set ⟨0⟩ (.bool false)],
      call.Avoids alarm.id := by
    intro call hcall
    rcases List.mem_cons.1 hcall with rfl | hcall
    · exact List.not_mem_nil
    · obtain rfl := List.mem_singleton.1 hcall
      exact ⟨by decide, List.not_mem_nil⟩
  have haside := hvisits.observer_aside hsession alarm_staysAside hvisits' rfl hbeside 3 havoids
  obtain ⟨hnodes, hhub, -⟩ := (pairs_of_eq_some hcalls hcalls').1 haside
  exact ⟨clicked, watched, v, v', hvisits, hvisits', hbeside, hcalls, hcalls', hnodes, hhub, hfailures⟩

end Session

end EffectGraph
