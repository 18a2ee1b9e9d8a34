import EffectGraph.Proofs.Session.Batches
import EffectGraph.Proofs.Session.Stages

/-!
# What a batch upholds

A batch applies one change after another, and applying a change runs jobs one after another and makes
a pass over the graph. So a property of states holds at the end of a batch if each of these keeps it
(`Session.Upholds`). Passes may be known to keep it only if their failures are mild, say if there are
none; then it holds at the end if the failures of all changes are.
-/

namespace EffectGraph

open Exec World

namespace Session

variable {session : Session} {hooks : Hooks} {fit : Job → Prop} {mild : List Failure → Prop}
  {J : World → Prop} {w w' : World}

/-- Whatever a batch does while it settles changes keeps the property. The reducers and listeners that
it runs are fit for that. -/
structure Upholds (session : Session) (hooks : Hooks) (fit : Job → Prop)
    (mild : List Failure → Prop) (J : World → Prop) : Prop where
  wellFormed : ∀ {w}, J w → w.toScene.WellFormed
  settling : ∀ {w}, J w → w.settling = true
  logged : ∀ {w w'}, J w → Logs w w' → J w'
  applied : ∀ {w}, J w → ∀ change, J (w.begin (.applied change))
  dequeued : ∀ {w}, J w → ∀ queue, J { w with queue }
  counted : ∀ {w source subscribers hub}, J w → w.hub.deliver source = .ok (subscribers, hub) →
    J { w with hub }
  served : ∀ {w source subscribers hub}, J w → w.hub.deliver source = .ok (subscribers, hub) →
    ∀ s ∈ subscribers, ∀ payload job, s.reducing? payload = some job ∨ s.listening? payload = some job →
      fit job
  ran : ∀ {w job result w'}, J w → job.IsReaction w.graph → fit job →
    runJob session hooks job w = (some result, w') → J w'
  passed : ∀ {w roots failures w'}, J w → (∀ root ∈ roots, w.graph.OnlyEver (· = .cell) root) →
    propagate session hooks roots w = (some failures, w') → mild failures → J w'

/-- The jobs that are run one after another keep the property. -/
theorem InTurn.upheld {attempts : List Attempt} (h : session.InTurn hooks w attempts w')
    (hup : session.Upholds hooks fit mild J) (htracks : Tracks hooks WorksOn fun _ _ => True)
    (hjobs : ∀ a ∈ attempts, a.job.IsReaction w.graph ∧ fit a.job) (hw : J w) : J w' := by
  induction h with
  | nil hlogs => exact hup.logged hw hlogs
  | @cons w w' a rest hlogs hran _ ih =>
    have hstart := hup.logged hw hlogs
    have hlogged := (Works.of_logs hlogs (hup.settling hw)).follows
    obtain ⟨hreacts, hfit⟩ := hjobs a List.mem_cons_self
    have hjob := hreacts.follows hlogged
    obtain ⟨-, since, hworks⟩ := (runJob_works hjob (hup.settling hstart) htracks).of_eq_some hran
    refine ih (fun b hb => ?_) (hup.ran hstart hjob hfit hran)
    obtain ⟨hother, hfit'⟩ := hjobs b (List.mem_cons_of_mem _ hb)
    exact ⟨(hother.follows hlogged).follows hworks.follows, hfit'⟩

/-- What reducers have written are cells. -/
theorem ReducesAll.cells {jobs : List Job} {reductions : List Attempt} {written : List SignalId}
    (h : session.ReducesAll hooks jobs [] w reductions written w')
    (hjobs : ∀ a ∈ reductions, a.job.IsReaction w.graph) (hfollows : Follows w w') :
    ∀ root ∈ written, w'.graph.OnlyEver (· = .cell) root := by
  intro root hroot
  obtain ⟨a, ha, -, htarget⟩ := ((h.written_iff root).1 hroot).resolve_left List.not_mem_nil
  obtain ⟨r, hr, rfl⟩ := Option.map_eq_some_iff.1 htarget
  exact ((hjobs a ha).cell r hr).follows hfollows

section

variable (hup : session.Upholds hooks fit mild J) (htracks : Tracks hooks WorksOn fun _ _ => True)
  (hmild : ∀ {before failures after}, mild (before ++ failures ++ after) → mild failures)

include hup htracks hmild

/-- Delivering an occurrence runs its reducers, makes a pass and runs its listeners. -/
theorem deliver_upheld (source : SourceId) (payload : Value) (hw : J w) :
    (deliver session hooks source payload).Leaves
      (fun failures w' => (w.QueuesCells → w'.QueuesCells) ∧ (mild failures → J w')) (fun _ => True)
      w := by
  cases hdeliver : w.hub.deliver source with
  | error failure =>
    refine leaves_bind.2 (leaves_get.2 ?_)
    rw [hdeliver]
    exact leaves_pure.2 ⟨id, fun _ => hw⟩
  | ok result =>
    obtain ⟨subscribers, hub⟩ := result
    have hcells : w.graph.TargetsCells subscribers := (hup.wellFormed hw).targetsCells hdeliver
    refine (deliver_leaves hdeliver hcells (hup.settling hw) htracks).imp ?_ fun _ _ => trivial
    rintro failures w' ⟨d, rfl, hd⟩
    have hreducing : ∀ a ∈ d.reductions, a.job ∈ subscribers.filterMap (·.reducing? payload) := by
      intro a ha
      rw [← hd.reduces.jobs_eq]
      exact List.mem_map_of_mem ha
    have hlistening : ∀ a ∈ d.notifications, a.job ∈ subscribers.filterMap (·.listening? payload) := by
      intro a ha
      rw [← hd.listens]
      exact List.mem_map_of_mem ha
    have hreactions : ∀ a ∈ d.reductions, a.job.IsReaction w.graph := fun a ha =>
      isReaction_of_reducing hcells (hreducing a ha)
    obtain ⟨-, since₁, hreduced⟩ := hd.reduces.ran.works hreactions
      (hup.settling (hup.counted hw hdeliver)) htracks
    obtain ⟨-, since₂, hpassed⟩ := (propagate_works hreduced.settling_eq htracks).of_eq_some hd.passes
    obtain ⟨-, since₃, hnotified⟩ := hd.notified.works
      (fun a ha => isReaction_of_listening (hlistening a ha)) hpassed.settling_eq htracks
    refine ⟨fun hqueued => hnotified.cells (hpassed.cells (hreduced.cells hqueued)),
      fun hfailures => ?_⟩
    have hreducedUp : J d.reduced := by
      refine hd.reduces.ran.upheld hup htracks (fun a ha => ⟨hreactions a ha, ?_⟩)
        (hup.counted hw hdeliver)
      obtain ⟨s, hs, hjob⟩ := List.mem_filterMap.1 (hreducing a ha)
      exact hup.served hw hdeliver s hs payload a.job (.inl hjob)
    have hpassedUp : J d.passed :=
      hup.passed hreducedUp (hd.reduces.cells hreactions hreduced.follows) hd.passes (hmild hfailures)
    refine hd.notified.upheld hup htracks (fun a ha => ?_) hpassedUp
    obtain ⟨s, hs, hjob⟩ := List.mem_filterMap.1 (hlistening a ha)
    exact ⟨isReaction_of_listening (hlistening a ha),
      hup.served hw hdeliver s hs payload a.job (.inr hjob)⟩

theorem apply_upheld {change : Change}
    (hcells : ∀ cell ∈ change.roots, w.graph.OnlyEver (· = .cell) cell) (hw : J w) :
    (apply session hooks change).Leaves
      (fun failures w' => (w.QueuesCells → w'.QueuesCells) ∧ (mild failures → J w')) (fun _ => True)
      w := by
  refine leaves_bind.2 (leaves_modify.2 ?_)
  have hbegun : J (w.begin (.applied change)) := hup.applied hw change
  cases change with
  | written cell =>
    refine ((propagate_works (hup.settling hbegun) htracks).and (leaves_self _ _)).imp ?_
      fun _ _ => trivial
    rintro failures w' ⟨⟨-, since, hpassed⟩, hran⟩
    exact ⟨hpassed.cells, hup.passed hbegun hcells hran⟩
  | fired source payload => exact deliver_upheld hup htracks hmild source payload hbegun

/-- What every change keeps holds when no change waits any more. All writes that are requested are
writes of cells. -/
theorem Drains.upheld {change : Change} {applications : List Application}
    (h : session.Drains hooks change w applications w') (hw : J w) (hqueued : w.QueuesCells)
    (hcells : ∀ cell ∈ change.roots, w.graph.OnlyEver (· = .cell) cell)
    (hfailures : ∀ a ∈ applications, mild a.failures) : J w' := by
  induction h with
  | @last a happlies _ =>
    exact ((apply_upheld hup htracks hmild hcells hw).of_eq_some happlies.ran).2
      (hfailures a List.mem_cons_self)
  | @next a rest next queue w' happlies hqueue _ ih =>
    obtain ⟨hkept, hfinal⟩ := (apply_upheld hup htracks hmild hcells hw).of_eq_some happlies.ran
    have hlater : a.final.QueuesCells := hkept hqueued
    refine ih (hup.dequeued (hfinal (hfailures a List.mem_cons_self)) queue) (fun cell hcell => ?_)
      (fun cell hcell => ?_) fun b hb => hfailures b (List.mem_cons_of_mem _ hb)
    · refine hlater cell ?_
      rw [hqueue]
      exact List.mem_cons_of_mem _ hcell
    · cases next with
      | fired source payload => exact absurd hcell List.not_mem_nil
      | written written =>
        rw [List.mem_singleton.1 hcell]
        refine hlater written ?_
        rw [hqueue]
        exact List.mem_cons_self

/-- What a batch upholds holds when it has settled its changes. -/
theorem Settles.upheld {w₀ : World} {change : Change} {result : Except Failure Unit}
    (h : session.Settles hooks w₀ change w result w') (hqueue : w.queue = [])
    (hcells : ∀ cell ∈ change.roots, w.graph.OnlyEver (· = .cell) cell)
    (hw : J { w with settling := true })
    (hresult : ∀ failures, result = Script.settled failures → mild failures) :
    ∃ last taken, w' = { last with settling := false, journal := w'.journal } ∧ last.queue = [] ∧
      Spans [] taken w₀ last ∧ J last := by
  obtain ⟨applications, last, hempty, hlast, hdrains, hspans, hsettled⟩ := h
  refine ⟨last, _, hlast, hempty, hspans, ?_⟩
  refine hdrains.upheld hup htracks hmild hw (fun cell hcell => ?_) hcells fun a ha => ?_
  · have hnone : .written cell ∈ w.queue := hcell
    rw [hqueue] at hnone
    exact absurd hnone List.not_mem_nil
  · have hall := hresult _ hsettled
    obtain ⟨before, after, rfl⟩ := List.append_of_mem ha
    rw [List.flatMap_append, List.flatMap_cons, ← List.append_assoc] at hall
    exact hmild hall

end

/-- Every reducer and listener keeps what scripts, the starts of reducers and listeners, and writes of
cells keep. -/
theorem runJob_keeps {R E : World → World → Prop} (htracks : Calls.all.Tracks hooks R E)
    (hled : ∀ {w w'}, R w w' → J w → J w')
    (hreducing : ∀ {w} target current payload, J w → J (w.begin (.reducing target current payload)))
    (hlistening : ∀ {w} payload, J w → J (w.begin (.listening payload)))
    (hwritten : ∀ {w cell value graph}, J w → w.graph.IsCell cell →
      w.graph.settle cell value = .ok graph → J (World.begin { w with graph } (.wrote cell value)))
    {job : Job} (hjob : job.IsReaction w.graph) (hw : J w) :
    (runJob session hooks job).Leaves (fun _ w' => J w') (fun _ => True) w := by
  have hscript (script : Script) (activity : Activity) (hbegun : J (w.begin activity)) :
      (script.exec session hooks).Leaves (fun _ w' => Follows w w' ∧ J w') (fun _ => True)
        (w.begin activity) := by
    refine (script.makes_all.exec_tracked session htracks _).imp (fun _ w₁ hran => ?_)
      fun _ _ => trivial
    exact ⟨(Steps.follows (steps_begin w activity)).trans (htracks.follows hran), hled hran hbegun⟩
  cases hr : job.reducer? with
  | some r =>
    refine runJob_leaves hr (fun _ => hw) fun node hnode => ?_
    refine (hscript _ _ (hreducing r.target node.value r.payload hw)).mono
      fun result w₁ ⟨hfollows, hdone⟩ => ?_
    cases r.next w₁.graph result with
    | error failure => exact leaves_pure.2 hdone
    | ok value =>
      refine write_leaves (fun graph hstore => ?_) fun _ _ => hdone
      obtain ⟨⟨target, htarget⟩, -⟩ := Graph.settle_eq_ok.1 hstore
      have hcell := ((hjob.cell r hr).follows hfollows).2 target htarget
      exact hwritten hdone ⟨target, htarget, hcell⟩ hstore
  | none =>
    cases job with
    | node id => exact absurd rfl (hjob.reacts id)
    | fold | foldProgram => cases hr
    | listener listener payload =>
      refine runJob_listener_leaves ?_
      exact (hscript _ _ (hlistening payload hw)).mono fun _ w₁ hran _ => hran.2

/-- A batch upholds what only the graph and the past decide, if scripts, the starts of jobs, writes of
cells and passes keep it. -/
theorem upholds_of_past {R E : World → World → Prop} (htracks : Calls.all.Tracks hooks R E)
    (hwellFormed : ∀ {w}, J w → w.toScene.WellFormed) (hsettling : ∀ {w}, J w → w.settling = true)
    (hsame : ∀ {w w'}, J w → Steps w w' → w'.settling = w.settling → w'.past = w.past →
      w'.graph = w.graph → J w')
    (happlied : ∀ {w} change, J w → J (w.begin (.applied change)))
    (hled : ∀ {w w'}, R w w' → J w → J w')
    (hreducing : ∀ {w} target current payload, J w → J (w.begin (.reducing target current payload)))
    (hlistening : ∀ {w} payload, J w → J (w.begin (.listening payload)))
    (hwritten : ∀ {w cell value graph}, J w → w.graph.IsCell cell →
      w.graph.settle cell value = .ok graph → J (World.begin { w with graph } (.wrote cell value)))
    (hpassed : ∀ {w roots failures w'}, J w → (∀ root ∈ roots, w.graph.OnlyEver (· = .cell) root) →
      propagate session hooks roots w = (some failures, w') → mild failures → J w') :
    session.Upholds hooks (fun _ => True) mild J where
  wellFormed := hwellFormed
  settling := hsettling
  logged {w w'} h hlogs := by
    obtain ⟨journal, rfl⟩ := hlogs
    exact hsame h (.single (.host w w.document journal)) rfl rfl rfl
  applied h change := happlied change h
  dequeued {w} h queue := hsame h (.single (.enqueue w queue)) rfl rfl rfl
  counted h hdeliver := hsame h (.single (.deliver hdeliver)) rfl rfl rfl
  served _ _ _ _ _ _ _ := trivial
  ran h hjob _ hran :=
    (runJob_keeps htracks hled hreducing hlistening hwritten hjob h).of_eq_some hran
  passed := hpassed

end Session

end EffectGraph
