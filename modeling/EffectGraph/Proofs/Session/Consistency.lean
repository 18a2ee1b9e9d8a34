import Mathlib
import EffectGraph.Proofs.Session.Rounds
import EffectGraph.Proofs.Session.Reachable

/-!
# What can be relied on

Between scripts everything derived is current (`Reachable.current_between_scripts`). Within a batch
it need not be. A write is stored at once but waits for its pass, and a pass that starts from another
cell may come before it; then a computation can be given the new value of a cell next to what was
derived from the old one (`inputs_torn`). Writes that an input has not read yet are the only reason
for this, also in a batch that never ends (`Visits.inputs_current_or_unread`). The same goes for what
reducers and listeners find when they start (`Visits.observed_current_or_unread`,
`observed_half_settled`).
-/

namespace EffectGraph

/-- A reducer or a listener starts. -/
def Activity.IsReaction : Activity → Prop
  | .reducing .. | .listening _ => True
  | _ => False

namespace Session

variable {session : Session} {w : World}

/-- Between scripts no pass is still to come. -/
theorem Reachable.sound (h : session.Reachable w) (hpure : session.PureSoFar w.past) :
    session.Sound [] [] w ∧ w.settling = false := by
  induction h with
  | start document journal =>
    refine ⟨⟨World.wellFormed_start document journal, .empty, fun id node hnode => ?_, ?_, ?_,
      fun _ => rfl, trivial⟩, rfl⟩
    · simp at hnode
    · exact fun _ hcell => absurd hcell List.not_mem_nil
    · rintro cell (hroot | hwaits | hopen)
      · exact absurd hroot List.not_mem_nil
      · exact absurd hwaits List.not_mem_nil
      · exact absurd hopen List.not_mem_nil
  | run _ hrun ih =>
    rename_i w w' level script result _
    have hsuffix := (World.Steps.follows (session.execute_steps hrun)).past_suffix
    obtain ⟨hsound, hcalm⟩ := ih (hpure.of_suffix hsuffix)
    have hsteady := Script.exec_steady (session.hooksAt_steady level) script
    have hleft := (hsteady.sound hsound).of_eq_some (session.advance_eq_of_execute_eq hrun)
    obtain ⟨hsound', hsettling⟩ := hleft hpure
    exact ⟨hsound', hsettling.trans hcalm⟩

/-- All moments that a session gets to are good. -/
theorem Visits.allGood (h : session.Visits w) (hpure : session.PureSoFar w.past) :
    session.AllGood w.past := by
  obtain ⟨w₀, level, script, hreach, rfl⟩ := h
  have hsuffix := (session.advance_steps level script w₀).follows.past_suffix
  have hsound := (hreach.sound (hpure.of_suffix hsuffix)).1
  have hsteady := Script.exec_steady (session.hooksAt_steady level) script
  have hgood := (hsteady.sound hsound).imp (fun _ _ hleft hpure => (hleft hpure).1.allGood)
    fun _ hbroken => hbroken
  exact hgood.left hpure

/-! ## A write overtaken by a pass -/

/-- A computation that lists its inputs. -/
private def listing (inputs : List Value) : Script := .done (.ok (.list inputs))

private theorem isPure_listing (session : Session) : session.IsPure listing := by
  refine ⟨fun inputs => .ok (.list inputs), fun inputs level w => ⟨fun result hresult => ?_, ?_⟩⟩
  · exact (Option.some.inj hresult).symm
  · exact ⟨w.journal, rfl⟩

private theorem eq_of_yields_listing {session : Session} {inputs : List Value}
    {result : Except Interrupt Value} (h : session.Yields (listing inputs) result) :
    result = .ok (.list inputs) := by
  obtain ⟨level, w, w', hrun⟩ := h
  cases hrun
  rfl

/-- A past is pure if everything derived lists its inputs. -/
private theorem pureSoFar_of_listing {session : Session} {past : List Moment}
    (h : ∀ m ∈ past, ∀ slot ∈ m.scene.value.graph.slots.toList, ∀ node, slot = some node →
      ∀ operands compute, node.kind = .derived operands compute → compute = listing) :
    session.PureSoFar past := by
  intro m hm id node operands compute hnode hkind
  rw [h m hm _ (Graph.mem_slots_of_node? hnode) node rfl operands compute hkind]
  exact isPure_listing session

/-- Two cells are listed together with what is derived from the first one. Then a listener writes
the second cell, and the first one after it. -/
private def overtaking : Script :=
  .ask (.cell (.bool false)) fun (first : SignalId) =>
  .ask (.cell (.bool false)) fun (second : SignalId) =>
  .derive [.signal first] listing fun derived =>
  match derived with
  | .error interrupt => .done (.error interrupt)
  | .ok derived =>
    .derive [.signal second, .signal first, derived] listing fun _ =>
    .ask (.source "") fun (source : SourceId) =>
    .listen source (fun _ =>
      .set second (.bool true) fun _ =>
      .set first (.bool true) fun _ => .done (.ok .unit)) fun _ =>
    .fire source .unit fun _ => .done (.ok .unit)

/-- Both cells have been written, and are listed next to what was derived from the first one. -/
private structure Lists (m : Moment) (derived : Bool) : Prop where
  activity : m.activity = .evaluating ⟨3⟩ [.bool true, .bool true, .list [.bool derived]]
  node : ∃ node, m.scene.value.graph.node? ⟨3⟩ = some node ∧ ⟨2⟩ ∈ node.inputs
  input : ∃ input, m.scene.value.graph.node? ⟨2⟩ = some input ∧
    input.kind = .derived [.signal ⟨0⟩] listing ∧ input.value = .list [.bool derived]
  first : m.scene.value.graph.resolve (.signal ⟨0⟩) = .ok (.bool true)

/-- The pass of the second cell comes first and finds the derived signal as it was. The pass of the
first cell mends that. -/
private theorem overtaking_run : ∃ w last before,
    execute {} 4 overtaking {} = some (.ok .unit, w) ∧ PureSoFar {} w.past ∧
      (∃ node, w.graph.node? ⟨2⟩ = some node ∧ node.kind = .derived [.signal ⟨0⟩] listing) ∧
        w.past = last :: before ∧ Lists last true ∧ unread ⟨2⟩ before = [] ∧
          ∃ torn ∈ before, Lists torn false := by
  cases hrun : execute {} 4 overtaking {} with
  | none => cbv at hrun; contradiction
  | some ended =>
    cbv at hrun
    obtain rfl := Option.some.inj hrun
    refine ⟨_, _, _, rfl, pureSoFar_of_listing ?_, ⟨_, rfl, rfl⟩, rfl, ⟨rfl, ?_, ?_, ?_⟩, rfl, _,
      .tail _ (.tail _ (.tail _ (.head _))), ⟨rfl, ?_, ?_, ?_⟩⟩
    all_goals simp only [Ghost.value_mk]
    · simp
    · exact ⟨_, rfl, by simp⟩
    · exact ⟨_, rfl, rfl, rfl⟩
    · rfl
    · exact ⟨_, rfl, by simp⟩
    · exact ⟨_, rfl, rfl, rfl⟩
    · rfl

/-! ## Writes seen before their passes -/

/-- A cell folded over a source and what is derived from it, with a second fold after the first one;
and another cell and what is derived from it, with a listener that writes the cell before a second
listener. -/
private def observing : Script :=
  .ask (.source "") fun (source : SourceId) =>
  .fold source (.bool false) (fun _ payload => .done (.ok payload)) fun first =>
  match first with
  | .error failure => .done (.error (.ofFailure failure))
  | .ok first =>
    .derive [.signal first] listing fun _ =>
    .fold source (.bool false) (fun _ payload => .done (.ok payload)) fun _ =>
    .ask (.cell (.bool false)) fun (cell : SignalId) =>
    .derive [.signal cell] listing fun _ =>
    .listen source (fun _ => .set cell (.bool true) fun _ => .done (.ok .unit)) fun _ =>
    .listen source (fun _ => .done (.ok .unit)) fun _ =>
    .fire source (.bool true) fun _ => .done (.ok .unit)

/-- The signal lists the value of the cell, but not the one that the cell has. -/
private structure IsStale (graph : Graph) (id cell : SignalId) : Prop where
  node : ∃ node, graph.node? id = some node ∧ node.kind = .derived [.signal cell] listing ∧
    node.value = .list [.bool false]
  cell : graph.resolve (.signal cell) = .ok (.bool true)

private theorem IsStale.not_isCurrent {session : Session} {graph : Graph} {id cell : SignalId}
    (h : IsStale graph id cell) : ∃ node, graph.node? id = some node ∧
      ¬ session.IsCurrent graph node := by
  obtain ⟨node, hnode, hkind, hvalue⟩ := h.node
  refine ⟨node, hnode, fun hcurrent => ?_⟩
  obtain ⟨inputs, hinputs, hyields⟩ := hcurrent _ _ hkind
  obtain rfl : [Value.bool true] = inputs := by
    simp only [List.mapM_cons, h.cell, List.mapM_nil] at hinputs
    exact Except.ok.inj hinputs
  rcases hyields with hyields | ⟨interrupt, hyields⟩
  · rw [hvalue] at hyields
    have heq := eq_of_yields_listing hyields
    simp at heq
  · cases eq_of_yields_listing hyields

/-- The second reducer starts after the first one has written its cell, and before the pass. The
second listener starts after the first one has written a cell whose pass waits in the queue. -/
private theorem observing_run : ∃ w later settled earlier,
    execute {} 4 observing {} = some (.ok .unit, w) ∧ PureSoFar {} w.past ∧
      (w.past = later ++ settled :: earlier ∧ settled.activity = .listening (.bool true) ∧
        unread ⟨1⟩ earlier = [] ∧ ∃ node, settled.scene.value.graph.node? ⟨1⟩ = some node ∧
          node.kind = .derived [.signal ⟨0⟩] listing) ∧
      (∃ m ∈ w.past, m.activity = .reducing ⟨2⟩ (.bool false) (.bool true) ∧
        IsStale m.scene.value.graph ⟨1⟩ ⟨0⟩) ∧
      ∃ m ∈ w.past, m.activity = .listening (.bool true) ∧
        IsStale m.scene.value.graph ⟨4⟩ ⟨3⟩ := by
  cases hrun : execute {} 4 observing {} with
  | none => cbv at hrun; contradiction
  | some ended =>
    cbv at hrun
    obtain rfl := Option.some.inj hrun
    refine ⟨_, [_, _, _, _, _, _], _, _, rfl, pureSoFar_of_listing ?_, ⟨rfl, rfl, rfl, ?_⟩,
      ⟨_, List.mem_of_getElem? (i := 10) rfl, rfl, ?_, ?_⟩,
      ⟨_, List.mem_of_getElem? (i := 3) rfl, rfl, ?_, ?_⟩⟩
    all_goals simp only [Ghost.value_mk]
    · simp
    · exact ⟨_, rfl, rfl⟩
    · exact ⟨_, rfl, rfl, rfl⟩
    · rfl
    · exact ⟨_, rfl, rfl, rfl⟩
    · rfl

/-! ## What holds, and what does not -/

/-- **Everything derived is current between scripts.** Nothing is being settled and nothing waits
then, and each derived node holds what its computation gives for the values that its inputs have
now, or the computation fails on these. -/
theorem Reachable.current_between_scripts (h : session.Reachable w) (hpure : session.PureSoFar w.past) :
    w.settling = false ∧ w.queue = [] ∧
      ∀ id node, w.graph.node? id = some node → session.IsCurrent w.graph node := by
  obtain ⟨hsound, hcalm⟩ := h.sound hpure
  have hqueue := hsound.calm hcalm
  exact ⟨hcalm, hqueue, fun id node hnode => hsound.current hqueue hnode⟩

theorem Reachable.current_between_scripts_overtaking : ∃ w node operands compute, Reachable {} w ∧
    PureSoFar {} w.past ∧ w.graph.node? ⟨2⟩ = some node ∧ node.kind = .derived operands compute ∧
      IsCurrent {} w.graph node := by
  obtain ⟨w, last, before, hrun, hpure, ⟨node, hnode, hkind⟩, -⟩ := overtaking_run
  have hreach : Reachable {} w := .run (.start .empty #[]) hrun
  obtain ⟨-, -, hcurrent⟩ := Reachable.current_between_scripts hreach hpure
  exact ⟨w, node, _, _, hreach, hpure, hnode, hkind, hcurrent _ node hnode⟩

/-- **The inputs of computations and effects are current, but for writes not read.** Whenever one
of them starts, it is given the values that the inputs of its node have at that moment. Each of
these inputs is current, unless it reads a cell that was written after the input had last been
computed, and no pass has started from the cell since. -/
theorem Visits.inputs_current_or_unread (h : session.Visits w) (hpure : session.PureSoFar w.past)
    {later earlier : List Moment} {m : Moment} (hpast : w.past = later ++ m :: earlier)
    {id : SignalId} {inputs : List Value} (hactivity : m.activity = .evaluating id inputs) :
    ∃ node, m.scene.value.graph.node? id = some node ∧
      m.scene.value.graph.inputsOf node.kind = .ok inputs ∧
      ∀ p ∈ node.inputs, ∀ input, m.scene.value.graph.node? p = some input →
        session.IsCurrent m.scene.value.graph input ∨
          ∃ cell ∈ input.inputs, cell ∈ unread p earlier := by
  have hgood := (h.allGood hpure).isGood hpast
  simp only [IsGood, hactivity] at hgood
  obtain ⟨node, hnode, hinputs, hcurrent⟩ := hgood
  refine ⟨node, hnode, hinputs, fun p hp input hinput => ?_⟩
  by_cases hread : HasRead earlier p input
  · exact .inl (hcurrent p hp input hinput hread)
  · unfold HasRead at hread
    push Not at hread
    exact .inr hread

theorem Visits.inputs_current_or_unread_overtaking : ∃ w last before, Visits {} w ∧
    PureSoFar {} w.past ∧ w.past = last :: before ∧
      last.activity = .evaluating ⟨3⟩ [.bool true, .bool true, .list [.bool true]] ∧
        ∃ input, last.scene.value.graph.node? ⟨2⟩ = some input ∧
          IsCurrent {} last.scene.value.graph input := by
  obtain ⟨w, last, before, hrun, hpure, -, hpast, hlast, hread, -⟩ := overtaking_run
  have hreach : Reachable {} w := .run (.start .empty #[]) hrun
  obtain ⟨node, hnode, hmem⟩ := hlast.node
  obtain ⟨input, hinput, -⟩ := hlast.input
  have hsplit : w.past = [] ++ last :: before := hpast
  obtain ⟨node', hnode', -, hinputs⟩ :=
    Visits.inputs_current_or_unread hreach.visits hpure hsplit hlast.activity
  obtain rfl := Option.some.inj (hnode.symm.trans hnode')
  refine ⟨w, last, before, hreach.visits, hpure, hpast, hlast.activity, input, hinput, ?_⟩
  refine (hinputs _ hmem input hinput).resolve_right fun ⟨cell, _, hunread⟩ => ?_
  rw [hread] at hunread
  exact absurd hunread List.not_mem_nil

/-- A computation can be given the new value of a cell next to what was derived from the old one. -/
theorem inputs_torn : ∃ w, Reachable {} w ∧ PureSoFar {} w.past ∧ ∃ m ∈ w.past,
    m.activity = .evaluating ⟨3⟩ [.bool true, .bool true, .list [.bool false]] ∧
      ∃ node input, m.scene.value.graph.node? ⟨3⟩ = some node ∧ ⟨2⟩ ∈ node.inputs ∧
        m.scene.value.graph.node? ⟨2⟩ = some input ∧
          ¬ IsCurrent {} m.scene.value.graph input := by
  obtain ⟨w, last, before, hrun, hpure, -, hpast, -, -, torn, hmem, htorn⟩ := overtaking_run
  have hreach : Reachable {} w := .run (.start .empty #[]) hrun
  obtain ⟨node, hnode, hinput⟩ := htorn.node
  obtain ⟨input, hnode', hkind, hvalue⟩ := htorn.input
  refine ⟨w, hreach, hpure, torn, ?_, htorn.activity, node, input, hnode, hinput, hnode',
    fun hcurrent => ?_⟩
  · rw [hpast]
    exact List.mem_cons_of_mem _ hmem
  · obtain ⟨inputs, hinputs, hyields⟩ := hcurrent _ _ hkind
    obtain rfl : [Value.bool true] = inputs := by
      simp only [List.mapM_cons, htorn.first, List.mapM_nil] at hinputs
      exact Except.ok.inj hinputs
    rcases hyields with hyields | ⟨interrupt, hyields⟩
    · rw [hvalue] at hyields
      have heq := eq_of_yields_listing hyields
      simp at heq
    · cases eq_of_yields_listing hyields

/-! ## What reducers and listeners find -/

/-- **Reducers and listeners find everything current, but for writes not read.** At the moment at
which one of them starts, each derived node is current, unless it reads a cell that was written after
the node had last been computed, and no pass has started from the cell since. -/
theorem Visits.observed_current_or_unread (h : session.Visits w) (hpure : session.PureSoFar w.past)
    {later earlier : List Moment} {m : Moment} (hpast : w.past = later ++ m :: earlier)
    (hreaction : m.activity.IsReaction) {id : SignalId} {node : Node}
    (hnode : m.scene.value.graph.node? id = some node) :
    session.IsCurrent m.scene.value.graph node ∨ ∃ cell ∈ node.inputs, cell ∈ unread id earlier := by
  have hgood := (h.allGood hpure).isGood hpast
  have hfresh : session.IsFresh m.scene.value.graph earlier [] := by
    unfold IsGood at hgood
    cases hactivity : m.activity with
    | reducing | listening =>
      rw [hactivity] at hgood
      exact hgood
    | queued | applied | wrote | propagating | evaluating =>
      rw [hactivity] at hreaction
      exact hreaction.elim
  by_cases hread : HasRead earlier id node
  · exact .inl (hfresh id node hnode List.not_mem_nil hread)
  · unfold HasRead at hread
    push Not at hread
    exact .inr hread

theorem Visits.observed_current_or_unread_observing : ∃ w later m earlier node, Visits {} w ∧
    PureSoFar {} w.past ∧ w.past = later ++ m :: earlier ∧ m.activity = .listening (.bool true) ∧
      m.scene.value.graph.node? ⟨1⟩ = some node ∧
        node.kind = .derived [.signal ⟨0⟩] listing ∧ IsCurrent {} m.scene.value.graph node := by
  obtain ⟨w, later, m, earlier, hrun, hpure, hsettled, -⟩ := observing_run
  obtain ⟨hpast, hactivity, hunread, node, hnode, hkind⟩ := hsettled
  have hreach : Reachable {} w := .run (.start .empty #[]) hrun
  have hreaction : m.activity.IsReaction := by
    rw [hactivity]
    trivial
  refine ⟨w, later, m, earlier, node, hreach.visits, hpure, hpast, hactivity, hnode, hkind, ?_⟩
  refine (Visits.observed_current_or_unread hreach.visits hpure hpast hreaction hnode).resolve_right
    fun ⟨cell, _, hcell⟩ => ?_
  rw [hunread] at hcell
  exact absurd hcell List.not_mem_nil

/-- A reducer can find the new value of a cell next to what was derived from the old one, and so can a
listener. -/
theorem observed_half_settled : ∃ w, Reachable {} w ∧ PureSoFar {} w.past ∧
    (∃ m ∈ w.past, m.activity = .reducing ⟨2⟩ (.bool false) (.bool true) ∧
      ∃ node, m.scene.value.graph.node? ⟨1⟩ = some node ∧
        ¬ IsCurrent {} m.scene.value.graph node) ∧
    ∃ m ∈ w.past, m.activity = .listening (.bool true) ∧
      ∃ node, m.scene.value.graph.node? ⟨4⟩ = some node ∧
        ¬ IsCurrent {} m.scene.value.graph node := by
  obtain ⟨w, later, settled, earlier, hrun, hpure, -, ⟨reducing, hreducing, hreduce, hstale⟩,
    listening, hlistening, hlisten, hstale'⟩ := observing_run
  have hreach : Reachable {} w := .run (.start .empty #[]) hrun
  exact ⟨w, hreach, hpure, ⟨reducing, hreducing, hreduce, hstale.not_isCurrent⟩,
    listening, hlistening, hlisten, hstale'.not_isCurrent⟩

end Session

end EffectGraph
