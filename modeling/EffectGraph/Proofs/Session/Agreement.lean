import EffectGraph.Proofs.Session.Derivations
import EffectGraph.Proofs.Session.Dispatching

/-!
# Static and reactive evaluation

A pure instruction can be dispatched on operands that contain handles of cells, and on the operands
with the values of the cells in their place. Both come to the same: a signal with the value that is the
result of the other, or the same failure (`Reachable.static_and_reactive_agree`). The signal keeps up
with its cells whenever one of them is set between changes. While a change is being settled a cell is
set at once and its pass waits, so the signal falls behind; and it can be removed
(`reactive_falls_behind`).
-/

namespace EffectGraph

open Exec World

/-- The handle is that of a cell whose value contains no handle. -/
def Graph.IsPlainCell (graph : Graph) (id : SignalId) : Prop :=
  ∃ node, graph.node? id = some node ∧ node.kind = .cell ∧ node.value.isReactive = false

namespace Session

/-- With the values that signals have in the graph in place of their handles, the instruction gives the
result. -/
def GivesIn (session : Session) (graph : Graph) (s : Signature) (values : List Value)
    (result : Except Interrupt Value) : Prop :=
  ∃ plain, values.mapM graph.resolve = .ok plain ∧ Value.dependencies plain = [] ∧
    session.Gives (s.instruction plain) result

/-- Whatever happens to the session, let one of the cells that the operands depend on be set while
nothing is being settled, or let it be written while another change is settled that was requested then.
If no failure is reported, the signal still exists and the cells hold plain values, then the value of
the signal is what the instruction gives with the values of the cells. -/
def KeepsUp (session : Session) (s : Signature) (values : List Value) (id : SignalId) (w : World) :
    Prop :=
  ∀ {w₁ w₂ : World} {level : Nat} {call : Call} {since : List Moment}, w.Steps w₁ → w₁.Calm →
    call.exec (session.hooksAt level) w₁ = (some (.ok ()), w₂) → w₂.past = since ++ w₁.past →
    (∃ cell ∈ Value.dependencies values,
      (∃ value, call = .set cell value) ∨ WrittenIn since cell) →
    w₂.graph.contains id → (∀ cell ∈ Value.dependencies values, w₂.graph.IsPlainCell cell) →
      ∃ result, session.GivesIn w₂.graph s values (.ok result) ∧ w₂.graph.value id = .ok result

variable {session : Session} {s : Signature} {values plain : List Value} {w : World}

/-- Operands that depend on plain cells can be resolved, to plain values. -/
theorem exists_plain (hplain : ∀ id ∈ Value.dependencies values, w.graph.IsPlainCell id) :
    ∃ plain, values.mapM w.graph.resolve = .ok plain := by
  refine Graph.exists_mapM_resolve_eq_ok fun id hid => ?_
  obtain ⟨node, hnode, -⟩ := hplain id hid
  exact Graph.contains_iff.2 ⟨node, hnode⟩

theorem dependencies_plain (hplain : ∀ id ∈ Value.dependencies values, w.graph.IsPlainCell id)
    (hresolve : values.mapM w.graph.resolve = .ok plain) : Value.dependencies plain = [] := by
  refine Graph.dependencies_mapM_resolve hresolve fun id hid value hvalue => ?_
  obtain ⟨node, hnode, -, hflat⟩ := hplain id hid
  obtain rfl := Except.ok.inj ((Graph.value_of_node? hnode).symm.trans hvalue)
  exact hflat

/-- Nobody knows the instruction. -/
theorem dispatch_unhandled {i : Instruction} (hnone : Keyed.get? i.tag session.handlers = none)
    (hooks : Hooks) (w : World) :
    dispatch session hooks i w = (some (.error (.aborted (.unknownTag i.tag))), w) := by
  unfold dispatch
  rw [hnone]
  rfl

section

variable {handler : Handler} {compute : List Value → Script} {f : List Value → Except Interrupt Value}
  (hhandler : Keyed.get? s.tag session.handlers = some handler)
  (h : s.IsComputedBy handler compute f) (hlength : values.length = s.names.length)

include hhandler h hlength

/-- With the values of plain cells in place of their handles, the instruction gives what is computed. -/
theorem givesIn_of_isComputedBy (hplain : ∀ id ∈ Value.dependencies values, w.graph.IsPlainCell id)
    (hresolve : values.mapM w.graph.resolve = .ok plain) :
    session.GivesIn w.graph s values (f plain) := by
  have hflat := dependencies_plain hplain hresolve
  have hsame : plain.length = s.names.length :=
    (Graph.forall₂_of_mapM_resolve hresolve).length_eq.symm.trans hlength
  exact ⟨plain, hresolve, hflat, dispatch_plain hhandler h hsame hflat⟩

/-- A signal that is derived by the instruction keeps up with its cells. -/
theorem keepsUp_of_stands {id : SignalId} (hstands : Derivation.Stands ⟨id, values, compute, f⟩ w) :
    session.KeepsUp s values id w := by
  rintro w₁ w₂ level call since hsteps hcalm hcall hpast ⟨cell, hcell, hset⟩ hid hplain
  have hwritten : WrittenIn since cell := by
    rcases hset with ⟨value, rfl⟩ | hwritten
    · exact Call.writtenIn_of_set hcall hpast
    · exact hwritten
  obtain ⟨inputs, result, hresolve, hresult, hvalue⟩ :=
    (hstands.steps hsteps).holds_after_call (h.computes session) hcalm hcall hpast ⟨cell, hcell, hwritten⟩ hid
  have hgives := givesIn_of_isComputedBy hhandler h hlength hplain hresolve
  rw [show f inputs = .ok result from hresult] at hgives
  exact ⟨result, hgives, hvalue⟩

/-- On operands with handles of plain cells, what is computed comes out: as a failure, or as a signal
that has the value and keeps up with the cells. -/
theorem dispatch_keepsUp (hwell : w.toScene.WellFormed) (hwired : w.graph.Wired)
    (hreactive : Value.dependencies values ≠ [])
    (hplain : ∀ id ∈ Value.dependencies values, w.graph.IsPlainCell id)
    (hresolve : values.mapM w.graph.resolve = .ok plain) (hooks : Hooks) :
    ∃ outcome w', dispatch session hooks (s.instruction values) w = (some outcome, w') ∧
      match f plain with
      | .error interrupt => outcome = .error interrupt ∧ w'.graph.liveIds = w.graph.liveIds
      | .ok value => ∃ id, outcome = .ok (.signal id) ∧ w'.graph.value id = .ok value ∧
        session.KeepsUp s values id w' := by
  have hcells : ∀ id ∈ Value.dependencies values, w.graph.IsCell id := by
    intro id hid
    obtain ⟨node, hnode, hkind, -⟩ := hplain id hid
    exact ⟨node, hnode, hkind⟩
  have hlive : ∀ id ∈ Value.dependencies values, w.graph.contains id := by
    intro id hid
    obtain ⟨node, hnode, -⟩ := hcells id hid
    exact Graph.contains_iff.2 ⟨node, hnode⟩
  obtain ⟨outcome, w', hdispatch, hlater, hderived⟩ :=
    dispatch_reactive hhandler h hlength hooks hwell.graph hreactive hlive hresolve
  refine ⟨outcome, w', hdispatch, ?_⟩
  unfold Derives at hderived
  cases hresult : f plain with
  | error interrupt =>
    rw [hresult] at hderived
    exact hderived
  | ok value =>
    rw [hresult] at hderived
    obtain ⟨id, houtcome, hvalue, hsignal, -⟩ := hderived
    refine ⟨id, houtcome, hvalue, keepsUp_of_stands hhandler h hlength ?_⟩
    exact ⟨hlater.scene_wellFormed hwell, hlater.wired hwired, hsignal,
      fun cell hcell => (hcells cell hcell).onlyEver.follows hlater.follows⟩

end

/-- **Static and reactive evaluation agree.** Take any state that a session gets to, between scripts or
on the way, and dispatch a pure instruction of the catalog on operands that contain, at any depth,
handles of cells with plain values and no other handles. Let `result` be what the instruction gives with
the values of the cells in place of the handles. If it is a failure, the same failure comes out, and the
signals are those of before. If it is a value and there are no handles, it comes out. Otherwise a signal
comes out whose value it is, and this signal keeps up with its cells. -/
theorem Reachable.static_and_reactive_agree {start : World} (h : session.Reachable start)
    (hsteps : start.Steps w) (hcatalog : session.HandlesCatalog) (hs : s ∈ Catalog.pureSignatures)
    (hlength : values.length = s.names.length)
    (hplain : ∀ id ∈ Value.dependencies values, w.graph.IsPlainCell id) (level : Nat) :
    ∃ result outcome w', session.GivesIn w.graph s values result ∧
      dispatch session (session.hooksAt level) (s.instruction values) w = (some outcome, w') ∧
      match result with
      | .error interrupt => outcome = .error interrupt ∧ w'.graph.liveIds = w.graph.liveIds
      | .ok value =>
        if Value.dependencies values = [] then outcome = .ok value
        else ∃ id, outcome = .ok (.signal id) ∧ w'.graph.value id = .ok value ∧
          session.KeepsUp s values id w' := by
  obtain ⟨plain, hresolve⟩ := exists_plain hplain
  cases hhandler : Keyed.get? s.tag session.handlers with
  | none =>
    have hunknown (values : List Value) (hooks : Hooks) (w : World) :
        dispatch session hooks (s.instruction values) w =
          (some (.error (.aborted (.unknownTag s.tag))), w) :=
      dispatch_unhandled hhandler hooks w
    exact ⟨_, _, w, ⟨plain, hresolve, dependencies_plain hplain hresolve,
      fun hooks w => ⟨w.journal, hunknown plain hooks w⟩⟩, hunknown values _ w, rfl, rfl⟩
  | some handler =>
    obtain ⟨formatters, hmem⟩ := hcatalog s.tag handler (Catalog.names_of_pure hs) hhandler
    obtain ⟨compute, f, hcomputed⟩ := Catalog.exists_isComputedBy hs hmem
    have hgives := givesIn_of_isComputedBy hhandler hcomputed hlength hplain hresolve
    by_cases hflat : Value.dependencies values = []
    · -- Nothing is replaced.
      obtain rfl : values = plain :=
        Except.ok.inj ((Graph.mapM_resolve_of_dependencies_eq_nil hflat).symm.trans hresolve)
      obtain ⟨journal, hdispatch⟩ :=
        dispatch_plain hhandler hcomputed hlength hflat (session.hooksAt level) w
      refine ⟨f values, f values, _, hgives, hdispatch, ?_⟩
      cases f values with
      | error interrupt => exact ⟨rfl, rfl⟩
      | ok value =>
        dsimp only
        rw [if_pos hflat]
    · have hwell := (hsteps.wellFormed h.wellFormed).now
      have hwired : w.graph.Wired := hsteps.wired (h.visits.wired (.inl rfl))
      obtain ⟨outcome, w', hdispatch, hagree⟩ := dispatch_keepsUp hhandler hcomputed hlength hwell hwired
        hflat hplain hresolve (session.hooksAt level)
      refine ⟨f plain, outcome, w', hgives, hdispatch, ?_⟩
      cases hresult : f plain with
      | error interrupt =>
        rw [hresult] at hagree
        exact hagree
      | ok value =>
        rw [hresult] at hagree
        dsimp only
        rwa [if_neg hflat]

/-! ## A cell that is inverted -/

/-- A session that can invert conditions. -/
private def inverting : Session where
  handlers := [("logic.not", Catalog.Logic.handler Catalog.Logic.notRule)]

private theorem inverting_handlesCatalog : inverting.HandlesCatalog := by
  have hlogic : Catalog.Logic.bundle.handlers ⊆ Catalog.handlers .default :=
    Catalog.bundle_subset_handlers (by simp [Catalog.bundles])
  refine Catalog.handlesCatalog_of_subset .default
    (List.cons_subset.2 ⟨hlogic ?_, List.nil_subset _⟩)
  simp [Catalog.Logic.bundle]

private def inversion : Signature := ⟨"logic.not", ["value"], .bool⟩

/-- What is true is inverted to what is false. -/
private theorem inversion_gives {graph : Graph} (h : graph.value ⟨0⟩ = .ok (.bool true)) :
    inverting.GivesIn graph inversion [.signal ⟨0⟩] (.ok (.bool false)) := by
  refine ⟨[.bool true], ?_, rfl, fun hooks w => ⟨w.journal, rfl⟩⟩
  simp [Graph.resolve, Value.resolveWith, h]

/-- A cell, and a source with a listener. -/
private def listened : Script :=
  .ask (.cell (.bool false)) fun (_ : SignalId) =>
  .ask (.source "clicks") fun (clicks : SourceId) =>
  .listen clicks (fun _ => .done (.ok .unit)) fun _ => .done (.ok .unit)

private def uninverted : World := (advance inverting 0 listened {}).2

/-- The same with the inverted cell. -/
private def inverted : World :=
  (dispatch inverting (hooksAt inverting 0) (inversion.instruction [.signal ⟨0⟩]) uninverted).2

private theorem reachable_uninverted : Reachable inverting uninverted := by
  have hrun : execute inverting 0 listened {} = some (.ok .unit, uninverted) := rfl
  exact .run (.start .empty #[]) hrun

private theorem dispatch_uninverted :
    dispatch inverting (hooksAt inverting 0) (inversion.instruction [.signal ⟨0⟩]) uninverted =
      (some (.ok (.signal ⟨1⟩)), inverted) := rfl

private theorem isPlainCell_uninverted : uninverted.graph.IsPlainCell ⟨0⟩ := ⟨_, rfl, rfl, rfl⟩

private theorem reachable_inverted : Reachable inverting inverted := by
  have hrun : execute inverting 1 (.dispatch (inversion.instruction [.signal ⟨0⟩]) .done)
      uninverted = some (.ok (.signal ⟨1⟩), inverted) := rfl
  exact .run reachable_uninverted hrun

/-- The cell holds true afterwards. -/
private structure IsTrueIn (graph : Graph) : Prop where
  plain : graph.IsPlainCell ⟨0⟩
  value : graph.value ⟨0⟩ = .ok (.bool true)

/-- The cell is set while nothing is being settled. -/
private theorem set_inverted : ∃ w since,
    writeCell (hooksAt inverting 2) ⟨0⟩ (.bool true) inverted = (some (.ok ()), w) ∧
      w.past = since ++ inverted.past ∧ w.graph.contains ⟨1⟩ ∧ w.graph.IsPlainCell ⟨0⟩ ∧
        w.graph.value ⟨1⟩ = .ok (.bool false) := by
  cases hset : writeCell (hooksAt inverting 2) ⟨0⟩ (.bool true) inverted with
  | mk result w =>
    have hwritten := hset
    cbv at hwritten
    obtain ⟨rfl, hw⟩ := Prod.mk.inj hwritten
    refine ⟨w, w.past.take 4, rfl, ?_⟩
    rw [← hw]
    exact ⟨rfl, rfl, ⟨_, rfl, rfl, rfl⟩, rfl⟩

/-- The cell is set when a listener starts. -/
private theorem set_listening : ∃ visited m, Visits inverting visited ∧ inverted.Steps visited ∧
    m ∈ visited.past ∧ m.activity = .listening .unit ∧ ∃ w₁ w₂ : World, w₁.toScene = m.scene.value ∧
      writeCell (hooksAt inverting 2) ⟨0⟩ (.bool true) w₁ = (some (.ok ()), w₂) ∧
        IsTrueIn w₂.graph ∧ w₂.graph.value ⟨1⟩ = .ok (.bool true) := by
  cases hrun : execute inverting 2 (.fire ⟨0⟩ .unit fun _ => .done (.ok .unit)) inverted with
  | none => cbv at hrun; contradiction
  | some ended =>
    have hreach := Reachable.run reachable_inverted hrun
    have hsteps := inverting.execute_steps hrun
    cbv at hrun
    obtain rfl := Option.some.inj hrun
    refine ⟨_, _, hreach.visits, hsteps, List.mem_cons_self, rfl, ?_⟩
    simp only [Ghost.value_mk]
    refine ⟨⟨_, []⟩, _, rfl, rfl, ?_⟩
    exact ⟨⟨⟨_, rfl, rfl, rfl⟩, rfl⟩, rfl⟩

/-- The cell is set when the inverted one has been removed. -/
private theorem set_torn : ∃ w₁ w₂, Visits inverting w₁ ∧ inverted.Steps w₁ ∧ w₁.Calm ∧
    writeCell (hooksAt inverting 2) ⟨0⟩ (.bool true) w₁ = (some (.ok ()), w₂) ∧
      IsTrueIn w₂.graph ∧ w₂.graph.value ⟨1⟩ = .error (.unknownSignal ⟨1⟩) := by
  cases hrun : execute inverting 0 (.ask (.tearDown ⟨1⟩) fun _ => .done (.ok .unit)) inverted with
  | none => cbv at hrun; contradiction
  | some ended =>
    obtain ⟨result, w₁⟩ := ended
    have hreach := Reachable.run reachable_inverted hrun
    have hsteps := inverting.execute_steps hrun
    cbv at hrun
    obtain ⟨-, hw₁⟩ := Prod.mk.inj (Option.some.inj hrun)
    cases hset : writeCell (hooksAt inverting 2) ⟨0⟩ (.bool true) w₁ with
    | mk result w₂ =>
      have hwritten := hset
      rw [← hw₁] at hwritten
      cbv at hwritten
      obtain ⟨rfl, hw₂⟩ := Prod.mk.inj hwritten
      refine ⟨w₁, w₂, hreach.visits, hsteps, ?_, hset, ?_⟩
      · rw [← hw₁]
        exact ⟨rfl, rfl⟩
      · rw [← hw₂]
        exact ⟨⟨⟨_, rfl, rfl, rfl⟩, rfl⟩, rfl⟩

theorem Reachable.static_and_reactive_agree_inverting : ∃ w w₁ w₂, inverting.HandlesCatalog ∧
    Reachable inverting w ∧ w.graph.IsPlainCell ⟨0⟩ ∧
    dispatch inverting (hooksAt inverting 0) (inversion.instruction [.signal ⟨0⟩]) w =
      (some (.ok (.signal ⟨1⟩)), w₁) ∧
    writeCell (hooksAt inverting 2) ⟨0⟩ (.bool true) w₁ = (some (.ok ()), w₂) ∧
    inverting.GivesIn w₂.graph inversion [.signal ⟨0⟩] (.ok (.bool false)) ∧
    w₂.graph.value ⟨1⟩ = .ok (.bool false) := by
  have hdependencies : Value.dependencies [.signal ⟨0⟩] = [⟨0⟩] := rfl
  have hplain {w : World} (hcell : w.graph.IsPlainCell ⟨0⟩) :
      ∀ id ∈ Value.dependencies [.signal ⟨0⟩], w.graph.IsPlainCell id := by
    intro id hid
    rw [hdependencies, List.mem_singleton] at hid
    exact hid ▸ hcell
  have hpure : inversion ∈ Catalog.pureSignatures := by simp [inversion, Catalog.pureSignatures]
  obtain ⟨result, outcome, w', -, hdispatch, hagree⟩ :=
    reachable_uninverted.static_and_reactive_agree .refl inverting_handlesCatalog hpure rfl
      (hplain isPlainCell_uninverted) 0
  obtain ⟨houtcome, rfl⟩ := Prod.mk.inj (hdispatch.symm.trans dispatch_uninverted)
  obtain ⟨w₂, since, hset, hpast, hlive, hcell, hvalue⟩ := set_inverted
  refine ⟨uninverted, inverted, w₂, inverting_handlesCatalog, reachable_uninverted,
    isPlainCell_uninverted, dispatch_uninverted, hset, ?_, hvalue⟩
  obtain rfl := Option.some.inj houtcome
  cases result with
  | error interrupt => cases hagree.1
  | ok value =>
    dsimp only at hagree
    rw [if_neg (by simp [hdependencies])] at hagree
    obtain ⟨id, hid, -, hkeeps⟩ := hagree
    obtain rfl := Value.signal.inj (Except.ok.inj hid)
    have hcalled : (Call.set ⟨0⟩ (.bool true)).exec (hooksAt inverting 2) inverted =
        (some (.ok ()), w₂) := hset
    obtain ⟨result, hgives, hresult⟩ := hkeeps .refl ⟨rfl, rfl⟩ hcalled hpast
      ⟨⟨0⟩, List.mem_singleton_self _, .inl ⟨_, rfl⟩⟩ hlive (hplain hcell)
    obtain rfl := Except.ok.inj (hvalue.symm.trans hresult)
    exact hgives

/-- A signal falls behind its cell if this is set while another change is being settled, say by a
listener, and a signal that has been removed has no value. -/
theorem reactive_falls_behind : ∃ w w' : World, inverting.HandlesCatalog ∧
    Reachable inverting w ∧ w.graph.IsPlainCell ⟨0⟩ ∧
    dispatch inverting (hooksAt inverting 0) (inversion.instruction [.signal ⟨0⟩]) w =
      (some (.ok (.signal ⟨1⟩)), w') ∧
    (∃ visited m, Visits inverting visited ∧ w'.Steps visited ∧ m ∈ visited.past ∧
      m.activity = .listening .unit ∧ ∃ w₁ w₂ : World, w₁.toScene = m.scene.value ∧
      writeCell (hooksAt inverting 2) ⟨0⟩ (.bool true) w₁ = (some (.ok ()), w₂) ∧
      w₂.graph.IsPlainCell ⟨0⟩ ∧
      inverting.GivesIn w₂.graph inversion [.signal ⟨0⟩] (.ok (.bool false)) ∧
      w₂.graph.value ⟨1⟩ = .ok (.bool true)) ∧
    ∃ w₁ w₂, Visits inverting w₁ ∧ w'.Steps w₁ ∧ w₁.Calm ∧
      writeCell (hooksAt inverting 2) ⟨0⟩ (.bool true) w₁ = (some (.ok ()), w₂) ∧
      w₂.graph.IsPlainCell ⟨0⟩ ∧
      inverting.GivesIn w₂.graph inversion [.signal ⟨0⟩] (.ok (.bool false)) ∧
      w₂.graph.value ⟨1⟩ = .error (.unknownSignal ⟨1⟩) := by
  refine ⟨uninverted, inverted, inverting_handlesCatalog, reachable_uninverted,
    isPlainCell_uninverted, dispatch_uninverted, ?_, ?_⟩
  · obtain ⟨visited, m, hvisits, hsteps, hm, hlistening, w₁, w₂, hscene, hset, htrue, hvalue⟩ :=
      set_listening
    exact ⟨visited, m, hvisits, hsteps, hm, hlistening, w₁, w₂, hscene, hset, htrue.plain,
      inversion_gives htrue.value, hvalue⟩
  · obtain ⟨w₁, w₂, hvisits, hsteps, hcalm, hset, htrue, hvalue⟩ := set_torn
    exact ⟨w₁, w₂, hvisits, hsteps, hcalm, hset, htrue.plain, inversion_gives htrue.value, hvalue⟩

end Session

end EffectGraph
