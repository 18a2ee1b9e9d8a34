import EffectGraph.Proofs.Catalog.Cases
import EffectGraph.Proofs.Session.Commands
import EffectGraph.Proofs.Session.Consistency
import EffectGraph.Proofs.Session.Dispatching
import EffectGraph.Proofs.Session.Following

/-!
# Case distinctions between signals

If there is a handle in what the cases and the default of a case distinction yield, a signal is derived
from all of them. Its computation never fails (`Catalog.Logic.selection_isReliable`), so the signal
follows its inputs: it holds the current value of the first case whose condition holds now, or the
current default (`Session.Reachable.match_first_follows`). This is so although only one of the cases is
chosen at any time: the signal depends on all conditions and values.
-/

namespace EffectGraph

open Exec World

namespace Catalog.Logic

variable {session : Session} {results : List (Value × Value)} {default : Value} {id : SignalId}
  {graph : Graph} {inputs : List Value}

/-- What the computation of a case distinction makes of its inputs. -/
def matchResult (inputs : List Value) : Except Interrupt Value :=
  (matchRule matching.tag inputs).mapError .ofFailure

theorem matching_isComputedBy :
    matching.IsComputedBy (handler matchRule) (fun inputs => .done (matchResult inputs)) matchResult :=
  isComputedBy_rule (by decide) fun _ => .any _

/-- A signal that is derived by a case distinction. -/
def selection (results : List (Value × Value)) (default : Value) (id : SignalId) : Derivation where
  id := id
  operands := matchOperands results default
  compute inputs := .done (matchResult inputs)
  result := matchResult

/-- The signal holds what is chosen among the current values of the results and of the default. -/
def Selects (graph : Graph) (results : List (Value × Value)) (default : Value) (id : SignalId) : Prop :=
  ∃ value, IsChosen graph results default value ∧ graph.value id = .ok value

theorem exists_matchResult (h : (matchOperands results default).mapM graph.resolve = .ok inputs) :
    ∃ choice, IsChosen graph results default choice ∧ matchResult inputs = .ok choice := by
  obtain ⟨choice, hchosen, hrule⟩ := exists_chosen h
  exact ⟨choice, hchosen, congrArg (Except.mapError _) (hrule _)⟩

theorem selection_isReliable (session : Session) (results : List (Value × Value)) (default : Value)
    (id : SignalId) : (selection results default id).IsReliable session where
  computes := matching_isComputedBy.computes session
  succeeds _ _ h := by
    obtain ⟨choice, -, hresult⟩ := exists_matchResult h
    exact ⟨choice, hresult⟩

theorem selects_of_holds (h : (selection results default id).Holds graph) :
    Selects graph results default id := by
  obtain ⟨inputs, value, hinputs, hresult, hvalue⟩ := h
  obtain ⟨choice, hchosen, hmatch⟩ := exists_matchResult hinputs
  obtain rfl : value = choice := Except.ok.inj (hresult.symm.trans hmatch)
  exact ⟨value, hchosen, hvalue⟩

/-- If the signal is current, it holds what is chosen: the computation gives nothing else. -/
theorem selects_of_isCurrent {node : Node} (hnode : graph.node? id = some node)
    (hkind : node.kind =
      .derived (selection results default id).operands (selection results default id).compute)
    (h : session.IsCurrent graph node) : Selects graph results default id := by
  obtain ⟨inputs, hinputs, hyields⟩ := h _ _ hkind
  obtain ⟨choice, hchosen, hmatch⟩ := exists_matchResult hinputs
  have hgives {result : Except Interrupt Value}
      (hyields : session.Yields (.done (matchResult inputs)) result) : result = .ok choice := by
    obtain ⟨level, w, w', hexec⟩ := hyields
    rw [← hmatch]
    exact (Prod.mk.inj (Option.some.inj hexec)).1.symm
  rcases hyields with hvalue | ⟨interrupt, herror⟩
  · obtain rfl := Except.ok.inj (hgives hvalue)
    exact ⟨node.value, hchosen, Graph.value_of_node? hnode⟩
  · cases hgives herror

end Catalog.Logic

open Catalog.Logic

namespace Session

variable {session : Session} {results : List (Value × Value)} {last : Value} {start w u u' w₁ : World}
  {cases : List (Program × Program)} {default : Operand} {calls calls' : List Instruction} {level : Nat}
  {id : SignalId}

/-- In the second state, to which a run from the first one has led, the signal holds what is chosen. As
long as it exists it also does so after all that the host does later, if the run was between batches;
and between any two later scripts, wherever the run was, if all signals are computed in a pure way. -/
structure KeepsSelecting (session : Session) (results : List (Value × Value)) (default : Value)
    (id : SignalId) (w w₁ : World) : Prop where
  now : Selects w₁.graph results default id
  resting : w.Rests → ∀ w₂, session.Proceeds w₁ w₂ → w₂.graph.contains id →
    Selects w₂.graph results default id
  settled : ∀ w₂, w₁.Steps w₂ → session.Reachable w₂ → session.PureSoFar w₂.past →
    w₂.graph.contains id → Selects w₂.graph results default id

/-- A signal that is derived by a case distinction keeps selecting. -/
theorem keepsSelecting (hsignal : w₁.graph.OnlyEver
      (· = .derived (selection results last id).operands (selection results last id).compute) id)
    (hholds : (selection results last id).Holds w₁.graph) (hrun : session.Proceeds w w₁) :
    session.KeepsSelecting results last id w w₁ where
  now := selects_of_holds hholds
  resting hw w₂ hlater hlive := selects_of_holds ((hw.proceeds hrun).follows
    (selection_isReliable session results last id) hsignal hholds hlater hlive)
  settled w₂ hsteps hw₂ hpure hlive := by
    obtain ⟨hsound, -⟩ := hw₂.sound hpure
    obtain ⟨node, hnode⟩ := Graph.contains_iff.1 hlive
    exact selects_of_isCurrent hnode ((hsignal.follows hsteps.follows).2 node hnode)
      (hsound.current hw₂.calm.2 hnode)

/-- Handed over with the results and the default, the instruction of a case distinction gives what is
chosen if there is no handle in them, and otherwise a signal that holds it. -/
theorem dispatch_matching
    (hhandler : Keyed.get? matching.tag session.handlers = some (handler matchRule)) (hooks : Hooks)
    (hgraph : w.graph.WellFormed)
    (hlive : ∀ id ∈ Value.dependencies (matchOperands results last), w.graph.contains id) :
    ∃ value t, dispatch session hooks (matching.instruction (matchOperands results last)) w =
        (some (.ok value), t) ∧
      if Value.dependencies (matchOperands results last) = [] then value = chosen results last
      else ∃ id, value = .signal id ∧ (selection results last id).Holds t.graph ∧ t.graph.OnlyEver
        (· = .derived (selection results last id).operands (selection results last id).compute) id := by
  by_cases hplain : Value.dependencies (matchOperands results last) = []
  · obtain ⟨journal, hdispatch⟩ :=
      dispatch_plain hhandler matching_isComputedBy rfl hplain hooks w
    have hresult : matchResult (matchOperands results last) = .ok (chosen results last) :=
      congrArg (Except.mapError _) (matchRule_matchOperands _ results last)
    rw [hresult] at hdispatch
    exact ⟨_, _, hdispatch, by rw [if_pos hplain]⟩
  · obtain ⟨inputs, hinputs⟩ := Graph.exists_mapM_resolve_eq_ok hlive
    obtain ⟨outcome, t, hdispatch, -, hderives⟩ :=
      dispatch_reactive hhandler matching_isComputedBy rfl hooks hgraph hplain hlive hinputs
    obtain ⟨choice, -, hresult⟩ := exists_matchResult hinputs
    unfold Derives at hderives
    rw [hresult] at hderives
    obtain ⟨id, rfl, hvalue, hsignal, hsame⟩ := hderives
    refine ⟨_, t, hdispatch, ?_⟩
    rw [if_neg hplain]
    exact ⟨id, rfl, ⟨inputs, choice, hsame.trans hinputs, hresult, hvalue⟩, hsignal⟩

/-- **Case distinctions follow their inputs.** Take any state that a session gets to, cases whose
conditions and values yield there one after another, and a default that is a value or a program that
yields then. Let the signals exist, when all this is done, whose handles occur in what was yielded. Then
the case distinction makes the calls of the conditions and values in the order of the cases, then those
of the default, and then hands over its own instruction. If no handle occurs, it yields the value of the
first case whose condition holds, or else the default. Otherwise it yields a signal that keeps selecting
among the current values, be it part of a larger program or, unless a limit of steps cuts it off, a
program that is run by itself. -/
theorem Reachable.match_first_follows (h : session.Reachable start) (hsteps : start.Steps w)
    (hhandler : Keyed.get? "logic.match" session.handlers = some (handler matchRule))
    (hcases : YieldAll (dispatch session (session.hooksAt level)) (inRow cases) w calls (inRow results) u)
    (hdefault : default.Yields (dispatch session (session.hooksAt level)) u calls' last u')
    (hlive : ∀ id ∈ Value.dependencies (matchOperands results last), u'.graph.contains id) :
    ∃ value t, (matchFirst cases default).RunsTo (dispatch session (session.hooksAt level)) w
        (calls ++ calls' ++ [matching.instruction (matchOperands results last)]) (some (.ok value)) t ∧
      ∃ result w₁, Exec.runProgram session.settings (dispatch session (session.hooksAt level))
          (matchFirst cases default) w = (some result, w₁) ∧
        (result = .ok value ∨
          ∃ limit, session.settings.stepLimit = some limit ∧ result = .error (.stepLimit limit)) ∧
        if Value.dependencies (matchOperands results last) = [] then value = chosen results last
        else ∃ id, value = .signal id ∧ session.KeepsSelecting results last id w t ∧
          (result = .ok value → session.KeepsSelecting results last id w w₁) := by
  have hanswers (i : Instruction) (v : World) (reply : Except Interrupt Value) (v' : World)
      (hv : Steps start v) (hcall : dispatch session (session.hooksAt level) i v = (some reply, v')) :
      Steps start v' :=
    hv.trans ((session.stepwise_dispatch (session.hooksAt_stepwise level) i v).of_eq_some hcall)
  have hyielded : Steps start u' :=
    hdefault.keeps hanswers (Program.keeps_of_yieldAll hanswers hcases hsteps)
  have hgraph : u'.graph.WellFormed := (hyielded.wellFormed h.wellFormed).now.graph
  obtain ⟨value, t, hdispatch, hgives⟩ :=
    dispatch_matching hhandler (session.hooksAt level) hgraph hlive
  have hrun := runsTo_matchFirst hcases hdefault
  rw [hdispatch] at hrun
  have hmirrored : (session.hooksAt (level + 1)).Mirrored .empty :=
    mirrored_hooksAt (Exchange.standsIn_empty session) (level + 1)
  obtain ⟨result, w₁, hran, hended⟩ := runProgram_yields session.settings hmirrored.dispatch hrun
  refine ⟨value, t, hrun, result, w₁, hran, hended.imp_left And.left, ?_⟩
  split
  · rename_i hplain
    rwa [if_pos hplain] at hgives
  · rename_i hreactive
    rw [if_neg hreactive] at hgives
    obtain ⟨id, rfl, hholds, hsignal⟩ := hgives
    refine ⟨id, rfl, keepsSelecting hsignal hholds (proceeds_of_runsTo hrun), fun hyields => ?_⟩
    -- Run by itself, it leaves the same graph.
    rcases hended with ⟨-, hlike⟩ | ⟨limit, -, hcut⟩
    · rw [← hlike.graph_eq] at hholds hsignal
      exact keepsSelecting hsignal hholds (proceeds_runProgram hran)
    · cases hyields.symm.trans hcut

/-! ## A choice between two texts -/

/-- A session that can distinguish cases. -/
private def choosing : Session where
  handlers := [("logic.match", handler matchRule)]

/-- What yields a handle, and a text for the case that the signal holds what counts as true. -/
private def branches (id : SignalId) : List (Program × Program) :=
  [(.pure (.signal id), .pure (.text "a"))]

private def options (id : SignalId) : List (Value × Value) := [(.signal id, .text "a")]

private theorem yieldAll_branches (answers : Answers World) (id : SignalId) (w : World) :
    YieldAll answers (inRow (branches id)) w [] (inRow (options id)) w :=
  .cons (.ofPure answers _ w) (.cons (.ofPure answers _ w) .nil)

/-- This text, or else another one. -/
private def choice (id : SignalId) : Program := matchFirst (branches id) (.value (.text "b"))

private def choosingCall (id : SignalId) : Instruction :=
  matching.instruction (matchOperands (options id) (.text "b"))

/-- What is chosen depends on the value of the signal alone. -/
private theorem isChosen_choice {graph : Graph} {condition value : Value}
    (hvalue : graph.value id = .ok condition) (h : IsChosen graph (options id) (.text "b") value) :
    value = if condition.holds then .text "a" else .text "b" := by
  obtain ⟨current, now, hcurrent, hnow, rfl⟩ := h
  obtain rfl : .text "b" = now := Except.ok.inj hnow
  cases hcurrent with
  | @cons _ first _ _ hfirst hrest =>
    cases hrest
    obtain ⟨condition', text⟩ := first
    obtain rfl : condition = condition' := Except.ok.inj (hvalue.symm.trans hfirst.1)
    obtain rfl : .text "a" = text := Except.ok.inj hfirst.2
    cases hholds : condition.holds with
    | true => simp [chosen, hholds]
    | false => simp [chosen, hholds]

/-- A cell that holds what does not count as true. -/
private def untrue : World :=
  (advance choosing 0 (.ask (.cell (.bool false)) fun (_ : SignalId) => .done (.ok .unit)) {}).2

private theorem reachable_untrue : Reachable choosing untrue := by
  have hrun : execute choosing 0
      (.ask (.cell (.bool false)) fun (_ : SignalId) => .done (.ok .unit)) {} =
        some (.ok .unit, untrue) := rfl
  exact .run (.start .empty #[]) hrun

/-- The same with the choice between two texts. -/
private def chosenBy : World :=
  (dispatch choosing (hooksAt choosing 0) (choosingCall ⟨0⟩) untrue).2

private theorem choice_untrue : (choice ⟨0⟩).RunsTo (dispatch choosing (hooksAt choosing 0)) untrue
    [choosingCall ⟨0⟩] (some (.ok (.signal ⟨1⟩))) chosenBy :=
  Program.runsTo_iff.2 rfl

private def setTrue : Script := .set ⟨0⟩ (.bool true) fun _ => .done (.ok .unit)

/-- Setting the cell to what counts as true. -/
private theorem set_chosenBy : ∃ w, execute choosing 2 setTrue chosenBy = some (.ok .unit, w) ∧
    w.graph.value ⟨0⟩ = .ok (.bool true) ∧ w.graph.contains ⟨1⟩ := by
  cases hrun : execute choosing 2 setTrue chosenBy with
  | none => cbv at hrun; contradiction
  | some ended =>
    obtain ⟨result, w⟩ := ended
    cbv at hrun
    obtain ⟨rfl, rfl⟩ := Prod.mk.inj (Option.some.inj hrun)
    exact ⟨_, rfl, rfl, rfl⟩

theorem Reachable.match_first_follows_set : ∃ w t w₂, Reachable choosing w ∧
    w.graph.value ⟨0⟩ = .ok (.bool false) ∧
    (choice ⟨0⟩).RunsTo (dispatch choosing (hooksAt choosing 0)) w [choosingCall ⟨0⟩]
      (some (.ok (.signal ⟨1⟩))) t ∧
    t.graph.value ⟨1⟩ = .ok (.text "b") ∧ execute choosing 2 setTrue t = some (.ok .unit, w₂) ∧
    w₂.graph.value ⟨0⟩ = .ok (.bool true) ∧ w₂.graph.value ⟨1⟩ = .ok (.text "a") := by
  have hdependencies : Value.dependencies (matchOperands (options ⟨0⟩) (.text "b")) = [⟨0⟩] := rfl
  have hlive : ∀ id ∈ Value.dependencies (matchOperands (options ⟨0⟩) (.text "b")),
      untrue.graph.contains id := by
    intro id hid
    rw [hdependencies, List.mem_singleton] at hid
    exact hid ▸ rfl
  obtain ⟨value, t, hrun, _, _, -, -, hfollows⟩ := reachable_untrue.match_first_follows .refl rfl
    (yieldAll_branches (dispatch choosing (hooksAt choosing 0)) ⟨0⟩ untrue) (.value (.text "b") untrue) hlive
  obtain ⟨-, hvalue, rfl⟩ := hrun.unique choice_untrue
  obtain rfl := Except.ok.inj (Option.some.inj hvalue)
  rw [hdependencies, if_neg (List.cons_ne_nil _ _)] at hfollows
  obtain ⟨id, hid, hkeeps, -⟩ := hfollows
  obtain rfl := Value.signal.inj hid
  obtain ⟨w₂, hset, htrue, hcontains⟩ := set_chosenBy
  obtain ⟨first, hfirst, hstart⟩ := hkeeps.now
  obtain ⟨second, hsecond, hended⟩ := hkeeps.resting reachable_untrue.rests w₂
    (.single (.inl ⟨2, setTrue, _, hset⟩)) hcontains
  have hfalse : chosenBy.graph.value ⟨0⟩ = .ok (.bool false) := rfl
  rw [isChosen_choice hfalse hfirst] at hstart
  rw [isChosen_choice htrue hsecond] at hended
  exact ⟨untrue, chosenBy, w₂, reachable_untrue, rfl, choice_untrue, hstart, hset, htrue, hended⟩

/-- Chooses when the cell is set, while the second of two signals derived from it is still behind. -/
private def choosingEarly : List Value → Script := fun
  | [.bool true] => .run (choice ⟨2⟩) fun result => .done (result.mapError .aborted)
  | _ => .done (.ok .unit)

private def passing : List Value → Script := fun inputs => .done (.ok (inputs.headD .unit))

private def settingEarly : Script :=
  .ask (.cell (.bool false)) fun (_ : SignalId) =>
  .derive [.signal ⟨0⟩] passing fun _ =>
  .derive [.signal ⟨1⟩] passing fun _ =>
  .derive [.signal ⟨0⟩] choosingEarly fun _ => setTrue

/-- The computation of a signal has made its choice early, and the signal that was yielded holds in the
end what was right then. -/
private structure ChoseEarly (w : World) (m : Moment) : Prop where
  moment : m ∈ w.past
  evaluating : m.activity = .evaluating ⟨3⟩ [.bool true]
  runs : ∃ v t : World, v.toScene = m.scene.value ∧
    (choice ⟨2⟩).RunsTo (dispatch choosing (hooksAt choosing 0)) v [choosingCall ⟨2⟩]
      (some (.ok (.signal ⟨4⟩))) t
  yielded : w.graph.value ⟨3⟩ = .ok (.signal ⟨4⟩)
  condition : w.graph.value ⟨2⟩ = .ok (.bool true)
  value : w.graph.value ⟨4⟩ = .ok (.text "b")

private theorem choseEarly_settingEarly : ∃ w m, Reachable choosing w ∧ ChoseEarly w m := by
  cases hrun : execute choosing 2 settingEarly {} with
  | none => cbv at hrun; contradiction
  | some ended =>
    have hreach := Reachable.run (.start .empty #[]) hrun
    cbv at hrun
    obtain rfl := Option.some.inj hrun
    refine ⟨_, _, hreach, .tail _ (.tail _ (.head _)), rfl, ?_, rfl, rfl, rfl⟩
    simp only [Ghost.value_mk]
    exact ⟨⟨_, []⟩, _, rfl, Program.runsTo_iff.2 rfl⟩

private def tearingDown : Script := .ask (.tearDown ⟨1⟩) fun _ => .done (.ok .unit)

private theorem tearDown_chosenBy : ∃ w, execute choosing 0 tearingDown chosenBy =
    some (.ok .unit, w) ∧ w.graph.value ⟨1⟩ = .error (.unknownSignal ⟨1⟩) := by
  cases hrun : execute choosing 0 tearingDown chosenBy with
  | none => cbv at hrun; contradiction
  | some ended =>
    obtain ⟨result, w⟩ := ended
    cbv at hrun
    obtain ⟨rfl, rfl⟩ := Prod.mk.inj (Option.some.inj hrun)
    exact ⟨_, rfl, rfl⟩

/-- If a handle of no signal occurs, there is no signal to be yielded. A signal that was yielded can be
removed. And if the computation of a signal makes a choice while a pass has not got to all inputs of the
choice, the signal that is yielded has no part in the pass, and stays behind. -/
theorem match_first_falls_behind :
    (∃ w t, Reachable choosing w ∧
      YieldAll (dispatch choosing (hooksAt choosing 0)) (inRow (branches ⟨0⟩)) w []
        (inRow (options ⟨0⟩)) w ∧
      (choice ⟨0⟩).RunsTo (dispatch choosing (hooksAt choosing 0)) w [choosingCall ⟨0⟩]
        (some (.error (.aborted (.unknownSignal ⟨0⟩)))) t) ∧
    (∃ w t w₂, Reachable choosing w ∧
      (choice ⟨0⟩).RunsTo (dispatch choosing (hooksAt choosing 0)) w [choosingCall ⟨0⟩]
        (some (.ok (.signal ⟨1⟩))) t ∧
      execute choosing 0 tearingDown t = some (.ok .unit, w₂) ∧
      ¬ Selects w₂.graph (options ⟨0⟩) (.text "b") ⟨1⟩) ∧
    ∃ w m, Reachable choosing w ∧ m ∈ w.past ∧ m.activity = .evaluating ⟨3⟩ [.bool true] ∧
      (∃ v t : World, v.toScene = m.scene.value ∧
        (choice ⟨2⟩).RunsTo (dispatch choosing (hooksAt choosing 0)) v [choosingCall ⟨2⟩]
          (some (.ok (.signal ⟨4⟩))) t) ∧
      w.graph.value ⟨3⟩ = .ok (.signal ⟨4⟩) ∧ w.graph.value ⟨4⟩ = .ok (.text "b") ∧
        ¬ Selects w.graph (options ⟨2⟩) (.text "b") ⟨4⟩ := by
  refine ⟨?_, ?_, ?_⟩
  · exact ⟨{}, _, .start .empty #[], yieldAll_branches _ ⟨0⟩ {}, Program.runsTo_iff.2 rfl⟩
  · obtain ⟨w, htorn, hgone⟩ := tearDown_chosenBy
    refine ⟨untrue, chosenBy, w, reachable_untrue, choice_untrue, htorn, ?_⟩
    rintro ⟨value, -, hvalue⟩
    cases hgone.symm.trans hvalue
  · obtain ⟨w, m, hreach, hearly⟩ := choseEarly_settingEarly
    refine ⟨w, m, hreach, hearly.moment, hearly.evaluating, hearly.runs, hearly.yielded, hearly.value, ?_⟩
    rintro ⟨value, hchosen, hvalue⟩
    have hother : value = .text "a" := isChosen_choice hearly.condition hchosen
    have hsame : .text "b" = value := Except.ok.inj (hearly.value.symm.trans hvalue)
    simp [hother] at hsame

end Session

end EffectGraph
