import EffectGraph.Proofs.Catalog.Pure
import EffectGraph.Proofs.Graph.Resolving
import EffectGraph.Proofs.Program.Collecting
import EffectGraph.Proofs.Program.Resolved

/-!
# Case distinctions

`Catalog.Logic.matchFirst` collects the results of its cases into a list of pairs and hands this list
and the default to one instruction. So all conditions and values are evaluated, in the order of the
cases, and then the default (`Catalog.Logic.runsTo_matchFirst`). The rule of the instruction goes
through the pairs and makes `Catalog.Logic.chosen` of them. It never fails on such a list, also when
the handles in it have been replaced by values (`Catalog.Logic.exists_chosen`).
-/

namespace EffectGraph

variable {σ : Type}

/-- From the state `s` the operand comes to a value: a value is one already, and a program is run, which
hands the interpreter these calls and leaves it in the state `t`. -/
inductive Operand.Yields (answers : Answers σ) : Operand → σ → List Instruction → Value → σ → Prop where
  | value (v : Value) (s : σ) : Yields answers (.value v) s [] v s
  | program {p : Program} {s t : σ} {calls : List Instruction} {v : Value}
    (hp : p.RunsTo answers s calls (some (.ok v)) t) : Yields answers (.program p) s calls v t

/-- As the last operand it is replaced by the value. -/
theorem Operand.Yields.resolves {answers : Answers σ} {operand : Operand} {s t : σ}
    {calls : List Instruction} {v : Value} (h : operand.Yields answers s calls v t) (name : String) :
    Resolves answers [(name, operand)] s calls [(name, .value v)] t := by
  cases h with
  | value => exact .value .nil
  | @program p _ _ _ _ hp =>
    have hresolved : Resolves answers [(name, .program p)] s (calls ++ []) [(name, .value v)] t :=
      .program hp .nil
    rwa [List.append_nil] at hresolved

/-- What every answer keeps, the operand keeps. -/
theorem Operand.Yields.keeps {answers : Answers σ} {operand : Operand} {s t : σ}
    {calls : List Instruction} {v : Value} {P : σ → Prop}
    (hanswers : ∀ i s reply s', P s → answers i s = (some reply, s') → P s')
    (h : operand.Yields answers s calls v t) (hs : P s) : P t := by
  cases h with
  | value => exact hs
  | program hp => exact hp.keeps hanswers hs

namespace Catalog.Logic

variable {answers : Answers σ} {cases : List (Program × Program)} {default : Operand}
  {results current : List (Value × Value)} {value : Value} {operands inputs : List Value} {s u u' : σ}
  {calls calls' : List Instruction} {graph graph' : Graph}

/-- The value of the first case whose condition holds, or the default. -/
def chosen (results : List (Value × Value)) (default : Value) : Value :=
  ((results.find? fun result => result.1.holds).map (·.2)).getD default

/-- A condition and a value as one value. -/
def pair (result : Value × Value) : Value := .list [result.1, result.2]

/-- How case distinction is declared. -/
def matching : Signature := ⟨"logic.match", ["cases", "default"], .any⟩

/-- The operands of a case distinction. -/
def matchOperands (results : List (Value × Value)) (default : Value) : List Value :=
  [.list (results.map pair), default]

/-! ## The rule -/

theorem firstMatch?_pairs (results : List (Value × Value)) :
    firstMatch? (results.map pair) = (results.find? fun result => result.1.holds).map (·.2) := by
  induction results with
  | nil => rfl
  | cons result rest ih =>
    rw [List.map_cons, pair, firstMatch?, List.find?_cons, ih]
    cases result.1.holds with
    | true => rfl
    | false => rfl

theorem matchRule_matchOperands (tag : Tag) (results : List (Value × Value)) (default : Value) :
    matchRule tag (matchOperands results default) = .ok (chosen results default) := by
  have hitems : itemsInput tag (matchOperands results default) 0 "cases" = .ok (results.map pair) := rfl
  simp only [matchRule, hitems, bind, Except.bind, firstMatch?_pairs, chosen]
  cases (results.find? fun result => result.1.holds).map (·.2) with
  | none => rfl
  | some value => rfl

/-! ## Resolving -/

/-- Each of the results is replaced by the value that it has in the graph. -/
def Resolved (graph : Graph) (results current : List (Value × Value)) : Prop :=
  List.Forall₂ (fun result now => graph.resolve result.1 = .ok now.1 ∧ graph.resolve result.2 = .ok now.2)
    results current

theorem exists_pair_of_resolve {result : Value × Value} {item : Value}
    (h : graph.resolve (pair result) = .ok item) : ∃ now : Value × Value,
      (graph.resolve result.1 = .ok now.1 ∧ graph.resolve result.2 = .ok now.2) ∧ item = pair now := by
  obtain ⟨items, hitems, rfl⟩ := Value.exists_items_of_resolveWith h
  cases hitems with
  | @cons _ condition _ _ hcondition hrest =>
    cases hrest with
    | @cons _ value _ _ hvalue hnone =>
      cases hnone
      exact ⟨(condition, value), ⟨hcondition, hvalue⟩, rfl⟩

/-- The operands are resolved to the operands of the current results. -/
theorem exists_resolved (h : (matchOperands results value).mapM graph.resolve = .ok inputs) :
    ∃ current now, Resolved graph results current ∧ graph.resolve value = .ok now ∧
      inputs = matchOperands current now := by
  have hboth := Graph.forall₂_of_mapM_resolve h
  cases hboth with
  | cons hpairs hrest =>
    cases hrest with
    | @cons _ now _ _ hvalue hnone =>
      cases hnone
      obtain ⟨items, hitems, rfl⟩ := Value.exists_items_of_resolveWith hpairs
      suffices hall : ∃ current, Resolved graph results current ∧ items = current.map pair by
        obtain ⟨current, hcurrent, rfl⟩ := hall
        exact ⟨current, now, hcurrent, hvalue, rfl⟩
      clear h hpairs hvalue
      rw [List.forall₂_map_left_iff] at hitems
      induction hitems with
      | nil => exact ⟨[], .nil, rfl⟩
      | cons hfirst _ ih =>
        obtain ⟨first, hresolved, rfl⟩ := exists_pair_of_resolve hfirst
        obtain ⟨current, hcurrent, rfl⟩ := ih
        exact ⟨first :: current, .cons hresolved hcurrent, rfl⟩

/-- The value is what is chosen among the values that the results and the default have in the graph. -/
def IsChosen (graph : Graph) (results : List (Value × Value)) (default value : Value) : Prop :=
  ∃ current now, Resolved graph results current ∧ graph.resolve default = .ok now ∧
    value = chosen current now

/-- On the values that the operands have in a graph the rule does not fail. -/
theorem exists_chosen (h : (matchOperands results value).mapM graph.resolve = .ok inputs) :
    ∃ choice, IsChosen graph results value choice ∧ ∀ tag, matchRule tag inputs = .ok choice := by
  obtain ⟨current, now, hcurrent, hnow, rfl⟩ := exists_resolved h
  exact ⟨_, ⟨current, now, hcurrent, hnow, rfl⟩, fun tag => matchRule_matchOperands tag current now⟩

/-! ## The program -/

/-- First and second components in a row. -/
def inRow {α : Type} (pairs : List (α × α)) : List α := pairs.flatMap fun pair => [pair.1, pair.2]

/-- If conditions and values all yield in a row, the cases yield pairs. -/
theorem yieldAll_cases (h : YieldAll answers (inRow cases) s calls (inRow results) u) :
    YieldAll answers (cases.map fun c => .sequence [c.1, c.2]) s calls (results.map pair) u := by
  induction cases generalizing results s calls with
  | nil =>
    cases results with
    | nil => exact h
    | cons result rest => cases h
  | cons c cases ih =>
    cases results with
    | nil => cases h
    | cons result rest =>
      cases h with
      | @cons _ _ _ _ _ first _ _ _ hcondition hothers =>
        cases hothers with
        | @cons _ _ _ _ _ second _ _ _ hvalue hrest =>
          have hpair := Program.runsTo_sequence (.cons hcondition (.cons hvalue .nil))
          rw [List.append_nil] at hpair
          rw [← List.append_assoc]
          exact .cons hpair (ih hrest)

/-- All conditions and values are evaluated in order, then the default, and then the instruction is
handed over. -/
theorem runsTo_matchFirst (hcases : YieldAll answers (inRow cases) s calls (inRow results) u)
    (hdefault : default.Yields answers u calls' value u') : (matchFirst cases default).RunsTo answers s
      (calls ++ calls' ++ [matching.instruction (matchOperands results value)])
      (answers (matching.instruction (matchOperands results value)) u').1
      (answers (matching.instruction (matchOperands results value)) u').2 := by
  have hpairs := Program.runsTo_sequence (yieldAll_cases hcases)
  exact .perform (i := ⟨matching.tag, _, matching.result⟩) (.program hpairs (hdefault.resolves "default"))

end Catalog.Logic

end EffectGraph
