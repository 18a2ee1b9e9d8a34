import EffectGraph.Proofs.Catalog.Functions
import EffectGraph.Proofs.Session.Dispatching
import EffectGraph.Proofs.Session.Operations
import EffectGraph.Proofs.Session.Reachable

/-!
# Dispatching instructions with functions in the place of values

A pure instruction with a function among its operands is refused by the handlers that read operands by
name, and nothing happens. A handler of logic has it computed from the values that are left, read as if
they were the first operands. `Reachable.functions_refused_or_skipped` says what comes of it, and
`Reachable.functions_skipped` that it can be a value.
-/

namespace EffectGraph

open Exec World

namespace Session

open Catalog

variable {session : Session} {hooks : Hooks} {s : Signature} {i : Instruction} {w : World}

/-! ## Instructions that are handled alike -/

/-- What comes of an instruction depends on its tag, its shape and what its handler makes of it. -/
theorem dispatch_congr {j : Instruction} (htag : i.tag = j.tag) (hresult : i.result = j.result)
    (hhandled : ∀ handler, Keyed.get? j.tag session.handlers = some handler → handler i = handler j) :
    dispatch session hooks i = dispatch session hooks j := by
  have hcheck : checkShape i = checkShape j := by
    funext value
    unfold checkShape
    rw [htag, hresult]
  unfold dispatch
  rw [htag, hcheck]
  cases hhandler : Keyed.get? j.tag session.handlers with
  | none => rfl
  | some handler =>
    dsimp only
    rw [hhandled handler hhandler]

/-- If its handler does nothing but fail, the instruction does so. -/
theorem dispatch_refused {handler : Handler} {failure : Failure}
    (hhandler : Keyed.get? i.tag session.handlers = some handler)
    (h : handler i = .done (.error (.ofFailure failure))) :
    dispatch session hooks i w = (some (.error (.ofFailure failure)), w) := by
  unfold dispatch
  rw [hhandler]
  dsimp only
  rw [h]
  rfl

/-- Of a signal that does not exist nothing is derived. -/
theorem dispatch_gone {handler : Handler} {compute : List Value → Script}
    {f : List Value → Except Interrupt Value} {values : List Value}
    (hhandler : Keyed.get? s.tag session.handlers = some handler)
    (h : s.IsComputedBy handler compute f) (hlength : values.length = s.names.length)
    (hgone : ∃ id ∈ Value.dependencies values, ¬ w.graph.contains id) :
    ∃ id ∈ Value.dependencies values, ¬ w.graph.contains id ∧
      dispatch session hooks (s.instruction values) w =
        (some (.error (.aborted (.unknownSignal id))), w) := by
  obtain ⟨id, hfirst⟩ : ∃ id,
      (Value.dependencies values).find? (fun id => !w.graph.contains id) = some id := by
    rw [← Option.isSome_iff_exists, List.find?_isSome]
    simpa using hgone
  have hmem := List.mem_of_find?_eq_some hfirst
  refine ⟨id, hmem, by simpa using List.find?_some hfirst, ?_⟩
  have hinsert := Graph.insert_eq_error hfirst (.derived values compute)
  have hleaves : (dispatch session hooks (s.instruction values)).Leaves
      (fun outcome w' => outcome = .error (.aborted (.unknownSignal id)) ∧ w' = w) (fun _ => False)
      w := by
    refine dispatch_leaves hhandler h hlength ?_
    unfold Exec.derive
    split
    · rename_i hnone
      exact absurd (hnone ▸ hmem) List.not_mem_nil
    refine leaves_bind.2 (create_leaves (fun failure hfailed => ?_) fun id graph hcreated => ?_)
    · obtain rfl := Except.error.inj (hinsert.symm.trans hfailed)
      exact leaves_pure.2 ⟨⟨rfl, rfl⟩, fun value hvalue => by cases hvalue⟩
    · cases hinsert.symm.trans hcreated
  obtain ⟨outcome, w', hdispatch, rfl, rfl⟩ := hleaves.exists
  exact hdispatch

/-! ## Instructions of logic -/

/-- The ways in which an instruction of logic with functions among its operands can end: its values are
read as if they were its first operands. -/
inductive Skips (s : Signature) (i : Instruction) (w : World) : Except Interrupt Value → World → Prop where
  /-- A program among the operands was not run. -/
  | unresolved {name : String} {p : Program} (hmem : (name, .program p) ∈ i.operands) :
    Skips s i w (.error (.aborted (.unresolvedOperand s.tag name))) w
  /-- A signal that the values refer to does not exist. -/
  | gone {id : SignalId} (hresolved : i.isResolved = true)
    (hid : id ∈ Value.dependencies i.carried) (hgone : ¬ w.graph.contains id) :
    Skips s i w (.error (.aborted (.unknownSignal id))) w
  /-- The result depends on an input that is missing. -/
  | lacking {plain : List Value} {failure : Failure} {w' : World} (hresolved : i.isResolved = true)
    (hplain : i.carried.mapM w.graph.resolve = .ok plain) (hearly : Logic.early? s.tag plain = none)
    (hlacks : s.Lacks plain failure) (hsame : w'.graph.liveIds = w.graph.liveIds) :
    Skips s i w (.error (.aborted failure)) w'
  /-- The result does not depend on an input that is missing. -/
  | plain {value : Value} {w' : World} (hresolved : i.isResolved = true)
    (hflat : Value.dependencies i.carried = []) (hearly : Logic.early? s.tag i.carried = some value)
    (hsame : w'.graph = w.graph) : Skips s i w (.ok value) w'
  /-- The same, and a signal holds the result. -/
  | signal {plain : List Value} {value : Value} {id : SignalId} {w' : World}
    (hresolved : i.isResolved = true) (hreactive : Value.dependencies i.carried ≠ [])
    (hplain : i.carried.mapM w.graph.resolve = .ok plain)
    (hearly : Logic.early? s.tag plain = some value) (hvalue : w'.graph.value id = .ok value) :
    Skips s i w (.ok (.signal id)) w'

/-- A handler of logic handles an instruction as if its functions were not there. -/
theorem dispatch_skipping {rule : Logic.Rule} (hnodup : i.operandNames.Nodup) (hfits : s.Fits i)
    (hresolved : i.isResolved = true)
    (hhandler : Keyed.get? s.tag session.handlers = some (Logic.handler rule)) :
    dispatch session hooks i = dispatch session hooks ((s.skipping i).instruction i.carried) := by
  refine dispatch_congr hfits.tag_eq hfits.result_eq fun handler hother => ?_
  obtain rfl := Option.some.inj (hother.symm.trans hhandler)
  -- No name is repeated, so each value comes under its own name, with or without the functions.
  have hleft : ((s.skipping i).instruction i.carried).values = .ok i.carried :=
    Signature.values_instruction (s.nodup_skipping hnodup) (s.length_skipping i)
  unfold Logic.handler
  rw [Instruction.values_of_nodup hresolved hnodup, hleft, hfits.tag_eq]
  rfl

section

variable {rule : Logic.Rule} (hrule : (s, rule) ∈ Logic.rules) (hfits : s.Fits i)
  (hhandler : Keyed.get? s.tag session.handlers = some (Logic.handler rule))

include hrule hfits hhandler

/-- Nothing happens before all programs among the operands were run. -/
theorem skips_of_not_isResolved (h : i.isResolved = false) (hooks : Hooks) :
    ∃ outcome w', dispatch session hooks i w = (some outcome, w') ∧ Skips s i w outcome w' := by
  have hnodup : i.operandNames.Nodup := hfits.names_eq ▸ Logic.nodup_of_rules hrule
  obtain ⟨name, p, hmem, hvalues⟩ := Instruction.values_of_not_isResolved hnodup h
  have hrefused : Logic.handler rule i =
      .done (.error (.ofFailure (.unresolvedOperand i.tag name))) := by
    unfold Logic.handler
    rw [hvalues]
    rfl
  refine ⟨_, w, dispatch_refused (hfits.tag_eq ▸ hhandler) hrefused, ?_⟩
  rw [hfits.tag_eq]
  exact .unresolved hmem

/-- What comes of the values that are left. -/
theorem skips_of_isResolved (hfunction : ∃ name f, (name, .function f) ∈ i.operands)
    (hresolved : i.isResolved = true) (hgraph : w.graph.WellFormed) (hooks : Hooks) :
    ∃ outcome w', dispatch session hooks i w = (some outcome, w') ∧ Skips s i w outcome w' := by
  have hnodup : i.operandNames.Nodup := hfits.names_eq ▸ Logic.nodup_of_rules hrule
  have hknown : Keyed.get? (s.skipping i).tag session.handlers = some (Logic.handler rule) := hhandler
  have hcomputed : (s.skipping i).IsComputedBy (Logic.handler rule)
      (fun inputs => .done ((rule s.tag inputs).mapError .ofFailure))
      fun inputs => (rule s.tag inputs).mapError .ofFailure :=
    isComputedBy_rule (s.nodup_skipping hnodup) (Logic.sound_of_rules hrule).1
  have hlength := s.length_skipping i
  -- To whatever the values that are left are resolved, they are too few.
  have hends {plain : List Value} (hsame : plain.length = i.carried.length) :=
    (Logic.judges_of_rules hrule).ends (hsame ▸ hfits.length_carried_lt hfunction)
  rw [dispatch_skipping hnodup hfits hresolved hhandler]
  by_cases hflat : Value.dependencies i.carried = []
  · obtain ⟨journal, hdispatch⟩ := dispatch_plain hknown hcomputed hlength hflat hooks w
    refine ⟨_, _, hdispatch, ?_⟩
    rcases hends rfl with ⟨value, hearly, hresult⟩ | ⟨failure, hearly, hlacks, hresult⟩
    · rw [hresult]
      exact .plain hresolved hflat hearly rfl
    · rw [hresult]
      exact .lacking hresolved (Graph.mapM_resolve_of_dependencies_eq_nil hflat) hearly hlacks rfl
  by_cases hlive : ∀ p ∈ Value.dependencies i.carried, w.graph.contains p
  · obtain ⟨plain, hplain⟩ := Graph.exists_mapM_resolve_eq_ok hlive
    obtain ⟨outcome, w', hdispatch, -, hderived⟩ :=
      dispatch_reactive hknown hcomputed hlength hooks hgraph hflat hlive hplain
    refine ⟨outcome, w', hdispatch, ?_⟩
    unfold Derives at hderived
    rcases hends (Graph.forall₂_of_mapM_resolve hplain).length_eq.symm with
      ⟨value, hearly, hresult⟩ | ⟨failure, hearly, hlacks, hresult⟩
    · rw [hresult] at hderived
      obtain ⟨id, rfl, hvalue, -⟩ := hderived
      exact .signal hresolved hflat hplain hearly hvalue
    · rw [hresult] at hderived
      obtain ⟨rfl, hsame⟩ := hderived
      exact .lacking hresolved hplain hearly hlacks hsame
  · push Not at hlive
    obtain ⟨id, hid, hgone, hdispatch⟩ := dispatch_gone hknown hcomputed hlength hlive
    exact ⟨_, w, hdispatch, .gone hresolved hid hgone⟩

end

/-- **A function in the place of a value is refused by name and skipped by position.** Take any state that
a session gets to, and dispatch a pure instruction of the catalog with functions in the place of some
operands, whatever the others are. Outside of logic it fails on account of the first operand that is no
value, and nothing happens. An instruction of logic has its values read as if they were its first operands:
it ends with a value, or a signal that holds it, exactly if the result does not depend on the inputs that
are missing then, and otherwise it fails and leaves no signal behind. -/
theorem Reachable.functions_refused_or_skipped {start : World} {handler : Handler}
    (h : session.Reachable start) (hsteps : start.Steps w) (hcatalog : session.HandlesCatalog)
    (hs : s ∈ pureSignatures) (hhandler : Keyed.get? s.tag session.handlers = some handler)
    (hfits : s.Fits i) (hfunction : ∃ name f, (name, .function f) ∈ i.operands) (level : Nat) :
    ∃ outcome w', dispatch session (session.hooksAt level) i w = (some outcome, w') ∧
      if s.tag.space = "logic" then Skips s i w outcome w'
      else ∃ failure, i.refusal? = some failure ∧ outcome = .error (.aborted failure) ∧ w' = w := by
  obtain ⟨formatters, hmem⟩ := hcatalog s.tag handler (names_of_pure hs) hhandler
  rcases refuses_or_rules hs hmem with ⟨hspace, hrefuses⟩ | ⟨rule, hrule, rfl⟩
  · obtain ⟨failure, hrefusal⟩ := i.exists_refusal hfunction
    refine ⟨_, w, dispatch_refused (hfits.tag_eq ▸ hhandler) (hrefuses i failure hfits hrefusal), ?_⟩
    rw [if_neg hspace]
    exact ⟨failure, hrefusal, by rw [Instruction.ofFailure_of_refusal hrefusal], rfl⟩
  · simp only [if_pos (Logic.space_of_rules hrule)]
    have hgraph : w.graph.WellFormed := (hsteps.wellFormed h.wellFormed).now.graph
    cases hresolved : i.isResolved with
    | false => exact skips_of_not_isResolved hrule hfits hhandler hresolved _
    | true => exact skips_of_isResolved hrule hfits hhandler hfunction hresolved hgraph _

/-- A session that can add numbers and decide conditions. -/
private def deciding : Session :=
  ([Arithmetic.bundle, Logic.bundle].foldl HandlerTable.install .empty).session {}

private theorem deciding_handlesCatalog : deciding.HandlesCatalog := by
  have hinstalled : [Arithmetic.bundle, Logic.bundle] ⊆ bundles .default := by simp [bundles]
  exact handlesCatalog_of_bundles hinstalled {}

/-- A host function in the place of a value. -/
private def ignoring : Operand := .function fun _ => .pure .unit

private def adding : Instruction where
  tag := "math.add"
  operands := [("a", .value .unit), ("b", ignoring)]
  result := .number

private def joining : Instruction where
  tag := "logic.and"
  operands := [("left", ignoring), ("right", .value (.bool true))]
  result := .bool

/-- Without its first operand, the other condition decides nothing if it holds. -/
private theorem lacks_right {outcome : Except Interrupt Value} {w w' : World}
    (h : Skips ⟨"logic.and", ["left", "right"], .bool⟩ joining w outcome w') :
    outcome = .error (.aborted (.missingOperand "logic.and" "right")) := by
  cases h with
  | unresolved hmem => simp [joining, ignoring] at hmem
  | gone _ hid => exact absurd hid List.not_mem_nil
  | lacking _ hplain _ hlacks =>
    have hcarried : Except.ok [Value.bool true] = Except.ok _ := hplain
    obtain rfl := Except.ok.inj hcarried
    cases hlacks with
    | missing hname => rw [List.mem_singleton.1 hname]
    | cases htag => exact absurd htag (by decide)
  | plain _ _ hearly => cases hearly
  | signal _ hreactive => exact absurd rfl hreactive

theorem Reachable.functions_refused_or_skipped_deciding :
    deciding.HandlesCatalog ∧ Reachable deciding {} ∧
    Arithmetic.add (.value .unit) ignoring = .perform adding ∧
    Logic.and ignoring (.value (.bool true)) = .perform joining ∧
    dispatch deciding (deciding.hooksAt 0) adding {} =
      (some (.error (.aborted (.operandType "math.add" "b" "a value" "callable"))), {}) ∧
    ∃ w', dispatch deciding (deciding.hooksAt 0) joining {} =
      (some (.error (.aborted (.missingOperand "logic.and" "right"))), w') := by
  have hreach : Reachable deciding {} := .start .empty #[]
  refine ⟨deciding_handlesCatalog, hreach, rfl, rfl, ?_, ?_⟩
  · have hs : ⟨"math.add", ["a", "b"], .number⟩ ∈ pureSignatures := by simp [pureSignatures]
    have hfunction : ∃ name f, (name, .function f) ∈ adding.operands := ⟨"b", _, .tail _ (.head _)⟩
    obtain ⟨outcome, w', hdispatch, h⟩ := hreach.functions_refused_or_skipped .refl
      deciding_handlesCatalog hs rfl ⟨rfl, rfl, rfl⟩ hfunction 0
    obtain ⟨failure, hfailure, rfl, rfl⟩ := h
    obtain rfl := Option.some.inj hfailure
    exact hdispatch
  · have hs : ⟨"logic.and", ["left", "right"], .bool⟩ ∈ pureSignatures := by simp [pureSignatures]
    have hfunction : ∃ name f, (name, .function f) ∈ joining.operands := ⟨"left", _, .head _⟩
    obtain ⟨outcome, w', hdispatch, h⟩ := hreach.functions_refused_or_skipped .refl
      deciding_handlesCatalog hs rfl ⟨rfl, rfl, rfl⟩ hfunction 0
    obtain rfl := lacks_right h
    exact ⟨w', hdispatch⟩

/-- A condition that is a function is skipped, and what stands behind it decides instead: as if it stood in
front, or as if nothing were wrong. Where nothing is decided, it is the last operand that is said to be
missing, although it is there. -/
theorem Reachable.functions_skipped : deciding.HandlesCatalog ∧ Reachable deciding {} ∧
    (∃ i, Logic.and ignoring (.value (.bool false)) = .perform i ∧
      dispatch deciding (deciding.hooksAt 0) i {} = (some (.ok (.bool false)), {})) ∧
    (∃ i, Logic.ifElse ignoring (.value (.text "yes")) (.value (.text "no")) = .perform i ∧
      dispatch deciding (deciding.hooksAt 0) i {} = (some (.ok (.text "no")), {})) ∧
    ∃ i, Logic.equals ignoring (.value .unit) = .perform i ∧
      dispatch deciding (deciding.hooksAt 0) i {} =
        (some (.error (.aborted (.missingOperand "logic.equals" "right"))), {}) :=
  ⟨deciding_handlesCatalog, .start .empty #[], ⟨_, rfl, rfl⟩, ⟨_, rfl, rfl⟩, ⟨_, rfl, rfl⟩⟩

end Session

end EffectGraph
