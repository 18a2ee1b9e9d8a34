import EffectGraph.Proofs.Catalog.Reactions
import EffectGraph.Proofs.Failures
import EffectGraph.Proofs.Program.Named
import EffectGraph.Proofs.Session.Actions
import Mathlib.Tactic

/-!
# Pure instructions

The instructions on numbers, texts, lists and conditions and the one that shows values are pure:
their handlers hand all operands to one computation, whose result is a function of the values it is
given and has the declared shape (`Catalog.exists_isComputedBy`).
-/

namespace EffectGraph

/-- How an instruction is declared: its tag, the names of its operands and the shape of its result. -/
structure Signature where
  tag : Tag
  names : List String
  result : Shape

/-- The result has the declared shape, if there is one. -/
def Shape.Covers {ε : Type} (shape : Shape) (result : Except ε Value) : Prop :=
  ∀ value, result = .ok value → shape.admits value.shape

/-- The computation ends everywhere, with what the function gives, and writes into the journal at
most. -/
def Session.Computes (session : Session) (compute : List Value → Script)
    (f : List Value → Except Interrupt Value) : Prop :=
  ∀ inputs hooks w, ∃ journal,
    (compute inputs).exec session hooks w = (some (f inputs), { w with journal })

namespace Signature

variable (s : Signature)

/-- The instruction with these operands. -/
def instruction (values : List Value) : Instruction where
  tag := s.tag
  operands := (s.names.zip values).map fun operand => (operand.1, .value operand.2)
  result := s.result

/-- The handler has all operands of an instruction computed into a result of the declared shape. -/
structure IsComputedBy (handler : Handler) (compute : List Value → Script)
    (f : List Value → Except Interrupt Value) : Prop where
  derives : ∀ values : List Value, values.length = s.names.length →
    handler (s.instruction values) = .derive values compute .done
  computes : ∀ session : Session, session.Computes compute f
  covers : ∀ inputs, s.result.Covers (f inputs)

/-- Given as many values as the instruction has operands, the function does not blame the instruction. -/
def FailsOrdinarily (f : List Value → Except Interrupt Value) : Prop :=
  ∀ inputs : List Value, inputs.length = s.names.length →
    Fails (Interrupt.AbortsWith Failure.IsOrdinary) (f inputs)

/-- The handler refuses an instruction with an operand that cannot be read as a value. -/
def ReadsAll (handler : Handler) : Prop :=
  ∀ (i : Instruction) (name : String) (operand : Operand) (failure : Failure), name ∈ s.names →
    (name, operand) ∈ i.operands → operand.isFunction = false → i.value name = .error failure →
      ∃ interrupt, handler i = .done (.error interrupt)

/-- The handler is that of a pure instruction. -/
structure IsPure (handler : Handler) (compute : List Value → Script)
    (f : List Value → Except Interrupt Value) : Prop extends s.IsComputedBy handler compute f where
  fails : s.FailsOrdinarily f
  reads : s.ReadsAll handler

end Signature

/-! ## Shapes of results -/

namespace Shape.Covers

variable {ε ε' α : Type} {shape : Shape}

theorem ok {value : Value} (h : shape.admits value.shape) :
    shape.Covers (.ok value : Except ε Value) := by
  intro result hresult
  obtain rfl := Except.ok.inj hresult
  exact h

theorem any (result : Except ε Value) : Shape.any.Covers result := fun _ _ => rfl

/-- Only what comes last counts. -/
theorem bind {x : Except ε α} {f : α → Except ε Value} (h : ∀ a, shape.Covers (f a)) :
    shape.Covers (x >>= f) := by
  cases x with
  | error e => exact fun _ hresult => by cases hresult
  | ok a => exact h a

theorem mapError {x : Except ε Value} (h : shape.Covers x) (g : ε → ε') :
    shape.Covers (x.mapError g) := by
  cases x with
  | error e => exact fun _ hresult => by cases hresult
  | ok value => exact .ok (h value rfl)

end Shape.Covers

/-! ## Operands -/

namespace Signature

variable {s : Signature} {values : List Value}

theorem operandNames_instruction (hlength : values.length = s.names.length) :
    (s.instruction values).operandNames = s.names := by
  unfold Instruction.operandNames instruction
  rw [List.map_map]
  exact List.map_fst_zip hlength.ge

theorem isResolved_instruction : (s.instruction values).isResolved = true := by
  unfold Instruction.isResolved instruction
  simp [Operand.isProgram]

theorem carried_instruction (hlength : values.length = s.names.length) :
    (s.instruction values).carried = values := by
  unfold Instruction.carried instruction
  have hvalue : ((·.2.value?) ∘ fun operand : String × Value => (operand.1, Operand.value operand.2)) =
      some ∘ Prod.snd := rfl
  rw [List.filterMap_map, hvalue, List.filterMap_eq_map, List.map_snd_zip hlength.le]

/-- Each operand is found under its name. -/
theorem value_instruction (hnodup : s.names.Nodup) (hlength : values.length = s.names.length)
    {name : String} {value : Value} (h : (name, value) ∈ s.names.zip values) :
    (s.instruction values).value name = .ok value := by
  rw [← operandNames_instruction hlength] at hnodup
  exact Instruction.value_of_operand (Instruction.operand_of_mem hnodup (List.mem_map_of_mem h))

/-- All operands are found in their order. -/
theorem values_instruction (hnodup : s.names.Nodup) (hlength : values.length = s.names.length) :
    (s.instruction values).values = .ok values := by
  rw [← operandNames_instruction hlength] at hnodup
  rw [Instruction.values_of_nodup isResolved_instruction hnodup, carried_instruction hlength]

end Signature

namespace Catalog

open Exec

variable {s : Signature}

/-! ## Computations -/

theorem computes_done (session : Session) (f : List Value → Except Interrupt Value) :
    session.Computes (fun inputs => .done (f inputs)) f :=
  fun _ _ w => ⟨w.journal, rfl⟩

/-- A handler of two operands. -/
theorem isComputedBy_binaryHandler {first second : String} (hnames : s.names = [first, second])
    (hne : first ≠ second) {compute : Tag → List Value → Except Interrupt Value}
    (hcovers : ∀ inputs, s.result.Covers (compute s.tag inputs)) :
    s.IsComputedBy (binaryHandler first second compute) (fun inputs => .done (compute s.tag inputs))
      (compute s.tag) := by
  have hnodup : s.names.Nodup := by
    rw [hnames]
    simpa using hne
  refine ⟨fun values hlength => ?_, fun session => computes_done session _, hcovers⟩
  obtain ⟨a, b, rfl⟩ : ∃ a b, values = [a, b] := by
    rw [hnames] at hlength
    exact List.length_eq_two.1 hlength
  have ha : (s.instruction [a, b]).value first = .ok a :=
    Signature.value_instruction hnodup hlength (by simp [hnames])
  have hb : (s.instruction [a, b]).value second = .ok b :=
    Signature.value_instruction hnodup hlength (by simp [hnames])
  unfold binaryHandler
  rw [ha, hb]
  rfl

/-- A handler that follows a rule. -/
theorem isComputedBy_rule (hnodup : s.names.Nodup) {rule : Logic.Rule}
    (hcovers : ∀ inputs, s.result.Covers (rule s.tag inputs)) :
    s.IsComputedBy (Logic.handler rule)
      (fun inputs => .done ((rule s.tag inputs).mapError .ofFailure))
      (fun inputs => (rule s.tag inputs).mapError .ofFailure) := by
  refine ⟨fun values hlength => ?_, fun session => computes_done session _,
    fun inputs => (hcovers inputs).mapError _⟩
  have hscript (inputs : List Value) : (Routine.ofExcept (rule s.tag inputs)).script =
      .done ((rule s.tag inputs).mapError .ofFailure) := by
    cases rule s.tag inputs with
    | error failure => rfl
    | ok value => rfl
  unfold Logic.handler
  rw [Signature.values_instruction hnodup hlength]
  exact congrArg (Script.derive values · .done) (funext hscript)

/-- Reporting shapes writes into the journal. -/
theorem exec_reportMissing (session : Session) (hooks : Hooks) (shapes : List Shape)
    (next : Except Interrupt Unit → Script) (w : World) : ∃ journal,
      (Show.reportMissing shapes next).exec session hooks w =
        (next (.ok ())).exec session hooks { w with journal } := by
  induction shapes generalizing w with
  | nil => exact ⟨w.journal, rfl⟩
  | cons shape rest ih =>
    obtain ⟨journal, hrest⟩ := ih (w.report (.formatterMissing shape))
    exact ⟨journal, hrest⟩

/-- What showing a value computes. -/
def shown (formatters : Formatters) (inputs : List Value) : Except Interrupt Value :=
  (do
    let value ← input "show.show" inputs 0 "value"
    return .text (formatters.format value).1 : Except Failure Value).mapError .ofFailure

theorem isComputedBy_show (formatters : Formatters) :
    Signature.IsComputedBy ⟨"show.show", ["value"], .text⟩
      (fun i => Routine.script do
        let value ← i.value "value"
        Routine.derive [value] (Show.compute formatters))
      (fun inputs => (Show.compute formatters inputs).script) (shown formatters) := by
  refine ⟨fun values hlength => ?_, fun session inputs hooks w => ?_, fun inputs => ?_⟩
  · obtain ⟨value, rfl⟩ : ∃ value, values = [value] := List.length_eq_one_iff.1 hlength
    rfl
  · unfold shown Show.compute
    cases input "show.show" inputs 0 "value" with
    | error failure => exact ⟨w.journal, rfl⟩
    | ok value => exact exec_reportMissing session hooks (formatters.format value).2 _ w
  · exact .mapError (.bind fun value => .ok rfl) _

/-! ### Results -/

theorem covers_arithmetic (op : Float → Float → Except Interrupt Float) (tag : Tag)
    (inputs : List Value) : Shape.number.Covers (Arithmetic.compute op tag inputs) :=
  .bind fun _ => .bind fun _ => .bind fun _ => .ok rfl

theorem covers_concat (tag : Tag) (inputs : List Value) :
    Shape.text.Covers (Texts.computeConcat tag inputs) :=
  .bind fun _ => .bind fun _ => .ok rfl

theorem covers_append (tag : Tag) (inputs : List Value) :
    Shape.list.Covers (Lists.computeAppend tag inputs) :=
  .bind fun _ => .bind fun _ => .ok rfl

theorem covers_join (tag : Tag) (inputs : List Value) :
    Shape.text.Covers (Lists.computeJoin tag inputs) :=
  .bind fun _ => .bind fun _ => .ok rfl

theorem covers_and (tag : Tag) (inputs : List Value) :
    Shape.bool.Covers (Logic.andRule tag inputs) := by
  refine .bind fun left => ?_
  split
  · exact .bind fun _ => .ok rfl
  · exact .ok rfl

theorem covers_or (tag : Tag) (inputs : List Value) :
    Shape.bool.Covers (Logic.orRule tag inputs) := by
  refine .bind fun left => ?_
  split
  · exact .ok rfl
  · exact .bind fun _ => .ok rfl

/-! ### Reading all operands -/

theorem readsAll_binaryHandler {first second : String} (hnames : s.names = [first, second])
    (compute : Tag → List Value → Except Interrupt Value) :
    s.ReadsAll (binaryHandler first second compute) := by
  intro i name operand failure hname _ _ hfailed
  unfold binaryHandler
  cases hfirst : i.value first with
  | error other => exact ⟨.ofFailure other, rfl⟩
  | ok a =>
    have hsecond : i.value second = .error failure := by
      rw [hnames] at hname
      rcases List.mem_cons.1 hname with rfl | hname
      · cases hfirst.symm.trans hfailed
      · rwa [← List.mem_singleton.1 hname]
    rw [hsecond]
    exact ⟨.ofFailure failure, rfl⟩

theorem readsAll_rule (rule : Logic.Rule) : s.ReadsAll (Logic.handler rule) := by
  intro i name operand failure _ hmem hdata hfailed
  have hvalues : ∃ other, i.values = .error other := by
    have hread : (name, operand) ∈ i.operands.filter fun o => !o.2.isFunction :=
      List.mem_filter.2 ⟨hmem, by simp [hdata]⟩
    unfold Instruction.values
    generalize (i.operands.filter fun o => !o.2.isFunction) = operands at hread
    induction operands with
    | nil => exact absurd hread List.not_mem_nil
    | cons first rest ih =>
      rw [List.mapM_cons]
      rcases List.mem_cons.1 hread with rfl | hrest
      · exact ⟨failure, by rw [hfailed]; rfl⟩
      · obtain ⟨other, hother⟩ := ih hrest
        cases i.value first.1 with
        | error e => exact ⟨e, rfl⟩
        | ok v => exact ⟨other, by rw [hother]; rfl⟩
  obtain ⟨other, hother⟩ := hvalues
  unfold Logic.handler
  rw [hother]
  exact ⟨.ofFailure other, rfl⟩

theorem readsAll_show (formatters : Formatters) :
    Signature.ReadsAll ⟨"show.show", ["value"], .text⟩ (fun i => Routine.script do
      let value ← i.value "value"
      Routine.derive [value] (Show.compute formatters)) := by
  intro i name operand failure hname _ _ hfailed
  rw [List.mem_singleton.1 hname] at hfailed
  dsimp only
  rw [hfailed]
  exact ⟨.ofFailure failure, rfl⟩

/-! ### Failures -/

section

variable {inputs : List Value} {tag : Tag} {position : Nat}

theorem fails_input {P : Failure → Prop} (h : position < inputs.length) (name : String) :
    Fails P (input tag inputs position name) := by
  unfold input
  rw [List.getElem?_eq_getElem h]
  exact fails_ok _

theorem fails_inputAs {α : Type} (as? : Value → Option α) (expected : String)
    (h : position < inputs.length) (name : String) :
    Fails Failure.IsOrdinary (inputAs as? expected tag inputs position name) := by
  refine (fails_input h name).bind fun value _ => ?_
  cases as? value with
  | some a => exact fails_ok a
  | none => exact fails_error trivial

theorem fails_arithmetic {op : Float → Float → Except Interrupt Float}
    (hop : ∀ x y, Fails (Interrupt.AbortsWith Failure.IsOrdinary) (op x y))
    (h : inputs.length = 2) :
    Fails (Interrupt.AbortsWith Failure.IsOrdinary) (Arithmetic.compute op tag inputs) := by
  have hinput (k : Nat) (hk : k < 2) (name : String) :
      Fails (Interrupt.AbortsWith Failure.IsOrdinary)
        ((numberInput tag inputs k name).mapError .ofFailure) :=
    (fails_inputAs _ _ (by omega) name).mapError fun _ => Interrupt.abortsWith_ofFailure
  refine (hinput 0 (by omega) "a").bind fun x _ => (hinput 1 (by omega) "b").bind fun y _ => ?_
  exact (hop x y).bind fun z _ => fails_ok _

theorem fails_divide (x y : Float) :
    Fails (Interrupt.AbortsWith Failure.IsOrdinary) (Arithmetic.divide x y) := by
  unfold Arithmetic.divide
  split
  · exact fails_error fun _ h => by cases h
  · exact fails_ok _

theorem fails_concat (h : inputs.length = 2) :
    Fails Failure.IsOrdinary (Texts.computeConcat tag inputs) :=
  (fails_inputAs _ _ (by omega) "a").bind fun _ _ =>
    (fails_inputAs _ _ (by omega) "b").bind fun _ _ => fails_ok _

theorem fails_append (h : inputs.length = 2) :
    Fails Failure.IsOrdinary (Lists.computeAppend tag inputs) :=
  (fails_inputAs _ _ (by omega) "list").bind fun _ _ =>
    (fails_input (by omega) "item").bind fun _ _ => fails_ok _

theorem fails_join (h : inputs.length = 2) :
    Fails Failure.IsOrdinary (Lists.computeJoin tag inputs) :=
  (fails_inputAs _ _ (by omega) "list").bind fun _ _ =>
    (fails_inputAs _ _ (by omega) "separator").bind fun _ _ => fails_ok _

theorem fails_and (h : inputs.length = 2) : Fails Failure.IsOrdinary (Logic.andRule tag inputs) := by
  refine (fails_input (by omega) "left").bind fun left _ => ?_
  split
  · exact (fails_input (by omega) "right").bind fun _ _ => fails_ok _
  · exact fails_ok _

theorem fails_or (h : inputs.length = 2) : Fails Failure.IsOrdinary (Logic.orRule tag inputs) := by
  refine (fails_input (by omega) "left").bind fun left _ => ?_
  split
  · exact fails_ok _
  · exact (fails_input (by omega) "right").bind fun _ _ => fails_ok _

theorem fails_not (h : inputs.length = 1) : Fails Failure.IsOrdinary (Logic.notRule tag inputs) :=
  (fails_input (by omega) "value").bind fun _ _ => fails_ok _

theorem fails_equals (h : inputs.length = 2) :
    Fails Failure.IsOrdinary (Logic.equalsRule tag inputs) :=
  (fails_input (by omega) "left").bind fun _ _ =>
    (fails_input (by omega) "right").bind fun _ _ => fails_ok _

theorem fails_compare (h : inputs.length = 2) :
    Fails Failure.IsOrdinary (Logic.compare tag inputs) := by
  refine (fails_input (by omega) "left").bind fun left _ =>
    (fails_input (by omega) "right").bind fun right _ => ?_
  split
  · rename_i x y
    unfold Logic.compareNumbers
    split_ifs
    · exact fails_ok _
    · exact fails_ok _
    · exact fails_ok _
    · exact fails_error trivial
  · exact fails_ok _
  · exact fails_error trivial

theorem fails_ifElse (h : inputs.length = 3) :
    Fails Failure.IsOrdinary (Logic.ifElseRule tag inputs) := by
  refine (fails_input (by omega) "condition").bind fun condition _ => ?_
  split
  · exact fails_input (by omega) "then"
  · exact fails_input (by omega) "else"

theorem fails_match (h : inputs.length = 2) :
    Fails Failure.IsOrdinary (Logic.matchRule tag inputs) := by
  refine (fails_inputAs _ _ (by omega) "cases").bind fun cases _ => ?_
  split
  · exact fails_ok _
  · exact fails_input (by omega) "default"

theorem fails_shown (formatters : Formatters) (h : inputs.length = 1) :
    Fails (Interrupt.AbortsWith Failure.IsOrdinary) (shown formatters inputs) := by
  refine Fails.mapError ?_ fun failure => Interrupt.abortsWith_ofFailure
  exact (fails_input (by omega) "value").bind fun _ _ => fails_ok _

end

/-! ## The pure instructions -/

/-- The pure instructions of the catalog. -/
def pureSignatures : List Signature :=
  [⟨"math.add", ["a", "b"], .number⟩,
   ⟨"math.sub", ["a", "b"], .number⟩,
   ⟨"math.mul", ["a", "b"], .number⟩,
   ⟨"math.div", ["a", "b"], .number⟩,
   ⟨"text.concat", ["a", "b"], .text⟩,
   ⟨"list.append", ["list", "item"], .list⟩,
   ⟨"list.join", ["list", "separator"], .text⟩,
   ⟨"logic.and", ["left", "right"], .bool⟩,
   ⟨"logic.or", ["left", "right"], .bool⟩,
   ⟨"logic.not", ["value"], .bool⟩,
   ⟨"logic.equals", ["left", "right"], .bool⟩,
   ⟨"logic.greater_than", ["left", "right"], .bool⟩,
   ⟨"logic.less_than", ["left", "right"], .bool⟩,
   ⟨"logic.if_else", ["condition", "then", "else"], .any⟩,
   ⟨"logic.match", ["cases", "default"], .any⟩,
   ⟨"show.show", ["value"], .text⟩]

/-- They are instructions of the catalog. -/
theorem names_of_pure (hs : s ∈ pureSignatures) : Names s.tag := by
  have hall : ∀ s ∈ pureSignatures, Names s.tag := by decide
  exact hall s hs

/-- The programs of the catalog perform instructions that are put together this way. -/
example (a b : Value) : Arithmetic.add (.value a) (.value b) =
    .perform (Signature.instruction ⟨"math.add", ["a", "b"], .number⟩ [a, b]) := rfl

/-- No two handlers have the same tag. -/
theorem handlers_nodup (formatters : Formatters) : ((handlers formatters).map (·.1)).Nodup := by
  have htags : (handlers formatters).map (·.1) = (handlers .default).map (·.1) := rfl
  rw [htags]
  decide

/-- The instructions of logic and their rules. -/
def Logic.rules : List (Signature × Logic.Rule) :=
  [(⟨"logic.and", ["left", "right"], .bool⟩, Logic.andRule),
   (⟨"logic.or", ["left", "right"], .bool⟩, Logic.orRule),
   (⟨"logic.not", ["value"], .bool⟩, Logic.notRule),
   (⟨"logic.equals", ["left", "right"], .bool⟩, Logic.equalsRule),
   (⟨"logic.greater_than", ["left", "right"], .bool⟩, Logic.greaterRule),
   (⟨"logic.less_than", ["left", "right"], .bool⟩, Logic.lessRule),
   (⟨"logic.if_else", ["condition", "then", "else"], .any⟩, Logic.ifElseRule),
   (⟨"logic.match", ["cases", "default"], .any⟩, Logic.matchRule)]

theorem Logic.nodup_of_rules {rule : Logic.Rule} (h : (s, rule) ∈ Logic.rules) : s.names.Nodup := by
  have hall : ∀ s ∈ Logic.rules.map (·.1), s.names.Nodup := by decide
  exact hall s (List.mem_map_of_mem h)

/-- The rules give results of the declared shape, and do not blame an instruction with all operands. -/
theorem Logic.sound_of_rules {rule : Logic.Rule} (h : (s, rule) ∈ Logic.rules) :
    (∀ inputs, s.result.Covers (rule s.tag inputs)) ∧
      ∀ inputs : List Value, inputs.length = s.names.length →
        Fails Failure.IsOrdinary (rule s.tag inputs) := by
  simp only [Logic.rules, List.mem_cons, Prod.mk.injEq, List.not_mem_nil, or_false] at h
  rcases h with ⟨rfl, rfl⟩ | ⟨rfl, rfl⟩ | ⟨rfl, rfl⟩ | ⟨rfl, rfl⟩ | ⟨rfl, rfl⟩ | ⟨rfl, rfl⟩ |
    ⟨rfl, rfl⟩ | ⟨rfl, rfl⟩
  · exact ⟨covers_and _, fun _ => fails_and⟩
  · exact ⟨covers_or _, fun _ => fails_or⟩
  · exact ⟨fun _ => .bind fun _ => .ok rfl, fun _ => fails_not⟩
  · exact ⟨fun _ => .bind fun _ => .bind fun _ => .ok rfl, fun _ => fails_equals⟩
  · exact ⟨fun _ => .bind fun _ => .ok rfl, fun _ h => (fails_compare h).bind fun _ _ => fails_ok _⟩
  · exact ⟨fun _ => .bind fun _ => .ok rfl, fun _ h => (fails_compare h).bind fun _ _ => fails_ok _⟩
  · exact ⟨fun _ => .any _, fun _ => fails_ifElse⟩
  · exact ⟨fun _ => .any _, fun _ => fails_match⟩

/-- How the pure instructions are handled. -/
inductive IsHandledBy (formatters : Formatters) : Signature → Handler → Prop where
  /-- Two operands are read by their names. -/
  | named {s : Signature} {first second : String}
    {compute : Tag → List Value → Except Interrupt Value} (hspace : s.tag.space ≠ "logic")
    (hnames : s.names = [first, second]) (hne : first ≠ second)
    (hcovers : ∀ inputs, s.result.Covers (compute s.tag inputs))
    (hfails : s.FailsOrdinarily (compute s.tag)) :
    IsHandledBy formatters s (binaryHandler first second compute)
  /-- A rule reads all values by their positions. -/
  | rule {s : Signature} {rule : Logic.Rule} (h : (s, rule) ∈ Logic.rules) :
    IsHandledBy formatters s (Logic.handler rule)
  /-- A value is shown. -/
  | shown : IsHandledBy formatters ⟨"show.show", ["value"], .text⟩ fun i => Routine.script do
      let value ← i.value "value"
      Routine.derive [value] (Show.compute formatters)

theorem isHandledBy (hs : s ∈ pureSignatures) {formatters : Formatters} {handler : Handler}
    (hhandler : (s.tag, handler) ∈ handlers formatters) : IsHandledBy formatters s handler := by
  have hunique {other : Handler} (hother : (s.tag, other) ∈ handlers formatters)
      (h : IsHandledBy formatters s other) : IsHandledBy formatters s handler := by
    obtain rfl : other = handler :=
      congrArg Prod.snd (List.inj_on_of_nodup_map (handlers_nodup formatters) hother hhandler rfl)
    exact h
  have harithmetic : Arithmetic.bundle.handlers ⊆ handlers formatters :=
    bundle_subset_handlers (by simp [bundles])
  have htexts : Texts.bundle.handlers ⊆ handlers formatters :=
    bundle_subset_handlers (by simp [bundles])
  have hlists : Lists.bundle.handlers ⊆ handlers formatters :=
    bundle_subset_handlers (by simp [bundles])
  have hlogic : Logic.bundle.handlers ⊆ handlers formatters :=
    bundle_subset_handlers (by simp [bundles])
  have hshow : (Show.bundle formatters).handlers ⊆ handlers formatters :=
    bundle_subset_handlers (by simp [bundles])
  have hrule (k : Nat) {rule : Logic.Rule}
      (hentry : Logic.bundle.handlers[k]? = some (s.tag, Logic.handler rule))
      (hmem : Logic.rules[k]? = some (s, rule)) : IsHandledBy formatters s handler :=
    hunique (hlogic (List.mem_of_getElem? hentry)) (.rule (List.mem_of_getElem? hmem))
  simp only [pureSignatures, List.mem_cons, List.not_mem_nil, or_false] at hs
  rcases hs with rfl | rfl | rfl | rfl | rfl | rfl | rfl | rfl | rfl | rfl | rfl | rfl | rfl | rfl |
    rfl | rfl
  · exact hunique (harithmetic (List.mem_of_getElem? (i := 0) rfl)) (.named (by decide) rfl (by decide)
      (covers_arithmetic _ _) fun _ => fails_arithmetic fun _ _ => fails_ok _)
  · exact hunique (harithmetic (List.mem_of_getElem? (i := 1) rfl)) (.named (by decide) rfl (by decide)
      (covers_arithmetic _ _) fun _ => fails_arithmetic fun _ _ => fails_ok _)
  · exact hunique (harithmetic (List.mem_of_getElem? (i := 2) rfl)) (.named (by decide) rfl (by decide)
      (covers_arithmetic _ _) fun _ => fails_arithmetic fun _ _ => fails_ok _)
  · exact hunique (harithmetic (List.mem_of_getElem? (i := 3) rfl)) (.named (by decide) rfl (by decide)
      (covers_arithmetic _ _) fun _ => fails_arithmetic fails_divide)
  · exact hunique (htexts (List.mem_of_getElem? (i := 0) rfl)) (.named (by decide) rfl (by decide)
      (fun _ => (covers_concat _ _).mapError _)
      fun _ h => (fails_concat h).mapError fun _ => Interrupt.abortsWith_ofFailure)
  · exact hunique (hlists (List.mem_of_getElem? (i := 0) rfl)) (.named (by decide) rfl (by decide)
      (fun _ => (covers_append _ _).mapError _)
      fun _ h => (fails_append h).mapError fun _ => Interrupt.abortsWith_ofFailure)
  · exact hunique (hlists (List.mem_of_getElem? (i := 1) rfl)) (.named (by decide) rfl (by decide)
      (fun _ => (covers_join _ _).mapError _)
      fun _ h => (fails_join h).mapError fun _ => Interrupt.abortsWith_ofFailure)
  · exact hrule 0 rfl rfl
  · exact hrule 1 rfl rfl
  · exact hrule 2 rfl rfl
  · exact hrule 3 rfl rfl
  · exact hrule 4 rfl rfl
  · exact hrule 5 rfl rfl
  · exact hrule 6 rfl rfl
  · exact hrule 7 rfl rfl
  · exact hunique (hshow (List.mem_of_getElem? (i := 0) rfl)) .shown

/-- The handler of every pure instruction is that of one. -/
theorem exists_isPure (hs : s ∈ pureSignatures) {formatters : Formatters}
    {handler : Handler} (hhandler : (s.tag, handler) ∈ handlers formatters) :
    ∃ compute f, s.IsPure handler compute f := by
  cases isHandledBy hs hhandler with
  | named _ hnames hne hcovers hfails =>
    exact ⟨_, _, isComputedBy_binaryHandler hnames hne hcovers, hfails,
      readsAll_binaryHandler hnames _⟩
  | rule h =>
    obtain ⟨hcovers, hfails⟩ := Logic.sound_of_rules h
    exact ⟨_, _, isComputedBy_rule (Logic.nodup_of_rules h) hcovers, fun inputs hlength =>
      (hfails inputs hlength).mapError fun _ => Interrupt.abortsWith_ofFailure, readsAll_rule _⟩
  | shown =>
    exact ⟨_, _, isComputedBy_show formatters, fun _ => fails_shown formatters,
      readsAll_show formatters⟩

/-- Every pure instruction has all its operands computed into a result of its shape. -/
theorem exists_isComputedBy (hs : s ∈ pureSignatures) {formatters : Formatters} {handler : Handler}
    (hhandler : (s.tag, handler) ∈ handlers formatters) :
    ∃ compute f, s.IsComputedBy handler compute f := by
  obtain ⟨compute, f, hpure⟩ := exists_isPure hs hhandler
  exact ⟨compute, f, hpure.toIsComputedBy⟩

end Catalog

end EffectGraph
