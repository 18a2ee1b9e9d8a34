import EffectGraph.Proofs.Catalog.Pure
import EffectGraph.Proofs.Program.Performing

/-!
# The instructions of the catalog

`Catalog.Builds` lists the programs of one instruction that the catalog builds, from values, programs
and host functions. All of them have one of the forms in `Catalog.signatures`: a tag, the names of its
operands and the shape of its result (`Catalog.Builds.forms`). An instruction of such a form carries
all operands that its handler asks for.
-/

namespace EffectGraph

/-- The operand is a value, or a program that gives one. -/
def Operand.IsData (operand : Operand) : Prop := operand.isFunction = false

namespace Catalog

/-- The program performs one instruction, which the catalog builds from data and host functions. -/
inductive Builds : Program → Prop where
  | add {a b : Operand} (ha : a.IsData) (hb : b.IsData) : Builds (Arithmetic.add a b)
  | sub {a b : Operand} (ha : a.IsData) (hb : b.IsData) : Builds (Arithmetic.sub a b)
  | mul {a b : Operand} (ha : a.IsData) (hb : b.IsData) : Builds (Arithmetic.mul a b)
  | div {a b : Operand} (ha : a.IsData) (hb : b.IsData) : Builds (Arithmetic.div a b)
  | concat {a b : Operand} (ha : a.IsData) (hb : b.IsData) : Builds (Texts.concat a b)
  | append {list item : Operand} (hlist : list.IsData) (hitem : item.IsData) :
    Builds (Lists.append list item)
  | join {list separator : Operand} (hlist : list.IsData) (hseparator : separator.IsData) :
    Builds (Lists.join list separator)
  | and {left right : Operand} (hleft : left.IsData) (hright : right.IsData) :
    Builds (Logic.and left right)
  | or {left right : Operand} (hleft : left.IsData) (hright : right.IsData) :
    Builds (Logic.or left right)
  | not {value : Operand} (hvalue : value.IsData) : Builds (Logic.not value)
  | equals {left right : Operand} (hleft : left.IsData) (hright : right.IsData) :
    Builds (Logic.equals left right)
  | greaterThan {left right : Operand} (hleft : left.IsData) (hright : right.IsData) :
    Builds (Logic.greaterThan left right)
  | lessThan {left right : Operand} (hleft : left.IsData) (hright : right.IsData) :
    Builds (Logic.lessThan left right)
  | ifElse {condition thenValue elseValue : Operand} (hcondition : condition.IsData)
    (hthen : thenValue.IsData) (helse : elseValue.IsData) :
    Builds (Logic.ifElse condition thenValue elseValue)
  | matchFirst (cases : List (Program × Program)) {default : Operand} (hdefault : default.IsData) :
    Builds (Logic.matchFirst cases default)
  | «show» {value : Operand} (hvalue : value.IsData) : Builds (Show.show value)
  | log {message : Operand} (hmessage : message.IsData) : Builds (Log.log message)
  | getElementById {domId : Operand} (hdomId : domId.IsData) : Builds (Elements.getElementById domId)
  | getProperty {prop target : Operand} (hprop : prop.IsData) (htarget : target.IsData) :
    Builds (Elements.getProperty prop target)
  | setProperty {prop value target : Operand} (hprop : prop.IsData) (hvalue : value.IsData)
    (htarget : target.IsData) : Builds (Elements.setProperty prop value target)
  | cell {initial : Operand} (hinitial : initial.IsData) : Builds (Signals.cell initial)
  | sample {signal : Operand} (hsignal : signal.IsData) : Builds (Signals.sample signal)
  | set {signal value : Operand} (hsignal : signal.IsData) (hvalue : value.IsData) :
    Builds (Signals.set signal value)
  | modify {signal : Operand} (hsignal : signal.IsData) (f : Value → Value) :
    Builds (Signals.modify signal f)
  | on {event target : Operand} (hevent : event.IsData) (htarget : target.IsData) :
    Builds (Events.on event target)
  | source {name : Operand} (hname : name.IsData) : Builds (Events.source name)
  | fold {source initial : Operand} (hsource : source.IsData) (hinitial : initial.IsData)
    (reducer : Value → Value → Value) : Builds (Events.fold source initial reducer)
  | foldWith {source initial : Operand} (hsource : source.IsData) (hinitial : initial.IsData)
    (reducer : List Value → Program) : Builds (Events.foldWith source initial (.function reducer))
  | foldM {source initial : Operand} (hsource : source.IsData) (hinitial : initial.IsData)
    (reducer : Value → Value → Program) : Builds (Events.foldM source initial reducer)
  | constantOn {source value : Operand} (hsource : source.IsData) (hvalue : value.IsData) :
    Builds (Events.constantOn source value)
  | listen {source : Operand} (hsource : source.IsData) (handler : Value → Program) :
    Builds (Events.listen source handler)
  | merge {left right : Operand} (hleft : left.IsData) (hright : right.IsData) :
    Builds (Events.merge left right)

/-- The instructions that do more than compute a value. -/
def effectSignatures : List Signature :=
  [⟨"debug.log", ["message"], .unit⟩,
   ⟨"dom.get_element_by_id", ["id"], .record⟩,
   ⟨"dom.get_property", ["prop", "target"], .any⟩,
   ⟨"dom.set_property", ["prop", "value", "target"], .unit⟩,
   ⟨"signal.cell", ["initial"], .signal⟩,
   ⟨"signal.sample", ["signal"], .any⟩,
   ⟨"signal.set", ["signal", "value"], .unit⟩,
   ⟨"signal.modify", ["signal", "update"], .unit⟩,
   ⟨"event.on", ["event", "target"], .source⟩,
   ⟨"event.source", ["name"], .source⟩,
   ⟨"event.fold", ["source", "initial", "reducer"], .signal⟩,
   ⟨"event.fold_m", ["source", "initial", "reducer"], .signal⟩,
   ⟨"event.constant_on", ["source", "value"], .signal⟩,
   ⟨"event.listen", ["source", "handler"], .unit⟩,
   ⟨"event.merge", ["left", "right"], .source⟩]

/-- The forms of all instructions of the catalog. -/
def signatures : List Signature := pureSignatures ++ effectSignatures

/-- The names of the operands that are host functions. -/
def functionNames : List String := ["update", "reducer", "handler"]

end Catalog

/-- The instruction has this form, and only operands that shall be functions are functions. -/
structure Signature.Declares (s : Signature) (i : Instruction) : Prop where
  tag_eq : i.tag = s.tag
  names_eq : i.operandNames = s.names
  result_eq : i.result = s.result
  data : ∀ operand ∈ i.operands, operand.1 ∉ Catalog.functionNames → operand.2.IsData

namespace Catalog

/-- The instruction has a form of the catalog. -/
def Forms (i : Instruction) : Prop := ∃ s ∈ signatures, s.Declares i

/-- All that the catalog builds has one of its forms. -/
theorem Builds.forms {i : Instruction} (h : Builds (.perform i)) : Forms i := by
  generalize hp : Program.perform i = p at h
  cases h
  all_goals
    obtain rfl := Program.perform.inj hp
    refine ⟨⟨_, _, _⟩, ?_, rfl, rfl, rfl, ?_⟩
    · unfold signatures pureSignatures effectSignatures
      repeat' first | exact List.mem_cons_self | apply List.mem_cons_of_mem
    · -- Each operand is data, or it has the name of a function.
      repeat' first | exact List.forall_mem_nil _ | refine List.forall_mem_cons.2 ⟨fun hname => ?_, ?_⟩
      all_goals first | assumption | exact rfl | simp [functionNames] at hname

/-! ## Running operands -/

/-- An instruction keeps its form when one of its program operands is replaced by a value. -/
theorem forms_fills : Instruction.Fills Forms := by
  rintro i p fill ⟨s, hs, h⟩ hpending value
  obtain ⟨front, name, back, hoperands, -, rfl⟩ := Instruction.operands_of_pending hpending
  refine ⟨s, hs, h.tag_eq, ?_, h.result_eq, fun operand hmem hname => ?_⟩
  · rw [← h.names_eq]
    simp [Instruction.operandNames, hoperands]
  · rcases List.mem_append.1 hmem with hfront | hback
    · exact h.data operand (by simp [hoperands, hfront]) hname
    · rcases List.mem_cons.1 hback with rfl | hback
      · rfl
      · exact h.data operand (by simp [hoperands, hback]) hname

end Catalog

/-! ## Reading operands -/

/-- Reading the operands of the instruction fails for one of these reasons, if it has operands of the
names that are asked for. -/
structure Instruction.Reads (P : Failure → Prop) (i : Instruction) : Prop where
  ordinary : ∀ failure : Failure, failure.IsOrdinary → P failure
  resolved : i.pending? = none ∨ ∀ failure, P failure

theorem Instruction.not_mem_of_pending?_eq_none {i : Instruction} (h : i.pending? = none)
    (name : String) (p : Program) : (name, Operand.program p) ∉ i.operands := by
  have hnone := findPending?_eq_none h
  generalize i.operands = operands at hnone
  induction operands with
  | nil => exact List.not_mem_nil
  | cons operand rest ih =>
    obtain ⟨name', operand⟩ := operand
    cases operand with
    | program q => simp [findPending?] at hnone
    | value v => simpa using ih (by simpa [findPending?] using hnone)
    | function f => simpa using ih (by simpa [findPending?] using hnone)

namespace Signature.Declares

variable {s : Signature} {i : Instruction} {P : Failure → Prop} {name : String}
  (h : s.Declares i) (hname : name ∈ s.names)

include h hname

theorem exists_operand : ∃ operand, i.operand name = .ok operand ∧ (name, operand) ∈ i.operands := by
  rw [← h.names_eq, Instruction.operandNames, List.mem_map] at hname
  obtain ⟨⟨name, operand⟩, hmem, rfl⟩ := hname
  exact Instruction.exists_operand_of_mem hmem

theorem fails_value (hreads : i.Reads P) : Fails P (i.value name) := by
  obtain ⟨operand, hoperand, hmem⟩ := h.exists_operand hname
  unfold Instruction.value
  rw [hoperand]
  cases operand with
  | value v => exact fails_ok v
  | function f => exact fails_error (hreads.ordinary _ trivial)
  | program p =>
    rcases hreads.resolved with hnone | hall
    · exact absurd hmem (Instruction.not_mem_of_pending?_eq_none hnone name p)
    · exact fails_error (hall _)

theorem fails_read (hreads : i.Reads P) {α : Type} (expected : String) (as? : Value → Option α) :
    Fails P (i.read name expected as?) := by
  refine (h.fails_value hname hreads).bind fun v _ => ?_
  cases as? v with
  | some a => exact fails_ok a
  | none => exact fails_error (hreads.ordinary _ trivial)

theorem fails_function (hreads : i.Reads P) : Fails P (i.function name) := by
  obtain ⟨operand, hoperand, -⟩ := h.exists_operand hname
  unfold Instruction.function
  rw [hoperand]
  cases operand with
  | function f => exact fails_ok f
  | value | program => exact fails_error (hreads.ordinary _ trivial)

end Signature.Declares

/-! ## Pure instructions -/

/-- Nothing but values is put together to an instruction that carries values. -/
theorem Signature.Declares.eq_instruction {s : Signature} {i : Instruction} (h : s.Declares i)
    (hvalues : ∀ operand ∈ i.operands, ∃ value, operand.2 = .value value) :
    ∃ values : List Value, values.length = s.names.length ∧ i = s.instruction values := by
  obtain ⟨tag, operands, result⟩ := i
  obtain ⟨rfl, hnames, rfl, -⟩ := h
  have hzip : ∃ values : List Value, values.length = (operands.map (·.1)).length ∧
      operands = ((operands.map (·.1)).zip values).map fun pair => (pair.1, .value pair.2) := by
    clear hnames
    induction operands with
    | nil => exact ⟨[], rfl, rfl⟩
    | cons operand rest ih =>
      obtain ⟨value, hvalue⟩ := hvalues operand List.mem_cons_self
      obtain ⟨values, hlength, hrest⟩ := ih fun other hother =>
        hvalues other (List.mem_cons_of_mem _ hother)
      refine ⟨value :: values, by simp [hlength], ?_⟩
      rw [List.map_cons, List.zip_cons_cons, List.map_cons, ← hrest]
      exact congrArg (· :: rest) (Prod.ext rfl hvalue)
  obtain ⟨values, hlength, hoperands⟩ := hzip
  have hnames' : operands.map (·.1) = s.names := hnames
  rw [hnames'] at hlength hoperands
  exact ⟨values, hlength, by rw [Signature.instruction, ← hoperands]⟩

namespace Catalog

variable {s : Signature} {i : Instruction}

theorem pureSignatures_names (hs : s ∈ pureSignatures) :
    s.names.Nodup ∧ ∀ name ∈ s.names, name ∉ functionNames := by
  have hall : ∀ s ∈ pureSignatures, s.names.Nodup ∧ ∀ name ∈ s.names, name ∉ functionNames := by
    decide
  exact hall s hs

/-- An operand that was not run is what a handler cannot read. -/
theorem value_of_program (hnodup : i.operandNames.Nodup) {name : String} {p : Program}
    (hmem : (name, Operand.program p) ∈ i.operands) :
    i.value name = .error (.unresolvedOperand i.tag name) := by
  unfold Instruction.value
  rw [Instruction.operand_of_mem hnodup hmem]
  rfl

/-- A pure instruction is handled in one of two ways: it is refused, since a program among its operands
was not run, or it carries values only. -/
theorem handled_of_pure (hs : s ∈ pureSignatures) (h : s.Declares i) {formatters : Formatters}
    {handler : Handler} (hhandler : (s.tag, handler) ∈ handlers formatters) :
    (i.pending? ≠ none ∧ ∃ interrupt, handler i = .done (.error interrupt)) ∨
      ∃ values : List Value, values.length = s.names.length ∧ i = s.instruction values := by
  obtain ⟨hnodup, hdata⟩ := pureSignatures_names hs
  by_cases hvalues : ∀ operand ∈ i.operands, ∃ value, operand.2 = .value value
  · exact .inr (h.eq_instruction hvalues)
  · left
    obtain ⟨compute, f, hpure⟩ := exists_isPure hs hhandler
    push Not at hvalues
    obtain ⟨⟨name, operand⟩, hmem, hother⟩ := hvalues
    have hname : name ∈ s.names := by
      rw [← h.names_eq]
      exact List.mem_map_of_mem hmem
    have hisdata := h.data _ hmem (hdata name hname)
    cases operand with
    | value v => exact absurd rfl (hother v)
    | function f => cases hisdata
    | program p =>
      have hfailed := value_of_program (h.names_eq ▸ hnodup) hmem
      refine ⟨fun hnone => ?_, hpure.reads i name _ _ hname hmem rfl hfailed⟩
      exact Instruction.not_mem_of_pending?_eq_none hnone name p hmem

end Catalog

end EffectGraph
