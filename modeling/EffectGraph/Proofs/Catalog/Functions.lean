import EffectGraph.Proofs.Catalog.Pure
import EffectGraph.Proofs.Program.Named

/-!
# Functions in the place of values

The operands of the pure instructions shall be values, but nothing keeps a host from giving functions in
their place. The handlers that read their operands by name refuse such an instruction. Those of logic ask
for all values instead, and read them by position: a function is skipped, and a value behind it is read as
if it stood one place further to the front. Mostly the last input is missing then, but some rules come to
a result without it (`Catalog.Logic.early?`).
-/

namespace EffectGraph

/-- The failure of reading an operand as a value, if it is none. -/
def Operand.refusal? (tag : Tag) (name : String) : Operand → Option Failure
  | .value _ => none
  | .program _ => some (.unresolvedOperand tag name)
  | .function _ => some (.operandType tag name "a value" "callable")

namespace Instruction

/-- The failure of the first operand that is no value. -/
def refusal? (i : Instruction) : Option Failure := i.operands.findSome? fun o => o.2.refusal? i.tag o.1

variable {i : Instruction} {name : String} {operand : Operand} {failure : Failure}

theorem value_of_refusal (hnodup : i.operandNames.Nodup) (hmem : (name, operand) ∈ i.operands)
    (h : operand.refusal? i.tag name = some failure) : i.value name = .error failure := by
  unfold Instruction.value
  rw [operand_of_mem hnodup hmem]
  cases operand with
  | value v => cases h
  | program p | function f =>
    obtain rfl := Option.some.inj h
    rfl

theorem exists_refusal (i : Instruction) (h : ∃ name f, (name, .function f) ∈ i.operands) :
    ∃ failure, i.refusal? = some failure := by
  obtain ⟨name, f, hmem⟩ := h
  have hsome : i.refusal?.isSome := List.findSome?_isSome_iff.2 ⟨_, hmem, rfl⟩
  exact Option.isSome_iff_exists.1 hsome

theorem ofFailure_of_refusal (h : i.refusal? = some failure) :
    Interrupt.ofFailure failure = .aborted failure := by
  obtain ⟨⟨name, operand⟩, -, hrefusal⟩ := List.exists_of_findSome?_eq_some h
  cases operand with
  | value v => cases hrefusal
  | program p | function f =>
    obtain rfl := Option.some.inj hrefusal
    rfl

/-- There is no asking for all values before all programs among the operands were run. -/
theorem values_of_not_isResolved (hnodup : i.operandNames.Nodup) (h : i.isResolved = false) :
    ∃ name p, (name, .program p) ∈ i.operands ∧
      i.values = .error (.unresolvedOperand i.tag name) := by
  obtain ⟨pending, hpending, hprogram⟩ : ∃ o ∈ i.operands, o.2.isProgram = true := by
    simpa [isResolved] using h
  have hread : pending ∈ i.operands.filter fun o => !o.2.isFunction := by
    refine List.mem_filter.2 ⟨hpending, ?_⟩
    cases hkind : pending.2 with
    | function f => simp [hkind, Operand.isProgram] at hprogram
    | value | program => rfl
  have hasked : ∀ o ∈ i.operands.filter (fun o => !o.2.isFunction),
      o ∈ i.operands ∧ o.2.isFunction = false := by simp
  unfold values
  -- By induction on what is asked for: the values in front of the first program come, and it fails.
  generalize (i.operands.filter fun o => !o.2.isFunction) = asked at hread hasked
  induction asked with
  | nil => exact absurd hread List.not_mem_nil
  | cons first rest ih =>
    obtain ⟨⟨hmem, hdata⟩, hrest⟩ := List.forall_mem_cons.1 hasked
    obtain ⟨name, operand⟩ := first
    rw [List.mapM_cons]
    cases operand with
    | value v =>
      rw [value_of_operand (operand_of_mem hnodup hmem)]
      have hlater : pending ∈ rest := by
        refine (List.mem_cons.1 hread).resolve_left ?_
        rintro rfl
        cases hprogram
      obtain ⟨name, p, hmem, hfailed⟩ := ih hlater hrest
      exact ⟨name, p, hmem, by rw [hfailed]; rfl⟩
    | program p => exact ⟨name, p, hmem, by rw [value_of_refusal hnodup hmem rfl]; rfl⟩
    | function f => cases hdata

end Instruction

namespace Signature

/-- The instruction has this form, whatever its operands are. -/
structure Fits (s : Signature) (i : Instruction) : Prop where
  tag_eq : i.tag = s.tag
  names_eq : i.operandNames = s.names
  result_eq : i.result = s.result

/-- The handler reads all operands as values, and refuses an instruction on account of the first that is
none. -/
def RefusesFirst (s : Signature) (handler : Handler) : Prop :=
  ∀ i failure, s.Fits i → i.refusal? = some failure → handler i = .done (.error (.ofFailure failure))

/-- The failure is that of too few inputs. -/
inductive Lacks (s : Signature) (inputs : List Value) : Failure → Prop where
  /-- One of the last inputs is missing. -/
  | missing {name : String} (h : name ∈ s.names.drop inputs.length) :
    Lacks s inputs (.missingOperand s.tag name)
  /-- What stands in the place of cases is no list. -/
  | cases {value : Value} {rest : List Value} (htag : s.tag = "logic.match")
    (hinputs : inputs = value :: rest) (hvalue : value.items? = none) :
    Lacks s inputs (.operandType s.tag "cases" "a list" value.shape.name)

variable {s : Signature}

theorem Lacks.ofFailure {inputs : List Value} {failure : Failure} (h : s.Lacks inputs failure) :
    Interrupt.ofFailure failure = .aborted failure := by
  cases h with
  | missing | cases => rfl

theorem refusesFirst_binaryHandler {first second : String} (hnames : s.names = [first, second])
    (hne : first ≠ second) (compute : Tag → List Value → Except Interrupt Value) :
    s.RefusesFirst (Catalog.binaryHandler first second compute) := by
  intro i failure h hrefusal
  have hnodup : i.operandNames.Nodup := by
    rw [h.names_eq, hnames]
    simpa using hne
  obtain ⟨a, b, hoperands⟩ : ∃ a b, i.operands = [(first, a), (second, b)] := by
    have hmap : i.operands.map (·.1) = [first, second] := h.names_eq.trans hnames
    obtain ⟨⟨name, a⟩, rest, hcons, rfl, hrest⟩ := List.map_eq_cons_iff.1 hmap
    obtain ⟨⟨name', b⟩, rfl, rfl⟩ := List.map_eq_singleton_iff.1 hrest
    exact ⟨a, b, hcons⟩
  have ha : (first, a) ∈ i.operands := by simp [hoperands]
  have hb : (second, b) ∈ i.operands := by simp [hoperands]
  unfold Instruction.refusal? at hrefusal
  rw [hoperands] at hrefusal
  unfold Catalog.binaryHandler
  cases hfirst : a.refusal? i.tag first with
  | some other =>
    obtain rfl : other = failure := by simpa [hfirst] using hrefusal
    rw [Instruction.value_of_refusal hnodup ha hfirst]
    rfl
  | none =>
    have hsecond : b.refusal? i.tag second = some failure := by simpa [hfirst] using hrefusal
    cases a with
    | value v =>
      rw [Instruction.value_of_operand (Instruction.operand_of_mem hnodup ha),
        Instruction.value_of_refusal hnodup hb hsecond]
      rfl
    | program p | function f => cases hfirst

theorem refusesFirst_show (formatters : Catalog.Formatters) :
    RefusesFirst ⟨"show.show", ["value"], .text⟩ (fun i => Routine.script do
      let value ← i.value "value"
      Routine.derive [value] (Catalog.Show.compute formatters)) := by
  intro i failure h hrefusal
  obtain ⟨a, hoperands⟩ : ∃ a, i.operands = [("value", a)] := by
    obtain ⟨⟨name, a⟩, hsingle, rfl⟩ := List.map_eq_singleton_iff.1 h.names_eq
    exact ⟨a, hsingle⟩
  have hnodup : i.operandNames.Nodup := by simp [h.names_eq]
  have hfirst : a.refusal? i.tag "value" = some failure := by
    simpa [Instruction.refusal?, hoperands] using hrefusal
  dsimp only
  rw [Instruction.value_of_refusal hnodup (by simp [hoperands]) hfirst]
  rfl

/-! ## Skipping functions -/

/-- The form that is left of an instruction without its functions. -/
def skipping (s : Signature) (i : Instruction) : Signature where
  tag := s.tag
  names := i.given.map (·.1)
  result := s.result

variable {i : Instruction}

theorem nodup_skipping (s : Signature) (hnodup : i.operandNames.Nodup) :
    (s.skipping i).names.Nodup := by
  have hsub : (i.given.map (·.1)).Sublist i.operandNames := by
    unfold Instruction.given Instruction.operandNames
    generalize i.operands = operands
    induction operands with
    | nil => exact .slnil
    | cons operand rest ih =>
      obtain ⟨name, operand⟩ := operand
      cases operand with
      | value v => exact ih.cons_cons name
      | program p | function f => exact ih.cons name
  exact hnodup.sublist hsub

theorem length_skipping (s : Signature) (i : Instruction) :
    i.carried.length = (s.skipping i).names.length := by
  rw [← Instruction.map_given]
  simp [skipping]

/-- With a function among the operands there are too few values. -/
theorem Fits.length_carried_lt (h : s.Fits i) (hfunction : ∃ name f, (name, .function f) ∈ i.operands) :
    i.carried.length < s.names.length := by
  obtain ⟨name, f, hmem⟩ := hfunction
  rw [← h.names_eq, Instruction.operandNames, List.length_map]
  exact List.length_filterMap_lt_length_iff_exists.2 ⟨_, hmem, rfl⟩

end Signature

namespace Catalog

namespace Logic

/-- What a rule comes to although the last inputs are missing: it does not read them. -/
def early? (tag : Tag) (inputs : List Value) : Option Value :=
  match tag, inputs with
  | "logic.and", [left] => if left.holds then none else some (.bool false)
  | "logic.or", [left] => if left.holds then some (.bool true) else none
  | "logic.if_else", [condition, value] => if condition.holds then some value else none
  | "logic.match", [.list cases] => firstMatch? cases
  | _, _ => none

/-- Given too few inputs, the rule gives what can be said without those that are missing, or fails. -/
def Judges (s : Signature) (rule : Rule) : Prop :=
  ∀ inputs : List Value, inputs.length < s.names.length →
    match early? s.tag inputs with
    | some value => rule s.tag inputs = .ok value
    | none => ∃ failure, rule s.tag inputs = .error failure ∧ s.Lacks inputs failure

/-- The two ways in which a rule ends that is given too few inputs. -/
theorem Judges.ends {s : Signature} {rule : Rule} {inputs : List Value} (h : Judges s rule)
    (hshort : inputs.length < s.names.length) :
    (∃ value, early? s.tag inputs = some value ∧
        (rule s.tag inputs).mapError Interrupt.ofFailure = .ok value) ∨
      ∃ failure, early? s.tag inputs = none ∧ s.Lacks inputs failure ∧
        (rule s.tag inputs).mapError Interrupt.ofFailure = .error (.aborted failure) := by
  have hjudged := h inputs hshort
  cases hearly : early? s.tag inputs with
  | some value =>
    rw [hearly] at hjudged
    exact .inl ⟨value, rfl, by rw [hjudged]; rfl⟩
  | none =>
    rw [hearly] at hjudged
    obtain ⟨failure, hfailed, hlacks⟩ := hjudged
    exact .inr ⟨failure, rfl, hlacks, by rw [hfailed, ← hlacks.ofFailure]; rfl⟩

theorem judges_and : Judges ⟨"logic.and", ["left", "right"], .bool⟩ andRule
  | [], _ => ⟨_, rfl, .missing (by simp)⟩
  | [left], _ => by
    have hearly : early? "logic.and" [left] = if left.holds then none else some (.bool false) := rfl
    have hrule : andRule "logic.and" [left] =
        if left.holds then .error (.missingOperand "logic.and" "right") else .ok (.bool false) := rfl
    dsimp only
    rw [hearly, hrule]
    cases left.holds with
    | true => exact ⟨_, rfl, .missing (by simp)⟩
    | false => rfl
  | _ :: _ :: _, hshort => by simp at hshort

theorem judges_or : Judges ⟨"logic.or", ["left", "right"], .bool⟩ orRule
  | [], _ => ⟨_, rfl, .missing (by simp)⟩
  | [left], _ => by
    have hearly : early? "logic.or" [left] = if left.holds then some (.bool true) else none := rfl
    have hrule : orRule "logic.or" [left] =
        if left.holds then .ok (.bool true) else .error (.missingOperand "logic.or" "right") := rfl
    dsimp only
    rw [hearly, hrule]
    cases left.holds with
    | true => rfl
    | false => exact ⟨_, rfl, .missing (by simp)⟩
  | _ :: _ :: _, hshort => by simp at hshort

theorem judges_not : Judges ⟨"logic.not", ["value"], .bool⟩ notRule
  | [], _ => ⟨_, rfl, .missing (by simp)⟩
  | _ :: _, hshort => by simp at hshort

/-- A rule that always reads two inputs. -/
theorem judges_binary {tag : Tag} {result : Shape} {rule : Rule}
    (hearly : early? tag [] = none) (hnone : rule tag [] = .error (.missingOperand tag "left"))
    (hearly' : ∀ left, early? tag [left] = none)
    (hleft : ∀ left, rule tag [left] = .error (.missingOperand tag "right")) :
    Judges ⟨tag, ["left", "right"], result⟩ rule := by
  intro inputs hshort
  match inputs, hshort with
  | [], _ =>
    rw [hearly]
    exact ⟨_, hnone, .missing (by simp)⟩
  | [left], _ =>
    rw [hearly']
    exact ⟨_, hleft left, .missing (by simp)⟩
  | _ :: _ :: _, hshort => simp at hshort

theorem judges_ifElse : Judges ⟨"logic.if_else", ["condition", "then", "else"], .any⟩ ifElseRule
  | [], _ => ⟨_, rfl, .missing (by simp)⟩
  | [condition], _ => by
    have hrule : ifElseRule "logic.if_else" [condition] =
        if condition.holds then .error (.missingOperand "logic.if_else" "then")
        else .error (.missingOperand "logic.if_else" "else") := rfl
    have hearly : early? "logic.if_else" [condition] = none := rfl
    dsimp only
    rw [hearly, hrule]
    cases condition.holds with
    | true => exact ⟨_, rfl, .missing (by simp)⟩
    | false => exact ⟨_, rfl, .missing (by simp)⟩
  | [condition, value], _ => by
    have hearly : early? "logic.if_else" [condition, value] =
        if condition.holds then some value else none := rfl
    have hrule : ifElseRule "logic.if_else" [condition, value] =
        if condition.holds then .ok value else .error (.missingOperand "logic.if_else" "else") := rfl
    dsimp only
    rw [hearly, hrule]
    cases condition.holds with
    | true => rfl
    | false => exact ⟨_, rfl, .missing (by simp)⟩
  | _ :: _ :: _ :: _, hshort => by
    simp at hshort
    omega

theorem judges_match : Judges ⟨"logic.match", ["cases", "default"], .any⟩ matchRule
  | [], _ => ⟨_, rfl, .missing (by simp)⟩
  | [value], _ => by
    cases value with
    | list cases =>
      have hearly : early? "logic.match" [.list cases] = firstMatch? cases := rfl
      have hrule : matchRule "logic.match" [.list cases] = match firstMatch? cases with
          | some value => .ok value
          | none => .error (.missingOperand "logic.match" "default") := rfl
      dsimp only
      rw [hearly, hrule]
      cases firstMatch? cases with
      | some value => rfl
      | none => exact ⟨_, rfl, .missing (by simp)⟩
    | unit | bool | number | text | record | element | source | signal =>
      exact ⟨_, rfl, .cases rfl rfl rfl⟩
  | _ :: _ :: _, hshort => by simp at hshort

end Logic

variable {s : Signature}

theorem Logic.judges_of_rules {rule : Logic.Rule} (h : (s, rule) ∈ Logic.rules) :
    Logic.Judges s rule := by
  simp only [Logic.rules, List.mem_cons, Prod.mk.injEq, List.not_mem_nil, or_false] at h
  rcases h with ⟨rfl, rfl⟩ | ⟨rfl, rfl⟩ | ⟨rfl, rfl⟩ | ⟨rfl, rfl⟩ | ⟨rfl, rfl⟩ | ⟨rfl, rfl⟩ |
    ⟨rfl, rfl⟩ | ⟨rfl, rfl⟩
  · exact Logic.judges_and
  · exact Logic.judges_or
  · exact Logic.judges_not
  · exact Logic.judges_binary rfl rfl (fun _ => rfl) (fun _ => rfl)
  · exact Logic.judges_binary rfl rfl (fun _ => rfl) (fun _ => rfl)
  · exact Logic.judges_binary rfl rfl (fun _ => rfl) (fun _ => rfl)
  · exact Logic.judges_ifElse
  · exact Logic.judges_match

theorem Logic.space_of_rules {rule : Logic.Rule} (h : (s, rule) ∈ Logic.rules) :
    s.tag.space = "logic" := by
  have hall : ∀ s ∈ Logic.rules.map (·.1), s.tag.space = "logic" := by decide
  exact hall s (List.mem_map_of_mem h)

/-- The handler of a pure instruction refuses all functions, or it is that of a rule. -/
theorem refuses_or_rules (hs : s ∈ pureSignatures) {formatters : Formatters} {handler : Handler}
    (hhandler : (s.tag, handler) ∈ handlers formatters) :
    (s.tag.space ≠ "logic" ∧ s.RefusesFirst handler) ∨
      ∃ rule, (s, rule) ∈ Logic.rules ∧ handler = Logic.handler rule := by
  cases isHandledBy hs hhandler with
  | named hspace hnames hne =>
    exact .inl ⟨hspace, Signature.refusesFirst_binaryHandler hnames hne _⟩
  | rule h => exact .inr ⟨_, h, rfl⟩
  | shown => exact .inl ⟨by decide, Signature.refusesFirst_show formatters⟩

end Catalog

end EffectGraph
