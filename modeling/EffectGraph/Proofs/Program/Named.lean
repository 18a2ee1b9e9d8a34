import EffectGraph.Program.Basic
import Mathlib.Tactic

/-!
# Operands and their names

A handler asks for operands by name and gets the first one of the name. `Instruction.values` asks for all
value operands one after another, each by its name. So if a name is repeated, an operand can stand in for
another one behind it (`Instruction.values_exact_iff`).
-/

namespace EffectGraph

/-- The value that an operand is. -/
def Operand.value? : Operand → Option Value
  | .value v => some v
  | _ => none

namespace Instruction

/-- The operands that are values, with their names, in declaration order. -/
def given (i : Instruction) : List (String × Value) :=
  i.operands.filterMap fun o => o.2.value?.map (o.1, ·)

/-- The values among the operands, in declaration order. -/
def carried (i : Instruction) : List Value := i.operands.filterMap (·.2.value?)

variable {i : Instruction} {name : String} {operand : Operand} {v : Value}

theorem mem_given : (name, v) ∈ i.given ↔ (name, .value v) ∈ i.operands := by
  unfold given
  rw [List.mem_filterMap]
  constructor
  · rintro ⟨⟨name', operand⟩, hmem, hvalue⟩
    cases operand with
    | value v' =>
      obtain ⟨rfl, rfl⟩ := Prod.mk.inj (Option.some.inj hvalue)
      exact hmem
    | program p => cases hvalue
    | function f => cases hvalue
  · exact fun hmem => ⟨_, hmem, rfl⟩

theorem map_given (i : Instruction) : i.given.map (·.2) = i.carried := by
  unfold given carried
  rw [List.map_filterMap]
  congr 1
  funext o
  cases o.2.value? with
  | none => rfl
  | some v => rfl

/-! ## Asking by name -/

/-- An operand is found under its name if no other has this name. -/
theorem operand_of_mem (hnodup : i.operandNames.Nodup) (hmem : (name, operand) ∈ i.operands) :
    i.operand name = .ok operand := by
  have hfound : i.operands.find? (·.1 = name) = some (name, operand) := by
    unfold operandNames at hnodup
    generalize i.operands = operands at hnodup hmem
    induction operands with
    | nil => exact absurd hmem List.not_mem_nil
    | cons first rest ih =>
      rw [List.map_cons, List.nodup_cons] at hnodup
      rcases List.mem_cons.1 hmem with rfl | hrest
      · simp
      · have hne : first.1 ≠ name := fun heq => hnodup.1 (heq ▸ List.mem_map_of_mem hrest)
        rw [List.find?_cons_of_neg (by simpa using hne)]
        exact ih hnodup.2 hrest
  unfold Instruction.operand
  rw [hfound]

/-- Some operand is found under the name of an operand. -/
theorem exists_operand_of_mem (hmem : (name, operand) ∈ i.operands) :
    ∃ first, i.operand name = .ok first ∧ (name, first) ∈ i.operands := by
  obtain ⟨⟨name', first⟩, hfirst⟩ : ∃ found, i.operands.find? (·.1 = name) = some found :=
    Option.isSome_iff_exists.1 (List.find?_isSome.2 ⟨_, hmem, by simp⟩)
  have hname : name' = name := by simpa using List.find?_some hfirst
  subst hname
  refine ⟨first, ?_, List.mem_of_find?_eq_some hfirst⟩
  unfold Instruction.operand
  rw [hfirst]

theorem value_of_operand (h : i.operand name = .ok (.value v)) : i.value name = .ok v := by
  unfold Instruction.value
  rw [h]
  rfl

theorem value_of_function {f : List Value → Program} (h : i.operand name = .ok (.function f)) :
    i.value name = .error (.operandType i.tag name "a value" "callable") := by
  unfold Instruction.value
  rw [h]
  rfl

theorem not_program_of_isResolved (h : i.isResolved = true) (hmem : (name, operand) ∈ i.operands)
    (p : Program) : operand ≠ .program p := by
  rintro rfl
  have hno := List.all_eq_true.1 h _ hmem
  simp [Operand.isProgram] at hno

/-! ## Asking for all values -/

/-- In a resolved instruction all operands that are no functions are values. -/
theorem names_given (h : i.isResolved = true) :
    i.given.map (·.1) = (i.operands.filter fun o => !o.2.isFunction).map (·.1) := by
  unfold given
  unfold isResolved at h
  generalize i.operands = operands at h
  induction operands with
  | nil => rfl
  | cons o rest ih =>
    obtain ⟨name, operand⟩ := o
    rw [List.all_cons, Bool.and_eq_true] at h
    have hrest := ih h.2
    cases operand with
    | value v => simpa [Operand.value?, Operand.isFunction] using hrest
    | program p => simp [Operand.isProgram] at h
    | function f => simpa [Operand.value?, Operand.isFunction] using hrest

theorem values_of_isResolved (h : i.isResolved = true) :
    i.values = (i.given.map (·.1)).mapM i.value := by
  rw [names_given h, List.mapM_map]
  rfl

/-- The operands that come under some names, if all of them are values. -/
theorem mapM_value_of_forall₂ {names : List String} {values : List Value}
    (h : List.Forall₂ (fun name v => i.operand name = .ok (.value v)) names values) :
    names.mapM i.value = .ok values := by
  induction h with
  | nil => rfl
  | cons hfirst _ ih =>
    rw [List.mapM_cons, value_of_operand hfirst, ih]
    rfl

/-- Asked for by their names, operands that are values or functions all come, or the first function among
them is to blame. -/
theorem mapM_value_cases {names : List String} (h : ∀ name ∈ names,
      (∃ v, i.operand name = .ok (.value v)) ∨ ∃ f, i.operand name = .ok (.function f)) :
    (∃ values, names.mapM i.value = .ok values ∧
      List.Forall₂ (fun name v => i.operand name = .ok (.value v)) names values) ∨
    ∃ front name back f, names = front ++ name :: back ∧
      (∀ other ∈ front, ∃ v, i.operand other = .ok (.value v)) ∧
      i.operand name = .ok (.function f) ∧
      names.mapM i.value = .error (.operandType i.tag name "a value" "callable") := by
  induction names with
  | nil => exact .inl ⟨[], rfl, .nil⟩
  | cons name rest ih =>
    rw [List.mapM_cons]
    rcases h name List.mem_cons_self with ⟨v, hv⟩ | ⟨f, hf⟩
    · rw [value_of_operand hv]
      rcases ih fun other hother => h other (List.mem_cons_of_mem _ hother) with
        ⟨values, hvalues, hall⟩ | ⟨front, blamed, back, f, rfl, hfront, hf, hfailed⟩
      · exact .inl ⟨v :: values, by rw [hvalues]; rfl, .cons hv hall⟩
      · refine .inr ⟨name :: front, blamed, back, f, rfl, ?_, hf, by rw [hfailed]; rfl⟩
        exact List.forall_mem_cons.2 ⟨⟨v, hv⟩, hfront⟩
    · rw [value_of_function hf]
      exact .inr ⟨[], name, rest, f, rfl, nofun, hf, rfl⟩

/-- In a resolved instruction a value or a function comes under each name. -/
theorem value_or_function_of_mem_given (hresolved : i.isResolved = true)
    (hmem : name ∈ i.given.map (·.1)) :
    (∃ v, i.operand name = .ok (.value v)) ∨ ∃ f, i.operand name = .ok (.function f) := by
  obtain ⟨⟨name, v⟩, hgiven, rfl⟩ := List.mem_map.1 hmem
  obtain ⟨first, hfirst, hmem⟩ := exists_operand_of_mem (mem_given.1 hgiven)
  cases first with
  | value v => exact .inl ⟨v, hfirst⟩
  | function f => exact .inr ⟨f, hfirst⟩
  | program p => exact absurd rfl (not_program_of_isResolved hresolved hmem p)

/-- If each value operand is the first operand of its name, all of them come. -/
theorem values_of_unshadowed (hresolved : i.isResolved = true)
    (h : ∀ name v, (name, .value v) ∈ i.operands → i.operand name = .ok (.value v)) :
    i.values = .ok i.carried := by
  rw [values_of_isResolved hresolved, ← map_given]
  refine mapM_value_of_forall₂ (List.forall₂_map_left_iff.2 (List.forall₂_map_right_iff.2 ?_))
  exact List.forall₂_same.2 fun given hmem => h given.1 given.2 (mem_given.1 hmem)

/-- If no name is repeated, all value operands come. -/
theorem values_of_nodup (hresolved : i.isResolved = true) (hnodup : i.operandNames.Nodup) :
    i.values = .ok i.carried :=
  values_of_unshadowed hresolved fun _ _ hmem => operand_of_mem hnodup hmem

/-- **The values of an instruction are those that come first under their names.** Ask a resolved
instruction for the values of all operands. These are exactly its value operands, in declaration order and
without the functions, if and only if each value operand is what comes first under its name; this is so if
no name is repeated. In any case each value operand is represented by the operand that comes first under
its name, and if one of these is a function, the first such name is to blame. -/
theorem values_exact_iff (hresolved : i.isResolved = true) :
    (i.values = .ok i.carried ↔
      ∀ name v, (name, .value v) ∈ i.operands → i.operand name = .ok (.value v)) ∧
    (i.operandNames.Nodup → i.values = .ok i.carried) ∧
    ((∃ values, i.values = .ok values ∧
        List.Forall₂ (fun given v => i.operand given.1 = .ok (.value v)) i.given values) ∨
      ∃ front name v back f, i.given = front ++ (name, v) :: back ∧
        (∀ other ∈ front, ∃ first, i.operand other.1 = .ok (.value first)) ∧
        i.operand name = .ok (.function f) ∧
        i.values = .error (.operandType i.tag name "a value" "callable")) := by
  have hcases := mapM_value_cases fun name hmem => value_or_function_of_mem_given hresolved hmem
  rw [← values_of_isResolved hresolved] at hcases
  refine ⟨⟨fun hvalues name v hmem => ?_, values_of_unshadowed hresolved⟩,
    values_of_nodup hresolved, ?_⟩
  · rcases hcases with ⟨values, hok, hall⟩ | ⟨_, _, _, _, _, _, _, hfailed⟩
    · obtain rfl := Except.ok.inj (hok.symm.trans hvalues)
      rw [← map_given] at hall
      have hsame := List.forall₂_same.1
        (List.forall₂_map_right_iff.1 (List.forall₂_map_left_iff.1 hall))
      exact hsame (name, v) (mem_given.2 hmem)
    · cases hfailed.symm.trans hvalues
  · rcases hcases with ⟨values, hok, hall⟩ | ⟨front, name, back, f, hnames, hfront, hf, hfailed⟩
    · exact .inl ⟨values, hok, List.forall₂_map_left_iff.1 hall⟩
    · obtain ⟨front', rest, hgiven, rfl, hrest⟩ := List.map_eq_append_iff.1 hnames
      obtain ⟨⟨name, v⟩, back', rfl, rfl, -⟩ := List.map_eq_cons_iff.1 hrest
      exact .inr ⟨front', name, v, back', f, hgiven,
        fun other hother => hfront other.1 (List.mem_map_of_mem hother), hf, hfailed⟩

/-- Two functions of one name, and two values of different names. -/
private def mixed : Instruction where
  tag := "t.mixed"
  operands :=
    [("f", .function fun _ => .pure .unit), ("a", .value (.text "x")),
     ("f", .function fun _ => .pure .unit), ("b", .value .unit)]
  result := .any

theorem values_exact_iff_mixed :
    mixed.isResolved = true ∧ ¬ mixed.operandNames.Nodup ∧ mixed.carried = [.text "x", .unit] ∧
      mixed.values = .ok mixed.carried := by
  have hresolved : mixed.isResolved = true := rfl
  refine ⟨hresolved, by decide, rfl, (values_exact_iff hresolved).1.2 fun name v hmem => ?_⟩
  have hentry : (name, v) ∈ [("a", .text "x"), ("b", .unit)] := mem_given.2 hmem
  rcases List.mem_cons.1 hentry with heq | hentry
  · cases heq
    rfl
  · cases List.mem_singleton.1 hentry
    rfl

/-- Two operands of one name. -/
private def twice (first second : Operand) : Instruction where
  tag := "t.twice"
  operands := [("a", first), ("a", second)]
  result := .any

/-- Behind a value of the same name a value is replaced by it, and behind a function of the same name it
makes the handler fail. -/
theorem values_shadowed :
    (∃ i : Instruction, i.isResolved = true ∧ i.carried = [.text "x", .text "y"] ∧
      i.values = .ok [.text "x", .text "x"] ∧ i.values ≠ .ok i.carried) ∧
    ∃ i : Instruction, i.isResolved = true ∧ i.carried = [.text "y"] ∧
      i.values = .error (.operandType "t.twice" "a" "a value" "callable") := by
  have hvalues : (twice (.value (.text "x")) (.value (.text "y"))).values =
      .ok [.text "x", .text "x"] := rfl
  refine ⟨⟨_, rfl, rfl, hvalues, fun heq => ?_⟩,
    twice (.function fun _ => .pure .unit) (.value (.text "y")), rfl, rfl, rfl⟩
  have hsame : [Value.text "x", .text "x"] = [.text "x", .text "y"] :=
    Except.ok.inj (hvalues.symm.trans heq)
  simp at hsame

end Instruction

end EffectGraph
