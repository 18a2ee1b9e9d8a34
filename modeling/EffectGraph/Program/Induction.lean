import EffectGraph.Program.Basic

/-!
# Induction on programs

To prove something of every program it is enough to prove it of each form of program, assuming it of
the parts: of everything that a continuation or a handler can give, and of the program operands of
an instruction. `Instruction.programs` lists these operands.
-/

namespace EffectGraph

namespace Instruction

/-- The programs among some operands. -/
def programsOf : List (String × Operand) → List Program
  | [] => []
  | (_, .program p) :: rest => p :: programsOf rest
  | (_, .value _) :: rest => programsOf rest
  | (_, .function _) :: rest => programsOf rest

/-- The program operands of an instruction, in declaration order. -/
def programs (i : Instruction) : List Program := programsOf i.operands

theorem programsOf_append (a b : List (String × Operand)) :
    programsOf (a ++ b) = programsOf a ++ programsOf b := by
  induction a with
  | nil => rfl
  | cons operand rest ih =>
    obtain ⟨name, operand⟩ := operand
    cases operand <;> simp [programsOf, ih]

theorem mem_programs {i : Instruction} {front back : List (String × Operand)} {name : String}
    {p : Program} (h : i.operands = front ++ (name, .program p) :: back) : p ∈ i.programs := by
  simp [programs, h, programsOf_append, programsOf]

/-- Looks for the first program among some operands: the operands in front of it, its name, the
program and the operands behind it. -/
def findPending? : List (String × Operand) →
    Option (List (String × Operand) × String × Program × List (String × Operand))
  | [] => none
  | (name, .program p) :: rest => some ([], name, p, rest)
  | operand :: rest => (findPending? rest).map fun (front, name, p, back) =>
      (operand :: front, name, p, back)

/-- The place of a pending operand is behind the operands in front of it. -/
theorem takePending?_eq (operands : List (String × Operand)) :
    takePending? operands = (findPending? operands).map fun (front, name, p, back) =>
      (front.length, p, front ++ (name, .value .unit) :: back) := by
  induction operands with
  | nil => rfl
  | cons operand rest ih =>
    obtain ⟨name, operand⟩ := operand
    cases operand with
    | program p => rfl
    | value v =>
      simp only [takePending?, findPending?, ih, Option.map_map]
      rfl
    | function f =>
      simp only [takePending?, findPending?, ih, Option.map_map]
      rfl

/-- Behind the operands in front of it, a value takes the place of what is there. -/
theorem fill_length (tag : Tag) (result : Shape) (front : List (String × Operand)) (name : String)
    (operand : Operand) (back : List (String × Operand)) (value : Value) :
    fill ⟨tag, front ++ (name, operand) :: back, result⟩ front.length value =
      ⟨tag, front ++ (name, .value value) :: back, result⟩ := by
  induction front with
  | nil => rfl
  | cons first front ih =>
    have hrest := congrArg operands ih
    simp only [fill] at hrest
    simp only [fill, List.cons_append, List.length_cons, List.modify_succ_cons, hrest]

/-- The value of a pending operand takes the place of its program, and nothing else changes. -/
theorem pending?_eq (i : Instruction) :
    i.pending? = (findPending? i.operands).map fun (front, name, p, back) =>
      (p, fun value => { i with operands := front ++ (name, .value value) :: back }) := by
  simp only [pending?, takePending?_eq, Option.map_map]
  congr 1
  funext ⟨front, name, p, back⟩
  simp only [Function.comp_apply, Prod.mk.injEq, true_and]
  funext value
  exact fill_length i.tag i.result front name _ back value

theorem findPending?_eq_some {operands front back : List (String × Operand)} {name : String}
    {p : Program} (h : findPending? operands = some (front, name, p, back)) :
    operands = front ++ (name, .program p) :: back ∧ programsOf front = [] := by
  induction operands generalizing front with
  | nil => simp [findPending?] at h
  | cons operand rest ih =>
    obtain ⟨name', operand⟩ := operand
    cases operand with
    | program q =>
      simp only [findPending?, Option.some.injEq, Prod.mk.injEq] at h
      obtain ⟨rfl, rfl, rfl, rfl⟩ := h
      exact ⟨rfl, rfl⟩
    | value v =>
      simp only [findPending?, Option.map_eq_some_iff, Prod.exists, Prod.mk.injEq] at h
      obtain ⟨front', _, _, _, h, rfl, rfl, rfl, rfl⟩ := h
      obtain ⟨rfl, hfront⟩ := ih h
      exact ⟨rfl, hfront⟩
    | function f =>
      simp only [findPending?, Option.map_eq_some_iff, Prod.exists, Prod.mk.injEq] at h
      obtain ⟨front', _, _, _, h, rfl, rfl, rfl, rfl⟩ := h
      obtain ⟨rfl, hfront⟩ := ih h
      exact ⟨rfl, hfront⟩

section

variable {i : Instruction} {p : Program} {fill : Value → Instruction}

theorem findPending?_eq_none (h : i.pending? = none) : findPending? i.operands = none := by
  simpa [pending?_eq] using h

/-- The pending operand is the first program among the operands, and its value takes its place. -/
theorem operands_of_pending (h : i.pending? = some (p, fill)) :
    ∃ front name back, i.operands = front ++ (name, .program p) :: back ∧ programsOf front = [] ∧
      fill = fun value => { i with operands := front ++ (name, .value value) :: back } := by
  simp only [pending?_eq, Option.map_eq_some_iff, Prod.exists, Prod.mk.injEq] at h
  obtain ⟨front, name, q, back, hfind, rfl, rfl⟩ := h
  obtain ⟨hoperands, hfront⟩ := findPending?_eq_some hfind
  exact ⟨front, name, back, hoperands, hfront, rfl⟩

/-- The first pending operand is the first of the program operands, and filling it leaves the
others. -/
theorem programs_of_pending (h : i.pending? = some (p, fill)) :
    ∃ rest, i.programs = p :: rest ∧ ∀ v, (fill v).programs = rest := by
  obtain ⟨front, name, back, hoperands, hfront, rfl⟩ := operands_of_pending h
  exact ⟨programsOf back, by simp [programs, hoperands, programsOf_append, hfront, programsOf],
    fun v => by simp [programs, programsOf_append, hfront, programsOf]⟩

theorem mem_of_pending (h : i.pending? = some (p, fill)) :
    ∃ name, (name, Operand.program p) ∈ i.operands := by
  obtain ⟨front, name, back, hoperands, -, -⟩ := operands_of_pending h
  exact ⟨name, by simp [hoperands]⟩

theorem tag_of_pending (h : i.pending? = some (p, fill)) (value : Value) :
    (fill value).tag = i.tag := by
  obtain ⟨front, name, back, -, -, rfl⟩ := operands_of_pending h
  rfl

/-- Filling in a value brings no operand but that value. -/
theorem mem_of_mem_fill (h : i.pending? = some (p, fill)) {value : Value} {name : String}
    {operand : Operand} (hmem : (name, operand) ∈ (fill value).operands)
    (hoperand : operand ≠ .value value) : (name, operand) ∈ i.operands := by
  obtain ⟨front, name', back, hoperands, -, rfl⟩ := operands_of_pending h
  rw [hoperands]
  rw [List.mem_append, List.mem_cons] at hmem ⊢
  exact hmem.imp_right fun hback => .inr (hback.resolve_left (by simp [hoperand]))

end

/-- A function that is found under a name is an operand. -/
theorem mem_of_function {i : Instruction} {name : String} {f : List Value → Program}
    (h : i.function name = .ok f) : ∃ name', (name', Operand.function f) ∈ i.operands := by
  unfold Instruction.function operand at h
  cases hfind : i.operands.find? (·.1 = name) with
  | none => simp [hfind, Bind.bind, Except.bind] at h
  | some found =>
    obtain ⟨name', operand⟩ := found
    have hmem := List.mem_of_find?_eq_some hfind
    cases operand with
    | value | program => simp [hfind, Bind.bind, Except.bind] at h
    | function g =>
      simp only [hfind, Bind.bind, Except.bind, Except.ok.injEq] at h
      exact ⟨name', h ▸ hmem⟩

end Instruction

namespace Program

section

variable {motive : Program → Prop}
  (ofPure : ∀ value, motive (.pure value))
  (ofThrow : ∀ payload, motive (.throw payload))
  (ofPerform : ∀ i, (∀ p ∈ i.programs, motive p) → motive (.perform i))
  (ofBind : ∀ first next, motive first → (∀ v, motive (next v)) → motive (.bind first next))
  (ofAttempt : ∀ body handler, motive body → (∀ v, motive (handler v)) →
    motive (.attempt body handler))

include ofPure ofThrow ofPerform ofBind ofAttempt

set_option linter.unusedSectionVars false in
mutual

/-- Induction on programs. -/
theorem induction : ∀ p : Program, motive p
  | .pure value => ofPure value
  | .throw payload => ofThrow payload
  | .perform ⟨tag, operands, result⟩ =>
    ofPerform ⟨tag, operands, result⟩ (inductionOperands operands)
  | .bind first next => ofBind first next (induction first) fun v => induction (next v)
  | .attempt body handler => ofAttempt body handler (induction body) fun v => induction (handler v)

/-- Induction on programs, for all programs among some operands. -/
theorem inductionOperands : ∀ operands : List (String × Operand),
    ∀ p ∈ Instruction.programsOf operands, motive p
  | [], _, h => absurd h List.not_mem_nil
  | (_, .program q) :: rest, p, h =>
    (List.mem_cons.1 h).elim (fun e => e.symm ▸ induction q) (inductionOperands rest p)
  | (_, .value _) :: rest, p, h => inductionOperands rest p h
  | (_, .function _) :: rest, p, h => inductionOperands rest p h

end

end

end Program

end EffectGraph
