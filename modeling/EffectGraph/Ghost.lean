/-!
# Ghosts

A `Ghost` is a value that statements speak of and programs cannot use. All that is kept of the value
is the property of being that value, and properties take no space when a program runs.
-/

namespace EffectGraph

/-- A value that is remembered for statements only. -/
structure Ghost (α : Type) where
  /-- To be the value. -/
  holds : α → Prop
  /-- There is exactly one such value. -/
  unique : ∃ a, holds = (· = a)

namespace Ghost

variable {α : Type}

/-- The ghost of a value. -/
@[inline] def of (a : α) : Ghost α := ⟨(· = a), a, rfl⟩

/-- The value that a ghost remembers. -/
noncomputable def value (ghost : Ghost α) : α := Classical.choose ghost.unique

@[simp] theorem value_of (a : α) : (of a).value = a := by
  have h : (of a).holds = (· = (of a).value) := Classical.choose_spec (of a).unique
  exact (congrFun h a).mp rfl |>.symm

@[simp] theorem value_mk (a : α) (unique : ∃ b, (· = a) = (· = b)) :
    (⟨(· = a), unique⟩ : Ghost α).value = a :=
  value_of a

end Ghost

end EffectGraph
