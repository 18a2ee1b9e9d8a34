import EffectGraph.Catalog.Inputs

/-!
# Showing values

Formatters say how values of a shape are shown. The default ones show unit as the empty text,
numbers without a point when they are whole, and lists and records by showing what is in them. A
value of a shape without formatter is shown as `Value.display` writes it, and that is reported.
-/

namespace EffectGraph

namespace Catalog

/-- How the values of a shape are shown. -/
inductive Formatter where
  /-- By a function of the value. -/
  | custom (format : Value → String)
  /-- By showing what is in the value. -/
  | nested

/-- The formatters by shape; the first one of a shape counts. -/
abbrev Formatters := List (Shape × Formatter)

namespace Formatters

/-- The formatter of a shape. -/
def get? (formatters : Formatters) (shape : Shape) : Option Formatter :=
  (formatters.find? (·.1 = shape)).map (·.2)

/-- Sets the formatter of a shape. -/
def register (formatters : Formatters) (shape : Shape) (formatter : Formatter) : Formatters :=
  (shape, formatter) :: formatters.filter (·.1 ≠ shape)

theorem get?_register (formatters : Formatters) (shape other : Shape) (formatter : Formatter) :
    (formatters.register shape formatter).get? other =
      if other = shape then some formatter else formatters.get? other := by
  unfold get? register
  split
  · rename_i h
    rw [h, List.find?_cons_of_pos (by simp), Option.map_some]
  · rename_i h
    rw [List.find?_cons_of_neg (by simpa using Ne.symm h), List.find?_filter]
    congr 2
    funext entry
    by_cases heq : entry.1 = other
    · simp [heq, h]
    · simp [heq]

/-- The text that is shown of a unit value: none. -/
def showUnit (_ : Value) : String := ""

/-- The text that is shown of a number: the one it displays as. -/
def showNumber (value : Value) : String := Number.display (value.number?.getD 0)

/-- The text that is shown of a text: the text itself. -/
def showText (value : Value) : String := value.text?.getD ""

/-- The default formatters. -/
def default : Formatters :=
  [(.unit, .custom showUnit), (.bool, .custom Value.display), (.number, .custom showNumber),
   (.text, .custom showText), (.list, .nested), (.record, .nested)]

/-- How the values of a shape are shown that has no formatter, and the shape as the missing one. -/
def fallback (value : Value) : String × List Shape := (value.display, [value.shape])

mutual

/-- A value as it is shown, and the shapes that had no formatter, in the order they were met. -/
def format (formatters : Formatters) (value : Value) : String × List Shape :=
  match formatters.get? value.shape with
  | none => fallback value
  | some (.custom f) => (f value, [])
  | some .nested =>
    match value with
    | .list items =>
      let (texts, missing) := formatItems formatters items
      ("[" ++ ", ".intercalate texts ++ "]", missing)
    | .record fields =>
      let (texts, missing) := formatFields formatters fields
      ("\x7b" ++ ", ".intercalate texts ++ "\x7d", missing)
    | value => (value.display, [])

/-- The items of a list as they are shown. -/
def formatItems (formatters : Formatters) : List Value → List String × List Shape
  | [] => ([], [])
  | item :: rest =>
    let (text, missing) := format formatters item
    let (texts, others) := formatItems formatters rest
    (text :: texts, missing ++ others)

/-- The fields of a record as they are shown, each after its key. -/
def formatFields (formatters : Formatters) : List (String × Value) → List String × List Shape
  | [] => ([], [])
  | (key, value) :: rest =>
    let (text, missing) := format formatters value
    let (texts, others) := formatFields formatters rest
    ((key ++ ": " ++ text) :: texts, missing ++ others)

end

/-- The description of formatters: the names of their shapes, ascending. -/
def described (formatters : Formatters) : String :=
  let names := Keyed.ofList (formatters.map fun f => (f.1.name, ()))
  Text.described "ShowRegistry"
    [("kinds", Text.bracketed (names.map fun name => Text.quoted name.1))]

end Formatters

namespace Show

/-- The text of a value. -/
def «show» (value : Operand) : Program := instruction "show.show" .text [("value", value)]

/-- Reports that values of some shapes were shown without a formatter. -/
def reportMissing : List Shape → Routine Unit
  | [] => pure ()
  | shape :: rest => do
    Routine.report (.formatterMissing shape)
    reportMissing rest

/-- Shows the input. -/
def compute (formatters : Formatters) (inputs : List Value) : Routine Value := do
  let value ← input "show.show" inputs 0 "value"
  let (text, missing) := formatters.format value
  reportMissing missing
  return .text text

/-- The handlers that show values. -/
def bundle (formatters : Formatters) : Bundle where
  name := "show"
  handlers :=
    [("show.show", fun i => Routine.script do
      let value ← i.value "value"
      Routine.derive [value] (compute formatters))]

end Show

end Catalog

end EffectGraph
