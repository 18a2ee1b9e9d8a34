import EffectGraph.Catalog.Inputs

/-!
# Texts and lists

Texts are concatenated, lists are extended at the end, and the items of a list are joined into one
text.
-/

namespace EffectGraph

namespace Catalog

namespace Texts

/-- A text. -/
def text (s : String) : Program := .pure (.text s)

/-- One text followed by another. -/
def concat (a b : Operand) : Program := instruction "text.concat" .text [("a", a), ("b", b)]

/-- The concatenation of the two inputs. -/
def computeConcat (tag : Tag) (inputs : List Value) : Except Failure Value := do
  let a ← textInput tag inputs 0 "a"
  let b ← textInput tag inputs 1 "b"
  return .text (a ++ b)

/-- The handlers of texts. -/
def bundle : Bundle where
  name := "text"
  handlers :=
    [("text.concat", binaryHandler "a" "b" fun tag inputs =>
      (computeConcat tag inputs).mapError Interrupt.ofFailure)]

end Texts

namespace Lists

/-- A list with an item at its end. -/
def append (list item : Operand) : Program :=
  instruction "list.append" .list [("list", list), ("item", item)]

/-- The texts of the items of a list, with a separator between them. -/
def join (list separator : Operand) : Program :=
  instruction "list.join" .text [("list", list), ("separator", separator)]

/-- The first input with the second at its end. -/
def computeAppend (tag : Tag) (inputs : List Value) : Except Failure Value := do
  let items ← itemsInput tag inputs 0 "list"
  let item ← input tag inputs 1 "item"
  return .list (items ++ [item])

/-- The texts of the items of the first input, with the second between them. -/
def computeJoin (tag : Tag) (inputs : List Value) : Except Failure Value := do
  let items ← itemsInput tag inputs 0 "list"
  let separator ← textInput tag inputs 1 "separator"
  return .text (separator.intercalate (items.map Value.display))

/-- The handlers of lists. -/
def bundle : Bundle where
  name := "list"
  handlers :=
    [("list.append", binaryHandler "list" "item" fun tag inputs =>
      (computeAppend tag inputs).mapError Interrupt.ofFailure),
     ("list.join", binaryHandler "list" "separator" fun tag inputs =>
      (computeJoin tag inputs).mapError Interrupt.ofFailure)]

end Lists

end Catalog

end EffectGraph
