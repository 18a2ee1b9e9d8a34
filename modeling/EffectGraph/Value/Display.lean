import EffectGraph.Value.Basic
import EffectGraph.Text.Quoted

/-!
# Values as text

`Value.display` is the text of a value: numbers without a point when they are whole, texts as they
are, lists between brackets and records between braces. `Value.described` names the shape of a value
as well, and quotes texts.
-/

namespace EffectGraph

namespace Value

mutual

/-- The text of a value. -/
def display : Value → String
  | .unit => "()"
  | .bool b => if b then "true" else "false"
  | .number x => Number.display x
  | .text s => s
  | .list items => "[" ++ ", ".intercalate (displayItems items) ++ "]"
  | .record fields => "\x7b" ++ ", ".intercalate (displayFields fields) ++ "\x7d"
  | .element id => id.text
  | .source id => id.text
  | .signal id => id.text

/-- The texts of the items of a list. -/
def displayItems : List Value → List String
  | [] => []
  | item :: rest => item.display :: displayItems rest

/-- The texts of the fields of a record, each after its key. -/
def displayFields : List (String × Value) → List String
  | [] => []
  | (key, value) :: rest => (key ++ ": " ++ value.display) :: displayFields rest

end

theorem displayItems_eq_map (items : List Value) : displayItems items = items.map display := by
  induction items with
  | nil => rfl
  | cons item rest ih => rw [displayItems, ih, List.map_cons]

theorem displayFields_eq_map (fields : List (String × Value)) :
    displayFields fields = fields.map fun f => f.1 ++ ": " ++ f.2.display := by
  induction fields with
  | nil => rfl
  | cons field rest ih => rw [displayFields, ih, List.map_cons]

mutual

/-- The text of a value with the name of its shape. -/
def described : Value → String
  | .unit => "Unit"
  | .bool b => "Bool(" ++ (if b then "true" else "false") ++ ")"
  | .number x => "Number(" ++ Number.textWith Number.pointed x ++ ")"
  | .text s => "Text(" ++ Text.quoted s ++ ")"
  | .list items => "List(" ++ Text.bracketed (describedItems items) ++ ")"
  | .record fields => "Record(\x7b" ++ ", ".intercalate (describedFields fields) ++ "\x7d)"
  | .element id => "Element(ElementId(" ++ toString id.index ++ "))"
  | .source id => "Source(SourceId(" ++ toString id.index ++ "))"
  | .signal id => "Signal(SignalId(" ++ toString id.index ++ "))"

/-- The described items of a list. -/
def describedItems : List Value → List String
  | [] => []
  | item :: rest => item.described :: describedItems rest

/-- The described fields of a record, each after its quoted key. -/
def describedFields : List (String × Value) → List String
  | [] => []
  | (key, value) :: rest => (Text.quoted key ++ ": " ++ value.described) :: describedFields rest

end

end Value

/-- The name of a shape in the description of an instruction. -/
def Shape.described : Shape → String
  | .any => "Any"
  | .unit => "Unit"
  | .bool => "Bool"
  | .number => "Number"
  | .text => "Text"
  | .list => "List"
  | .record => "Record"
  | .element => "Element"
  | .source => "Source"
  | .signal => "Signal"

end EffectGraph
