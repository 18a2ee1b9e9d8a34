import EffectGraph.Value.Json

/-!
# Tagged JSON

In the tagged form each value is an object of its kind and its content, so that every value with
finite numbers reads back, handles included.

A document in this form is read leniently. The kind may come after the content, and other fields are
ignored; the name of the kind may be the only key of an object that holds `null` or an empty object.
Kind and content may also stand in an array, there with the kind by its name or its number. Kind and
content each appear once, and only `unit` may do without content.
-/

namespace EffectGraph

namespace Value

mutual

/-- A value as an object of its kind and its content. -/
def toTagged : Value → Json
  | .unit => .object [("kind", .string "unit")]
  | .bool b => tagged .bool (.bool b)
  | .number x => tagged .number (numberJson x)
  | .text s => tagged .text (.string s)
  | .list items => tagged .list (.array (toTaggedItems items))
  | .record fields => tagged .record (.object (toTaggedFields fields))
  | .element id => tagged .element (.integer id.index)
  | .source id => tagged .source (.integer id.index)
  | .signal id => tagged .signal (.integer id.index)
where
  /-- The object of a kind and a content. -/
  tagged (kind : Shape) (content : Json) : Json :=
    .object [("kind", .string kind.name), ("value", content)]

/-- The items of a list in tagged form. -/
def toTaggedItems : List Value → List Json
  | [] => []
  | item :: rest => item.toTagged :: toTaggedItems rest

/-- The fields of a record in tagged form. -/
def toTaggedFields : List (String × Value) → List (String × Json)
  | [] => []
  | (key, value) :: rest => (key, value.toTagged) :: toTaggedFields rest

end

/-- The kind with a name. -/
def kindOfName? (name : String) : Option Shape := (Shape.ofName? name).filter (· ≠ .any)

/-- The kind in a field: a name, or an object that holds `null` or nothing under the name. -/
def kindOfField? : Json → Option Shape
  | .string name => kindOfName? name
  | .object [(name, .null)] => kindOfName? name
  | .object [(name, .object [])] => kindOfName? name
  | _ => none

/-- The kind at the head of an array: a name, or the number of the kind counted from zero. -/
def kindOfHead? : Json → Option Shape
  | .string name => kindOfName? name
  | .integer n => if 0 ≤ n then (Shape.all.filter (· ≠ .any))[n.toNat]? else none
  | _ => none

/-- The kind of an object that has one kind and at most one content. -/
def kindOf? (fields : List (String × Json)) : Option Shape :=
  match fields.filter (·.1 = "kind"), fields.filter (·.1 = "value") with
  | [(_, kind)], [] => kindOfField? kind
  | [(_, kind)], [_] => kindOfField? kind
  | _, _ => none

mutual

/-- The value that a tagged document stands for. -/
def ofTagged? : Json → Option Value
  | .object fields => (kindOf? fields).bind fun kind => ofContentField? kind fields
  | .array [kind, content] => (kindOfHead? kind).bind fun kind => ofContent? kind content
  | _ => none

/-- The value of a kind whose content is one of some fields. -/
def ofContentField? (kind : Shape) : List (String × Json) → Option Value
  | [] => if kind = .unit then some .unit else none
  | (key, json) :: rest =>
    if key = "value" then ofContent? kind json else ofContentField? kind rest

/-- The value of a kind with a content. -/
def ofContent? (kind : Shape) : Json → Option Value
  | .null => if kind = .unit then some .unit else none
  | .bool b => if kind = .bool then some (.bool b) else none
  | .integer n =>
    match kind with
    | .number => some (.number (Number.ofInt n))
    | .element => if 0 ≤ n then some (.element ⟨n.toNat⟩) else none
    | .source => if 0 ≤ n then some (.source ⟨n.toNat⟩) else none
    | .signal => if 0 ≤ n then some (.signal ⟨n.toNat⟩) else none
    | _ => none
  | .real x => if kind = .number then some (.number x) else none
  | .string s => if kind = .text then some (.text s) else none
  | .array items => if kind = .list then (ofTaggedItems? items).map .list else none
  | .object fields => if kind = .record then (ofTaggedFields? fields).map ofPairs else none

/-- The values that the items of an array stand for. -/
def ofTaggedItems? : List Json → Option (List Value)
  | [] => some []
  | item :: rest => (ofTagged? item).bind fun value => (ofTaggedItems? rest).map (value :: ·)

/-- The values that the fields of an object stand for, each with its key. -/
def ofTaggedFields? : List (String × Json) → Option (List (String × Value))
  | [] => some []
  | (key, json) :: rest =>
    (ofTagged? json).bind fun value => (ofTaggedFields? rest).map ((key, value) :: ·)

end

end Value

end EffectGraph
