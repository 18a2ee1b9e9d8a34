import EffectGraph.Json.Skip
import EffectGraph.Value.Tagged

/-!
# Tagged JSON as text

`Value.ofTaggedText?` reads a value from text in tagged form, in one pass and without keeping the
document. What follows its kind is read as that kind directly. Content that comes before its kind is
kept as a document, within the limits of one, until the kind is known. A field that is ignored is
passed over by the grammar alone and so may hold what no document holds.

A kind that is read from the text has to be plain: its name, or in a field also an object that holds
`null` under the name. Arrays and objects nest at most `Json.Reader.maxDepth` deep, those in ignored
fields not counted.
-/

namespace EffectGraph

namespace Value

namespace TaggedText

open Json.Reader

/-- A string at the head of the characters. -/
def name? (budget : Nat) (cs : List Char) : Option (String × List Char) := do
  let rest ← mark? '"' cs
  string? budget [] rest

/-- A kind by its name. -/
def kindName? (budget : Nat) (cs : List Char) : Option (Shape × List Char) := do
  let (name, rest) ← name? budget cs
  (kindOfName? name).map (·, rest)

/-- A kind in a field. -/
def kindField? (budget depth : Nat) (cs : List Char) : Option (Shape × List Char) :=
  match mark? '{' cs with
  | none => kindName? budget cs
  | some rest =>
    if depth = 0 then none else do
      let (kind, rest) ← kindName? budget rest
      let rest ← mark? ':' rest
      let rest ← word? ['n', 'u', 'l', 'l'] (skipSpace rest)
      let rest ← mark? '}' rest
      some (kind, rest)

/-- What the fields read so far tell of a value. -/
inductive Known where
  /-- Neither the kind nor the content. -/
  | nothing
  /-- The kind alone. -/
  | kind (kind : Shape)
  /-- The content alone. -/
  | content (json : Json)
  /-- Both. -/
  | value (v : Value)

/-- The value of an object whose fields are all read. -/
def Known.value? : Known → Option Value
  | .value v => some v
  | .kind .unit => some .unit
  | _ => none

mutual

/-- One value at the head of the characters. -/
def value? : Nat → Nat → List Char → Option (Value × List Char)
  | 0, _, _ => none
  | budget + 1, depth, cs =>
    match skipSpace cs with
    | '{' :: rest =>
      if depth = 0 then none else
        match mark? '}' rest with
        | some _ => none
        | none => fields? budget (depth - 1) .nothing rest
    | '[' :: rest =>
      if depth = 0 then none else do
        let (kind, rest) ← kindName? budget rest
        let rest ← mark? ',' rest
        let (v, rest) ← content? budget (depth - 1) kind rest
        let rest ← mark? ']' rest
        some (v, rest)
    | _ => none

/-- The value of an object, from the next key up to its closing brace. -/
def fields? : Nat → Nat → Known → List Char → Option (Value × List Char)
  | 0, _, _, _ => none
  | budget + 1, depth, known, cs => do
    let (key, rest) ← name? budget cs
    let rest ← mark? ':' rest
    let (known, rest) ← field? budget depth known key rest
    match skipSpace rest with
    | ',' :: rest => fields? budget depth known rest
    | '}' :: rest => known.value?.map (·, rest)
    | _ => none

/-- What is known after the field with a key, whose value is at the head of the characters. -/
def field? : Nat → Nat → Known → String → List Char → Option (Known × List Char)
  | 0, _, _, _, _ => none
  | budget + 1, depth, known, key, cs =>
    if key = "kind" then
      match known with
      | .nothing => (kindField? budget depth cs).map fun r => (.kind r.1, r.2)
      | .content json => do
        let (kind, rest) ← kindField? budget depth cs
        (ofContent? kind json).map fun v => (.value v, rest)
      | _ => none
    else if key = "value" then
      match known with
      | .nothing => (Json.Reader.value? budget depth cs).map fun r => (.content r.1, r.2)
      | .kind kind => (content? budget depth kind cs).map fun r => (.value r.1, r.2)
      | _ => none
    else (skip? budget cs).map (known, ·)

/-- The content of a value whose kind is known. -/
def content? : Nat → Nat → Shape → List Char → Option (Value × List Char)
  | 0, _, _, _ => none
  | budget + 1, depth, kind, cs =>
    match kind, skipSpace cs with
    | .list, '[' :: rest =>
      if depth = 0 then none else
        match mark? ']' rest with
        | some rest => some (.list [], rest)
        | none => (items? budget (depth - 1) rest).map fun r => (.list r.1, r.2)
    | .record, '{' :: rest =>
      if depth = 0 then none else
        match mark? '}' rest with
        | some rest => some (ofPairs [], rest)
        | none => (pairs? budget (depth - 1) rest).map fun r => (ofPairs r.1, r.2)
    | kind, rest => do
      let (json, rest) ← Json.Reader.value? budget depth rest
      (ofContent? kind json).map (·, rest)

/-- The items of a list up to its closing bracket. -/
def items? : Nat → Nat → List Char → Option (List Value × List Char)
  | 0, _, _ => none
  | budget + 1, depth, cs => do
    let (item, rest) ← value? budget depth cs
    match skipSpace rest with
    | ',' :: rest => do
      let (items, rest) ← items? budget depth rest
      some (item :: items, rest)
    | ']' :: rest => some ([item], rest)
    | _ => none

/-- The fields of a record up to its closing brace. -/
def pairs? : Nat → Nat → List Char → Option (List (String × Value) × List Char)
  | 0, _, _ => none
  | budget + 1, depth, cs => do
    let (key, rest) ← name? budget cs
    let rest ← mark? ':' rest
    let (v, rest) ← value? budget depth rest
    match skipSpace rest with
    | ',' :: rest => do
      let (pairs, rest) ← pairs? budget depth rest
      some ((key, v) :: pairs, rest)
    | '}' :: rest => some ([(key, v)], rest)
    | _ => none

end

end TaggedText

/-- The value that a text in tagged form stands for. The budget is generous: a call that lowers it
takes a character, or is followed by one that does. -/
def ofTaggedText? (s : String) : Option Value := do
  let cs := s.toList
  let (v, rest) ← TaggedText.value? (4 * cs.length + 4) Json.Reader.maxDepth cs
  if (Json.Reader.skipSpace rest).isEmpty then some v else none

end Value

end EffectGraph
