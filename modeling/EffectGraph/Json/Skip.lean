import EffectGraph.Json.Reader

/-!
# Passing over JSON

`Json.Reader.skip?` passes over one document that nobody asks for. Only the grammar is checked: an
escaped surrogate may stand alone, numbers may be out of range, and arrays and objects may nest at
any depth, because the open brackets are kept in a list.
-/

namespace EffectGraph

namespace Json

namespace Reader

/-- The rest after a string whose opening quote is passed. -/
def skipString? : Nat → List Char → Option (List Char)
  | 0, _ => none
  | _ + 1, [] => none
  | _ + 1, '"' :: rest => some rest
  | budget + 1, '\\' :: 'u' :: rest =>
    match hex4? rest with
    | some (_, rest) => skipString? budget rest
    | none => none
  | budget + 1, '\\' :: e :: rest =>
    if (letterEscape? e).isSome then skipString? budget rest else none
  | budget + 1, c :: rest =>
    if c = '\\' ∨ c.toNat < 0x20 then none else skipString? budget rest

/-- The rest after a string, a number or a word. -/
def skipScalar? (budget : Nat) : List Char → Option (List Char)
  | '"' :: rest => skipString? budget rest
  | 'n' :: rest => word? ['u', 'l', 'l'] rest
  | 't' :: rest => word? ['r', 'u', 'e'] rest
  | 'f' :: rest => word? ['a', 'l', 's', 'e'] rest
  | cs => (decimal? cs).map (·.2)

/-- The rest after a key and its colon. -/
def skipKey? (budget : Nat) (cs : List Char) : Option (List Char) := do
  let rest ← mark? '"' cs
  let rest ← skipString? budget rest
  mark? ':' rest

/-- An array or an object whose end is still to come. -/
inductive Bracket where
  | array
  | object
  deriving Repr, DecidableEq

/-- What stands next while a document is passed over. -/
inductive Place where
  /-- A document. -/
  | before
  /-- What follows a document. -/
  | after
  deriving Repr, DecidableEq

/-- The rest after a document and the ends of the open arrays and objects, innermost first. Every
turn takes at least one character. -/
def skipOpen? : Nat → List Bracket → Place → List Char → Option (List Char)
  | 0, _, _, _ => none
  | budget + 1, inside, .before, cs =>
    match skipSpace cs with
    | '[' :: rest =>
      match mark? ']' rest with
      | some rest => skipOpen? budget inside .after rest
      | none => skipOpen? budget (.array :: inside) .before rest
    | '{' :: rest =>
      match mark? '}' rest with
      | some rest => skipOpen? budget inside .after rest
      | none =>
        match skipKey? budget rest with
        | some rest => skipOpen? budget (.object :: inside) .before rest
        | none => none
    | rest =>
      match skipScalar? budget rest with
      | some rest => skipOpen? budget inside .after rest
      | none => none
  | _ + 1, [], .after, cs => some cs
  | budget + 1, .array :: inside, .after, cs =>
    match skipSpace cs with
    | ',' :: rest => skipOpen? budget (.array :: inside) .before rest
    | ']' :: rest => skipOpen? budget inside .after rest
    | _ => none
  | budget + 1, .object :: inside, .after, cs =>
    match skipSpace cs with
    | ',' :: rest =>
      match skipKey? budget rest with
      | some rest => skipOpen? budget (.object :: inside) .before rest
      | none => none
    | '}' :: rest => skipOpen? budget inside .after rest
    | _ => none

/-- The rest after one document. -/
def skip? (budget : Nat) (cs : List Char) : Option (List Char) := skipOpen? budget [] .before cs

end Reader

end Json

end EffectGraph
