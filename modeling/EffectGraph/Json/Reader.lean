import EffectGraph.Json.Basic

/-!
# Reading JSON

`Json.ofText?` reads one document by the grammar of RFC 8259, with nothing but white space around
it. Strings hold no bare control characters, an escaped surrogate comes with its partner, numbers
stay in the range of doubles, and arrays and objects nest at most `Json.Reader.maxDepth` deep.

The reader is a recursive descent over the characters that are left. Every call takes at least one
character or lowers the budget, which starts at the number of characters.
-/

namespace EffectGraph

namespace Json

namespace Reader

/-- Arrays and objects inside each other. -/
def maxDepth : Nat := 127

/-- The characters after white space. -/
def skipSpace (cs : List Char) : List Char :=
  cs.dropWhile fun c => c = ' ' || c = '\n' || c = '\t' || c = '\r'

/-- The rest after white space and an expected mark. -/
def mark? (mark : Char) (cs : List Char) : Option (List Char) :=
  match skipSpace cs with
  | c :: rest => if c = mark then some rest else none
  | [] => none

/-- The rest after an expected word. -/
def word? : List Char → List Char → Option (List Char)
  | [], cs => some cs
  | w :: ws, c :: cs => if w = c then word? ws cs else none
  | _ :: _, [] => none

/-- The value of a digit in base sixteen. -/
def hexDigit? (c : Char) : Option Nat :=
  if c.isDigit then some (c.toNat - '0'.toNat)
  else if 'a' ≤ c ∧ c ≤ 'f' then some (c.toNat - 'a'.toNat + 10)
  else if 'A' ≤ c ∧ c ≤ 'F' then some (c.toNat - 'A'.toNat + 10)
  else none

/-- Four digits in base sixteen. -/
def hex4? : List Char → Option (Nat × List Char)
  | a :: b :: c :: d :: rest => do
    let n ← [a, b, c, d].foldlM (fun n c => (hexDigit? c).map (16 * n + ·)) 0
    some (n, rest)
  | _ => none

/-- The character that one letter after a backslash stands for. -/
def letterEscape? : Char → Option Char
  | '"' => some '"'
  | '\\' => some '\\'
  | '/' => some '/'
  | 'b' => some '\x08'
  | 'f' => some '\x0c'
  | 'n' => some '\n'
  | 'r' => some '\r'
  | 't' => some '\t'
  | _ => none

/-- The character of a numeric escape, after its `\u`. A high surrogate is followed by the escape of
a low one. -/
def numericEscape? (cs : List Char) : Option (Char × List Char) := do
  let (n, rest) ← hex4? cs
  if 0xd800 ≤ n ∧ n < 0xdc00 then
    let rest ← word? ['\\', 'u'] rest
    let (low, rest) ← hex4? rest
    if 0xdc00 ≤ low ∧ low < 0xe000 then
      some (Char.ofNat (0x10000 + (n - 0xd800) * 0x400 + (low - 0xdc00)), rest)
    else none
  else if 0xdc00 ≤ n ∧ n < 0xe000 then none
  else some (Char.ofNat n, rest)

/-- The rest of a string after its opening quote. The characters read so far come in reverse. -/
def string? : Nat → List Char → List Char → Option (String × List Char)
  | 0, _, _ => none
  | _ + 1, _, [] => none
  | _ + 1, read, '"' :: rest => some (String.ofList read.reverse, rest)
  | budget + 1, read, '\\' :: 'u' :: rest => do
    let (c, rest) ← numericEscape? rest
    string? budget (c :: read) rest
  | budget + 1, read, '\\' :: e :: rest => do
    let c ← letterEscape? e
    string? budget (c :: read) rest
  | budget + 1, read, c :: rest =>
    if c = '\\' ∨ c.toNat < 0x20 then none else string? budget (c :: read) rest

/-- The integer part of a number: a zero alone, or digits that do not start with a zero. -/
def whole? : List Char → Option (List Char × List Char)
  | '0' :: rest =>
    match rest with
    | c :: _ => if c.isDigit then none else some (['0'], rest)
    | [] => some (['0'], [])
  | cs =>
    let digits := cs.takeWhile Char.isDigit
    if digits.isEmpty then none else some (digits, cs.dropWhile Char.isDigit)

/-- The fraction of a number, without its point. -/
def fraction? : List Char → Option (List Char × List Char)
  | '.' :: rest =>
    let digits := rest.takeWhile Char.isDigit
    if digits.isEmpty then none else some (digits, rest.dropWhile Char.isDigit)
  | cs => some ([], cs)

/-- The exponent of a number, if it has one. -/
def exponent? : List Char → Option (Option Int × List Char)
  | [] => some (none, [])
  | c :: rest =>
    if c = 'e' ∨ c = 'E' then
      let (negative, rest) := Number.takeSign rest
      let digits := rest.takeWhile Char.isDigit
      if digits.isEmpty then none
      else
        let n : Int := Number.ofDigits digits
        some (some (if negative then -n else n), rest.dropWhile Char.isDigit)
    else some (none, c :: rest)

/-- A number as it is written. -/
structure Decimal where
  /-- Whether there is a minus sign. -/
  negative : Bool
  /-- The digits of the integer part. -/
  whole : List Char
  /-- The digits after the point. -/
  fraction : List Char
  /-- The exponent, if it has one. -/
  exponent : Option Int

/-- The number at the head of the characters, as it is written. -/
def decimal? (cs : List Char) : Option (Decimal × List Char) := do
  let (negative, cs) := match cs with
    | '-' :: rest => (true, rest)
    | cs => (false, cs)
  let (whole, cs) ← whole? cs
  let (fraction, cs) ← fraction? cs
  let (exponent, cs) ← exponent? cs
  some (⟨negative, whole, fraction, exponent⟩, cs)

/-- The document of a number, unless its nearest double is infinite. -/
def Decimal.json? (d : Decimal) : Option Json :=
  let n := Number.ofDigits d.whole
  let fits := if d.negative then 0 < n ∧ n ≤ Number.powTwo 63 else n < Number.powTwo 64
  if d.fraction.isEmpty ∧ d.exponent.isNone ∧ fits then
    some (.integer (if d.negative then -n else n))
  else
    let x := Number.ofDecimal (Number.ofDigits (d.whole ++ d.fraction))
      (d.exponent.getD 0 - d.fraction.length)
    if x.isFinite then some (.real (if d.negative then -x else x)) else none

/-- A number. -/
def number? (cs : List Char) : Option (Json × List Char) := do
  let (decimal, rest) ← decimal? cs
  (decimal.json?).map (·, rest)

mutual

/-- One document at the head of the characters. -/
def value? : Nat → Nat → List Char → Option (Json × List Char)
  | 0, _, _ => none
  | budget + 1, depth, cs =>
    match skipSpace cs with
    | '{' :: rest =>
      if depth = 0 then none else
        match skipSpace rest with
        | '}' :: rest => some (.object [], rest)
        | rest => do
          let (fields, rest) ← fields? budget (depth - 1) rest
          some (.object fields, rest)
    | '[' :: rest =>
      if depth = 0 then none else
        match skipSpace rest with
        | ']' :: rest => some (.array [], rest)
        | rest => do
          let (items, rest) ← items? budget (depth - 1) rest
          some (.array items, rest)
    | '"' :: rest => (string? budget [] rest).map fun r => (.string r.1, r.2)
    | 'n' :: rest => (word? ['u', 'l', 'l'] rest).map fun r => (.null, r)
    | 't' :: rest => (word? ['r', 'u', 'e'] rest).map fun r => (.bool true, r)
    | 'f' :: rest => (word? ['a', 'l', 's', 'e'] rest).map fun r => (.bool false, r)
    | rest => number? rest

/-- The items of an array up to its closing bracket. -/
def items? : Nat → Nat → List Char → Option (List Json × List Char)
  | 0, _, _ => none
  | budget + 1, depth, cs => do
    let (item, rest) ← value? budget depth cs
    match skipSpace rest with
    | ',' :: rest => do
      let (items, rest) ← items? budget depth rest
      some (item :: items, rest)
    | ']' :: rest => some ([item], rest)
    | _ => none

/-- The fields of an object up to its closing brace. -/
def fields? : Nat → Nat → List Char → Option (List (String × Json) × List Char)
  | 0, _, _ => none
  | budget + 1, depth, cs =>
    match skipSpace cs with
    | '"' :: rest => do
      let (key, rest) ← string? budget [] rest
      match skipSpace rest with
      | ':' :: rest => do
        let (value, rest) ← value? budget depth rest
        match skipSpace rest with
        | ',' :: rest => do
          let (fields, rest) ← fields? budget depth rest
          some ((key, value) :: fields, rest)
        | '}' :: rest => some ([(key, value)], rest)
        | _ => none
      | _ => none
    | _ => none

end

end Reader

/-- The document that a text is. -/
def ofText? (s : String) : Option Json := do
  let cs := s.toList
  let (json, rest) ← Reader.value? (2 * cs.length + 2) Reader.maxDepth cs
  if (Reader.skipSpace rest).isEmpty then some json else none

end Json

end EffectGraph
