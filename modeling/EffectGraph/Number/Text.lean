import EffectGraph.Number.Shortest
import EffectGraph.Number.Nearest

/-!
# Numbers as text

`Number.text` writes a double with the fewest digits that read back as the same double. A `Layout`
says how these digits are placed. `Number.ofText?` reads a decimal, with or without a fraction and
an exponent, as the nearest double.
-/

namespace EffectGraph

namespace Number

/-- How the digits of a number are placed. -/
structure Layout where
  /-- What follows the digits of a whole number. -/
  wholeSuffix : String
  /-- The powers of ten of the leading digit for which the point is written in place; other numbers
  are written with an exponent. -/
  inPlace : Int → Bool

/-- Values are shown without an exponent, and whole numbers without a point. -/
def plain : Layout := ⟨"", fun _ => true⟩

/-- Descriptions of values for a reader keep the point of whole numbers and write numbers from
`10^16` on and numbers below `10^-4` with an exponent. -/
def pointed : Layout := ⟨".0", fun power => -4 ≤ power && power < 16⟩

/-- `n` zeros. -/
def zeros (n : Nat) : String := "".pushn '0' n

/-- The digits of a decimal, laid out with the point in place. -/
def inPlaceText (layout : Layout) (d : Decimal) : String :=
  let digits := toString d.digits
  if 0 ≤ d.exponent then
    digits ++ zeros d.exponent.toNat ++ layout.wholeSuffix
  else
    let point : Int := digits.length + d.exponent
    if 0 < point then
      (digits.take point.toNat).toString ++ "." ++ (digits.drop point.toNat).toString
    else
      "0." ++ zeros (-point).toNat ++ digits

/-- The digits of a decimal with one digit before the point and an exponent. -/
def exponentText (d : Decimal) : String :=
  let digits := toString d.digits
  let power : Int := d.exponent + digits.length - 1
  let head := (digits.take 1).toString
  let tail := (digits.drop 1).toString
  head ++ (if tail.isEmpty then "" else "." ++ tail) ++ "e" ++ toString power

/-- The text of a double under a layout. -/
def textWith (layout : Layout) (x : Float) : String :=
  if x.isNaN then "NaN" else
    let bits := x.toBits.toNat
    let sign := if powTwo 63 ≤ bits then "-" else ""
    let magnitude := bits % powTwo 63
    if magnitude = 2047 * powTwo 52 then sign ++ "inf"
    else if magnitude = 0 then sign ++ "0" ++ layout.wholeSuffix
    else
      let d := Decimal.shortest magnitude
      let power : Int := d.exponent + (toString d.digits).length - 1
      sign ++ (if layout.inPlace power then inPlaceText layout d else exponentText d)

/-- The text of a double with the fewest digits that read back as the same double. -/
def text (x : Float) : String := textWith plain x

/-- The text of a number that is shown to a user: both zeros are `0`. -/
def display (x : Float) : String := if x == 0 then "0" else text x

/-- The number that a list of decimal digits stands for. -/
def ofDigits (digits : List Char) : Nat :=
  digits.foldl (fun n c => 10 * n + (c.toNat - '0'.toNat)) 0

/-- A sign and the characters after it. -/
def takeSign : List Char → Bool × List Char
  | '-' :: rest => (true, rest)
  | '+' :: rest => (false, rest)
  | cs => (false, cs)

/-- The exponent at the end of a number, `0` if there is none. -/
def exponent? : List Char → Option Int
  | [] => some 0
  | c :: rest =>
    if c = 'e' ∨ c = 'E' then
      let (negative, digits) := takeSign rest
      if digits.isEmpty ∨ !digits.all Char.isDigit then none
      else some (if negative then -(ofDigits digits : Int) else ofDigits digits)
    else none

/-- The double nearest to an unsigned decimal. -/
def magnitude? (cs : List Char) : Option Float :=
  let whole := cs.takeWhile Char.isDigit
  let afterWhole := cs.dropWhile Char.isDigit
  let (fraction, rest) :=
    match afterWhole with
    | '.' :: more => (more.takeWhile Char.isDigit, more.dropWhile Char.isDigit)
    | more => ([], more)
  if whole.isEmpty ∧ fraction.isEmpty then none
  else (exponent? rest).map fun e => ofDecimal (ofDigits (whole ++ fraction)) (e - fraction.length)

/-- The double that a text stands for: a decimal with an optional sign, fraction and exponent, or
one of the names `NaN`, `inf` and `infinity` in any case. -/
def ofText? (s : String) : Option Float :=
  let (negative, cs) := takeSign s.toList
  let name := (String.ofList cs).toLower
  let magnitude :=
    if name = "nan" then some (0.0 / 0.0)
    else if name = "inf" ∨ name = "infinity" then some (1.0 / 0.0)
    else magnitude? cs
  magnitude.map fun x => if negative then -x else x

end Number

end EffectGraph
