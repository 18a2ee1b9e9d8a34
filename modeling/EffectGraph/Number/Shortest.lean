import EffectGraph.Number.Powers

/-!
# Shortest decimals

Every finite positive double is `m · 2^q` for natural `m` and integer `q`, and it stands for all
reals closer to it than to its neighbours. `Decimal.shortest` finds the decimal with the fewest
digits inside that interval of reals, and of two such decimals the nearer one; an exact tie goes to
the larger.

The search is exact. For one to seventeen digits it looks at the two points of that decimal grid
which enclose the value, because a grid that has a point in the interval has one of these two
there. Seventeen digits always suffice for a double.
-/

namespace EffectGraph

/-- A non-negative decimal `digits · 10 ^ exponent`. -/
structure Decimal where
  /-- The digits, read as one number. -/
  digits : Nat
  /-- The power of ten of the last digit. -/
  exponent : Int
  deriving Repr, DecidableEq

namespace Decimal

/-- A positive double as a multiple of a power of two, with the reals that round to it. All four
numbers are in units of `2 ^ scale`. -/
structure Cell where
  /-- The double itself. -/
  centre : Nat
  /-- The lower end of the reals that round to it. -/
  low : Nat
  /-- The upper end of the reals that round to it. -/
  high : Nat
  /-- Both ends round to the double as well. -/
  closed : Bool
  /-- The power of two of the unit. -/
  scale : Int

/-- The cell of the positive double with the given bit pattern: eleven bits of exponent above
fifty-two bits of fraction. Below a power of two the neighbour is only half as far away. -/
def Cell.ofBits (bits : Nat) : Cell :=
  let fraction := bits % Number.powTwo 52
  let exponent : Nat := bits / Number.powTwo 52
  let m := if exponent = 0 then fraction else fraction + Number.powTwo 52
  let q : Int := if exponent = 0 then -1074 else (exponent : Int) - 1075
  let below := if fraction = 0 ∧ 1 < exponent then 1 else 2
  ⟨4 * m, 4 * m - below, 4 * m + 2, m % 2 = 0, q - 2⟩

/-- `a / b` as a fraction, multiplied by `10 ^ k`. -/
def timesPowTen (a b : Nat) (k : Int) : Nat × Nat :=
  if 0 ≤ k then (a * Number.powTen k.toNat, b) else (a, b * Number.powTen (-k).toNat)

/-- The power of ten of the leading digit of the positive fraction `a / b`. -/
def leadingPower (a b : Nat) : Int :=
  if b ≤ a then
    ((toString (a / b)).length : Int) - 1
  else
    let k : Int := (toString (b / a)).length
    let (a', b') := timesPowTen a b (k - 1)
    if b' ≤ a' then 1 - k else -k

/-- Removes the zeros at the end of the digits. The first argument bounds how many there are. -/
def trim : Nat → Decimal → Decimal
  | 0, d => d
  | n + 1, d =>
    if d.digits ≠ 0 ∧ d.digits % 10 = 0 then trim n ⟨d.digits / 10, d.exponent + 1⟩ else d

/-- The point of the `n`-digit decimal grid nearest to the centre of the cell, among the two points
that enclose the centre and lie inside the cell. -/
def onGrid? (cell : Cell) (unit : Nat × Nat) (power : Int) (n : Nat) : Option Decimal :=
  let exponent := power - n + 1
  let scaled (x : Nat) : Nat × Nat := timesPowTen (x * unit.1) unit.2 (-exponent)
  let (a, b) := scaled cell.centre
  let inside (p : Nat) : Bool :=
    let (l, lb) := scaled cell.low
    let (h, hb) := scaled cell.high
    if cell.closed then l ≤ p * lb && p * hb ≤ h else l < p * lb && p * hb < h
  let below := a / b
  let above := below + 1
  let upper := b ≤ 2 * (a % b)
  match inside below, inside above with
  | true, true => some ⟨if upper then above else below, exponent⟩
  | true, false => some ⟨below, exponent⟩
  | false, true => some ⟨above, exponent⟩
  | false, false => none

/-- The shortest decimal that rounds to the positive double with the given bit pattern. -/
def shortest (bits : Nat) : Decimal :=
  let cell := Cell.ofBits bits
  let unit :=
    if 0 ≤ cell.scale then (Number.powTwo cell.scale.toNat, 1)
    else (1, Number.powTwo (-cell.scale).toNat)
  let power := leadingPower (cell.centre * unit.1) unit.2
  let found := (List.range 17).findSome? fun n => onGrid? cell unit power (n + 1)
  trim 20 (found.getD ⟨0, 0⟩)

end Decimal

end EffectGraph
