import EffectGraph.Number.Powers

/-!
# The nearest double

`nearestBits a b` is the bit pattern of the double nearest to the fraction `a / b`; an exact tie
goes to the even significand. It is computed in exact arithmetic: the fraction is divided by the
power of two that leaves a quotient of fifty-three bits, and the quotient is rounded once.
-/

namespace EffectGraph

namespace Number

/-- `a / b` rounded to the nearest natural number, a tie to the even one. -/
def roundToEven (a b : Nat) : Nat :=
  let quotient := a / b
  let twice := 2 * (a % b)
  if b < twice ∨ (twice = b ∧ quotient % 2 = 1) then quotient + 1 else quotient

/-- `a / b` divided by `2 ^ q`, as a fraction. -/
def overPowTwo (a b : Nat) (q : Int) : Nat × Nat :=
  if 0 ≤ q then (a, b * powTwo q.toNat) else (a * powTwo (-q).toNat, b)

/-- The exponent of the last bit of the double nearest to `a / b`: the quotient has fifty-three
bits, or fewer where the exponent cannot go lower. -/
def lastBitPower (a b : Nat) : Int :=
  let guess : Int := (a.log2 : Int) - b.log2 - 53
  let (a', b') := overPowTwo a b guess
  max (-1074) (if powTwo 53 * b' ≤ a' then guess + 1 else guess)

/-- The bit pattern of the double nearest to `a / b`, the pattern of infinity from the midpoint
above the largest double on. -/
def nearestBits (a b : Nat) : Nat :=
  if a = 0 ∨ b = 0 then 0 else
    let q := lastBitPower a b
    let (a', b') := overPowTwo a b q
    let m := roundToEven a' b'
    let bits := if m < powTwo 52 then m else (q + 1075).toNat * powTwo 52 + (m - powTwo 52)
    min bits (2047 * powTwo 52)

/-- The double nearest to `digits · 10 ^ exponent`. Exponents far outside the range of doubles are
decided without computing the power. -/
def ofDecimal (digits : Nat) (exponent : Int) : Float :=
  if digits = 0 then 0
  else
    let size : Int := (toString digits).length
    if 400 < exponent + size then Float.ofBits (2047 * powTwo 52 : Nat).toUInt64
    else if exponent + size < -400 then 0
    else if 0 ≤ exponent then
      Float.ofBits (nearestBits (digits * powTen exponent.toNat) 1).toUInt64
    else
      Float.ofBits (nearestBits digits (powTen (-exponent).toNat)).toUInt64

/-- The double nearest to a natural number. -/
def ofNat (n : Nat) : Float := ofDecimal n 0

/-- The double nearest to an integer. -/
def ofInt (n : Int) : Float := if n < 0 then -(ofNat n.natAbs) else ofNat n.natAbs

end Number

end EffectGraph
