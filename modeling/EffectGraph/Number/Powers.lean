/-!
# Powers of two and of ten

Binary doubles are multiples of powers of two, and decimals are multiples of powers of ten.
-/

namespace EffectGraph

namespace Number

/-- The power of two with an exponent. -/
def powTwo (n : Nat) : Nat := Nat.pow 2 n

/-- The power of ten with an exponent. -/
def powTen (n : Nat) : Nat := Nat.pow 10 n

@[simp] theorem powTwo_zero : powTwo 0 = 1 := rfl

theorem powTwo_succ (n : Nat) : powTwo (n + 1) = powTwo n * 2 := rfl

@[simp] theorem powTen_zero : powTen 0 = 1 := rfl

theorem powTen_succ (n : Nat) : powTen (n + 1) = powTen n * 10 := rfl

end Number

end EffectGraph
