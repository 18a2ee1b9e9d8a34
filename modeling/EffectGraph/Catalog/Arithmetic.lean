import EffectGraph.Catalog.Inputs

/-!
# Arithmetic

Sums, differences, products and quotients of numbers. Dividing by zero raises a payload.
-/

namespace EffectGraph

namespace Catalog

namespace Arithmetic

/-- The instruction of a binary operation. -/
def binary (tag : Tag) (a b : Operand) : Program :=
  instruction tag .number [("a", a), ("b", b)]

/-- A number. -/
def num (x : Float) : Program := .pure (.number x)

/-- The sum of two numbers. -/
def add (a b : Operand) : Program := binary "math.add" a b

/-- The difference of two numbers. -/
def sub (a b : Operand) : Program := binary "math.sub" a b

/-- The product of two numbers. -/
def mul (a b : Operand) : Program := binary "math.mul" a b

/-- The quotient of two numbers. -/
def div (a b : Operand) : Program := binary "math.div" a b

/-- Divides, unless the divisor is zero. -/
def divide (x y : Float) : Except Interrupt Float :=
  if y == 0 then .error (.raised (.text "division by zero")) else .ok (x / y)

/-- What an operation makes of the two inputs. -/
def compute (op : Float → Float → Except Interrupt Float) (tag : Tag) (inputs : List Value) :
    Except Interrupt Value := do
  let x ← (numberInput tag inputs 0 "a").mapError Interrupt.ofFailure
  let y ← (numberInput tag inputs 1 "b").mapError Interrupt.ofFailure
  return .number (← op x y)

/-- The handler of an operation. -/
def handler (op : Float → Float → Except Interrupt Float) : Handler :=
  binaryHandler "a" "b" (compute op)

/-- The handlers of arithmetic. -/
def bundle : Bundle where
  name := "math"
  handlers :=
    [("math.add", handler fun x y => .ok (x + y)),
     ("math.sub", handler fun x y => .ok (x - y)),
     ("math.mul", handler fun x y => .ok (x * y)),
     ("math.div", handler divide)]

end Arithmetic

end Catalog

end EffectGraph
