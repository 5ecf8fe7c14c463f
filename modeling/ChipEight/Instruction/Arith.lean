import ChipEight.Instruction.Basic
import ChipEight.Settings

/-!
The operations between two registers as functions of their operands: the byte
for the first register, and the flag where the operation sets one.
-/

namespace ChipEight.ArithOp

/-- The result for operands `a` in VX and `b` in VY. -/
def eval (settings : Settings) (op : ArithOp) (a b : UInt8) : UInt8 × Option Bool :=
  let shifted := if settings.shiftFromY then b else a
  match op with
  | .copy => (b, none)
  | .or => (a ||| b, none)
  | .and => (a &&& b, none)
  | .xor =>
    (a ^^^ b, if settings.xorSetsFlag then some (a ^^^ b != a ||| b) else none)
  | .add => (a + b, some (255 < a.toNat + b.toNat))
  | .subtract => (a - b, some (b ≤ a))
  | .shiftRight => (shifted >>> 1, some (shifted &&& 1 == 1))
  | .subtractFrom => (b - a, some (a ≤ b))
  | .shiftLeft => (shifted <<< 1, some (128 ≤ shifted))

end ChipEight.ArithOp
