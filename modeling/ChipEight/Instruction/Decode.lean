import ChipEight.Instruction.Basic

/-!
Decoding: which instruction a word stands for.  Words of none of the defined
forms decode to `Instruction.undefined`, so decoding is a total function.
-/

namespace ChipEight

/-- The operation between two registers that the last nibble of an `8XY_` word
selects. -/
def ArithOp.ofNibble? (n : Nibble) : Option ArithOp :=
  match n.val with
  | 0x0 => some .copy
  | 0x1 => some .or
  | 0x2 => some .and
  | 0x3 => some .xor
  | 0x4 => some .add
  | 0x5 => some .subtract
  | 0x6 => some .shiftRight
  | 0x7 => some .subtractFrom
  | 0xE => some .shiftLeft
  | _ => none

namespace Nibbles

def systemInstruction (p : Nibbles) : Instruction :=
  match p.nnn.val with
  | 0x0E0 => .clear
  | 0x0EE => .ret
  | _ => .system p.nnn

def keyInstruction? (p : Nibbles) : Option Instruction :=
  match p.nn.toNat with
  | 0x9E => some (.skipIfKeyDown p.x)
  | 0xA1 => some (.skipIfKeyUp p.x)
  | _ => none

def deviceInstruction? (p : Nibbles) : Option Instruction :=
  match p.nn.toNat with
  | 0x07 => some (.readDelay p.x)
  | 0x0A => some (.waitKey p.x)
  | 0x15 => some (.setDelay p.x)
  | 0x18 => some (.setSound p.x)
  | 0x1E => some (.addIndex p.x)
  | 0x29 => some (.pointGlyph p.x)
  | 0x33 => some (.storeDecimal p.x)
  | 0x55 => some (.storeRegisters p.x)
  | 0x65 => some (.loadRegisters p.x)
  | _ => none

def instruction? (p : Nibbles) : Option Instruction :=
  match p.family.val with
  | 0x0 => some p.systemInstruction
  | 0x1 => some (.jump p.nnn)
  | 0x2 => some (.call p.nnn)
  | 0x3 => some (.skipIfEqual p.x p.nn)
  | 0x4 => some (.skipUnlessEqual p.x p.nn)
  | 0x5 => if p.n = 0 then some (.skipIfSame p.x p.y) else none
  | 0x6 => some (.setConstant p.x p.nn)
  | 0x7 => some (.addConstant p.x p.nn)
  | 0x8 => (ArithOp.ofNibble? p.n).map fun op => .arith op p.x p.y
  | 0x9 => if p.n = 0 then some (.skipUnlessSame p.x p.y) else none
  | 0xA => some (.setIndex p.nnn)
  | 0xB => some (.jumpOffset p.nnn p.x)
  | 0xC => some (.random p.x p.nn)
  | 0xD => some (.draw p.x p.y p.n)
  | 0xE => p.keyInstruction?
  | _ => p.deviceInstruction?

end Nibbles

def Instruction.decode (w : UInt16) : Instruction :=
  (Nibbles.ofWord w).instruction?.getD (.undefined w)

end ChipEight
