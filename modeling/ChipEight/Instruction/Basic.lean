import ChipEight.Nibble

/-!
Instruction words and what they stand for.  A word is sixteen bits, read as
four nibbles: the first selects a family, the others name registers or form an
eight-bit constant or a twelve-bit address.  `Nibbles.word_ofWord` and
`Nibbles.ofWord_word` say that a word and its nibbles determine each other.
-/

namespace ChipEight

abbrev RegisterName := Nibble

/-- A twelve-bit address. -/
abbrev Address := Fin 4096

/-- The four nibbles of an instruction word, most significant first. -/
@[ext] structure Nibbles where
  family : Nibble
  x : RegisterName
  y : RegisterName
  n : Nibble
  deriving DecidableEq, Repr

namespace Nibbles

def ofWord (w : UInt16) : Nibbles where
  family := Nibble.ofNat (w.toNat / 4096)
  x := Nibble.ofNat (w.toNat / 256)
  y := Nibble.ofNat (w.toNat / 16)
  n := Nibble.ofNat w.toNat

/-- The constant in the two last nibbles. -/
def nn (p : Nibbles) : UInt8 :=
  UInt8.ofNat (16 * p.y + p.n)

/-- The address in the three last nibbles. -/
def nnn (p : Nibbles) : Address :=
  ⟨256 * p.x + 16 * p.y + p.n, by omega⟩

def word (p : Nibbles) : UInt16 :=
  UInt16.ofNat (4096 * p.family + p.nnn)

@[simp] theorem toNat_nn (p : Nibbles) : p.nn.toNat = 16 * p.y + p.n := by
  simp only [nn, UInt8.toNat_ofNat']
  omega

@[simp] theorem val_nnn (p : Nibbles) :
    (p.nnn : Nat) = 256 * p.x + 16 * p.y + p.n := rfl

@[simp] theorem toNat_word (p : Nibbles) :
    p.word.toNat = 4096 * p.family + p.nnn := by
  simp only [word, UInt16.toNat_ofNat']
  omega

@[simp] theorem word_ofWord (w : UInt16) : (ofWord w).word = w := by
  apply UInt16.toNat_inj.1
  have h := w.toNat_lt
  simp only [toNat_word, val_nnn, ofWord, Nibble.val_ofNat]
  omega

@[simp] theorem ofWord_word (p : Nibbles) : ofWord p.word = p := by
  ext <;> simp only [ofWord, Nibble.val_ofNat, toNat_word, val_nnn] <;> omega

end Nibbles

inductive ArithOp
  | copy
  | or
  | and
  | xor
  | add
  | subtract
  | shiftRight
  | subtractFrom
  | shiftLeft
  deriving DecidableEq, Repr

inductive Instruction
  /-- `0NNN`: a call of a routine outside the machine, without effect. -/
  | system (target : Address)
  /-- `00E0`: switch all pixels off. -/
  | clear
  /-- `00EE`: go on behind the last call. -/
  | ret
  /-- `1NNN`: go to an address. -/
  | jump (target : Address)
  /-- `2NNN`: go to an address and remember where from. -/
  | call (target : Address)
  /-- `3XNN`: skip the next word if VX is the constant. -/
  | skipIfEqual (x : RegisterName) (constant : UInt8)
  /-- `4XNN`: skip the next word if VX is not the constant. -/
  | skipUnlessEqual (x : RegisterName) (constant : UInt8)
  /-- `5XY0`: skip the next word if VX is VY. -/
  | skipIfSame (x y : RegisterName)
  /-- `6XNN`: put the constant into VX. -/
  | setConstant (x : RegisterName) (constant : UInt8)
  /-- `7XNN`: add the constant to VX, without a flag. -/
  | addConstant (x : RegisterName) (constant : UInt8)
  /-- `8XY_`: combine VX with VY into VX. -/
  | arith (op : ArithOp) (x y : RegisterName)
  /-- `9XY0`: skip the next word if VX is not VY. -/
  | skipUnlessSame (x y : RegisterName)
  /-- `ANNN`: put an address into I. -/
  | setIndex (target : Address)
  /-- `BNNN`: go to an address plus a register. -/
  | jumpOffset (base : Address) (x : RegisterName)
  /-- `CXNN`: put a random byte, masked by the constant, into VX. -/
  | random (x : RegisterName) (mask : UInt8)
  /-- `DXYN`: draw the sprite of `height` rows at I to column VX and row VY. -/
  | draw (x y : RegisterName) (height : Nibble)
  /-- `EX9E`: skip the next word if the key VX is down. -/
  | skipIfKeyDown (x : RegisterName)
  /-- `EXA1`: skip the next word if the key VX is up. -/
  | skipIfKeyUp (x : RegisterName)
  /-- `FX07`: put the delay timer into VX. -/
  | readDelay (x : RegisterName)
  /-- `FX0A`: wait for a key to be pressed and let go, and put it into VX. -/
  | waitKey (x : RegisterName)
  /-- `FX15`: set the delay timer to VX. -/
  | setDelay (x : RegisterName)
  /-- `FX18`: set the sound timer to VX. -/
  | setSound (x : RegisterName)
  /-- `FX1E`: add VX to I. -/
  | addIndex (x : RegisterName)
  /-- `FX29`: point I at the glyph of the digit VX. -/
  | pointGlyph (x : RegisterName)
  /-- `FX33`: store the three decimal digits of VX at I. -/
  | storeDecimal (x : RegisterName)
  /-- `FX55`: store V0 to VX at I. -/
  | storeRegisters (x : RegisterName)
  /-- `FX65`: load V0 to VX from I. -/
  | loadRegisters (x : RegisterName)
  /-- Any word of no other form. -/
  | undefined (word : UInt16)
  deriving DecidableEq, Repr

end ChipEight
