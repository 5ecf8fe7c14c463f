import ChipEight.Instruction.Basic
import ChipEight.Text.Hex

/-!
The assembly notation of instructions: a name and a list of operands, and the
text of both.
-/

namespace ChipEight

inductive Operand
  /-- A register, `V` and an upper-case digit. -/
  | register (x : RegisterName)
  | byte (value : UInt8)
  | address (target : Address)
  /-- A number of rows, in decimal. -/
  | rows (height : Nibble)
  /-- A bare word of four upper-case digits. -/
  | word (value : UInt16)
  | index
  /-- The memory that the index register points at. -/
  | atIndex
  | delay
  | sound
  | key
  | glyph
  | decimal
  deriving DecidableEq, Repr

def Operand.text : Operand → String
  | .register x => "V" ++ Hex.upper 1 x
  | .byte value => Hex.marked 2 value.toNat
  | .address target => Hex.marked 3 target
  | .rows height => toString height.val
  | .word value => Hex.upper 4 value.toNat
  | .index => "I"
  | .atIndex => "[I]"
  | .delay => "DT"
  | .sound => "ST"
  | .key => "K"
  | .glyph => "F"
  | .decimal => "B"

structure Mnemonic where
  name : String
  operands : List Operand
  deriving DecidableEq, Repr

/-- The name, a blank if operands follow, and these parted by a comma and a
blank. -/
def Mnemonic.text (m : Mnemonic) : String :=
  match m.operands with
  | [] => m.name
  | operands => m.name ++ " " ++ ", ".intercalate (operands.map Operand.text)

def ArithOp.name : ArithOp → String
  | .copy => "LD"
  | .or => "OR"
  | .and => "AND"
  | .xor => "XOR"
  | .add => "ADD"
  | .subtract => "SUB"
  | .shiftRight => "SHR"
  | .subtractFrom => "SUBN"
  | .shiftLeft => "SHL"

namespace Instruction

/-- The assembly notation of an instruction.  An offset jump is written with
V0, whichever register it adds. -/
def assembly : Instruction → Mnemonic
  | .system target => ⟨"SYS", [.address target]⟩
  | .clear => ⟨"CLS", []⟩
  | .ret => ⟨"RET", []⟩
  | .jump target => ⟨"JP", [.address target]⟩
  | .call target => ⟨"CALL", [.address target]⟩
  | .skipIfEqual x constant => ⟨"SE", [.register x, .byte constant]⟩
  | .skipUnlessEqual x constant => ⟨"SNE", [.register x, .byte constant]⟩
  | .skipIfSame x y => ⟨"SE", [.register x, .register y]⟩
  | .setConstant x constant => ⟨"LD", [.register x, .byte constant]⟩
  | .addConstant x constant => ⟨"ADD", [.register x, .byte constant]⟩
  | .arith op x y => ⟨op.name, [.register x, .register y]⟩
  | .skipUnlessSame x y => ⟨"SNE", [.register x, .register y]⟩
  | .setIndex target => ⟨"LD", [.index, .address target]⟩
  | .jumpOffset base _ => ⟨"JP", [.register 0, .address base]⟩
  | .random x mask => ⟨"RND", [.register x, .byte mask]⟩
  | .draw x y height => ⟨"DRW", [.register x, .register y, .rows height]⟩
  | .skipIfKeyDown x => ⟨"SKP", [.register x]⟩
  | .skipIfKeyUp x => ⟨"SKNP", [.register x]⟩
  | .readDelay x => ⟨"LD", [.register x, .delay]⟩
  | .waitKey x => ⟨"LD", [.register x, .key]⟩
  | .setDelay x => ⟨"LD", [.delay, .register x]⟩
  | .setSound x => ⟨"LD", [.sound, .register x]⟩
  | .addIndex x => ⟨"ADD", [.index, .register x]⟩
  | .pointGlyph x => ⟨"LD", [.glyph, .register x]⟩
  | .storeDecimal x => ⟨"LD", [.decimal, .register x]⟩
  | .storeRegisters x => ⟨"LD", [.atIndex, .register x]⟩
  | .loadRegisters x => ⟨"LD", [.register x, .atIndex]⟩
  | .undefined w => ⟨"???", [.word w]⟩

def mnemonic (i : Instruction) : String :=
  i.assembly.text

end Instruction

end ChipEight
