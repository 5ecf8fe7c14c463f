import ChipEight.Memory.Basic
import ChipEight.Nibble

/-!
The pictures of the sixteen hexadecimal digits, each of five rows, which lie at
the start of the memory.
-/

namespace ChipEight.Glyph

def height : Nat := 5

def table : Vector (List UInt8) 16 :=
  #v[[0xF0, 0x90, 0x90, 0x90, 0xF0], [0x20, 0x60, 0x20, 0x20, 0x70],
     [0xF0, 0x10, 0xF0, 0x80, 0xF0], [0xF0, 0x10, 0xF0, 0x10, 0xF0],
     [0x90, 0x90, 0xF0, 0x10, 0x10], [0xF0, 0x80, 0xF0, 0x10, 0xF0],
     [0xF0, 0x80, 0xF0, 0x90, 0xF0], [0xF0, 0x10, 0x20, 0x40, 0x40],
     [0xF0, 0x90, 0xF0, 0x90, 0xF0], [0xF0, 0x90, 0xF0, 0x10, 0xF0],
     [0xF0, 0x90, 0xF0, 0x90, 0x90], [0xE0, 0x90, 0xE0, 0x90, 0xE0],
     [0xF0, 0x80, 0x80, 0x80, 0xF0], [0xE0, 0x90, 0x90, 0x90, 0xE0],
     [0xF0, 0x80, 0xF0, 0x80, 0xF0], [0xF0, 0x80, 0xF0, 0x80, 0x80]]

def rows (digit : Nibble) : List UInt8 :=
  table.get digit

def font : List UInt8 :=
  table.toList.flatten

def address (digit : Nibble) : Nat :=
  height * digit

/-- The memory of a machine that has just been switched on: the glyphs at the
start and zeros behind them. -/
def bareMemory : Memory :=
  Memory.zero.overwrite 0 font

theorem length_rows (digit : Nibble) : (rows digit).length = height := by
  revert digit
  decide

end ChipEight.Glyph
