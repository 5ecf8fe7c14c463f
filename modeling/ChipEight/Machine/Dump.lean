import ChipEight.Machine.Basic
import ChipEight.Memory.Dump

/-!
A machine as text: its registers in three lines under a heading, and its memory
under another.
-/

namespace ChipEight.Machine

def registerLine (m : Machine) : String :=
  String.join ((List.finRange 16).map fun (r : RegisterName) =>
    "V" ++ Hex.upper 1 r ++ "=" ++ Hex.upper 2 (m.registers.get r).toNat ++ " ")

def stateLine (m : Machine) : String :=
  "PC=" ++ Hex.upper 4 m.pc ++ " I=" ++ Hex.upper 4 m.index ++
    " DT=" ++ Hex.upper 2 m.delay.toNat ++ " ST=" ++ Hex.upper 2 m.sound.toNat ++
    " SP=" ++ toString m.stack.depth

def header (m : Machine) : List String :=
  ["=== Registers ===", m.registerLine, m.stateLine, "=== Memory ==="]

def dump (m : Machine) : String :=
  String.join (m.header.map (· ++ "\n")) ++ m.memory.dump

end ChipEight.Machine
