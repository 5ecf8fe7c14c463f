import ChipEight.Memory.Basic

/-!
The memory as text: one line for sixteen bytes, with their address.
-/

namespace ChipEight.Memory

def bytesPerLine : Nat := 16

def lineBytes (m : Memory) (j : Nat) : List UInt8 :=
  m.window (bytesPerLine * j) bytesPerLine

/-- Line `j`: the address of its first byte, a colon and the bytes, a blank
behind each mark and number. -/
def line (m : Memory) (j : Nat) : String :=
  Hex.upper 4 (bytesPerLine * j) ++ ": " ++
    String.join ((m.lineBytes j).map fun b => Hex.upper 2 b.toNat ++ " ")

def lines (m : Memory) : List String :=
  (List.range (size / bytesPerLine)).map m.line

def dump (m : Memory) : String :=
  String.join (m.lines.map (· ++ "\n"))

end ChipEight.Memory
