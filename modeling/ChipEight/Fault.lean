import ChipEight.Text.Hex

/-!
The ways in which an operation of the machine can fail.  A fault carries what
its message names; all but an undefined instruction end a run.
-/

namespace ChipEight

inductive Fault
  /-- A program image that reaches past the end of memory. -/
  | loadOverflow (offset length : Nat)
  /-- A write below the program area. -/
  | protectedWrite (addr : Nat)
  /-- An access past the end of memory. -/
  | outOfBounds (addr : Nat)
  /-- A call with every stack slot taken. -/
  | stackOverflow (addr : Nat)
  /-- A return with no call to return from. -/
  | stackUnderflow (addr : Nat)
  /-- A word that is no instruction. -/
  | undefinedWord (word : UInt16) (addr : Nat)
  deriving DecidableEq, Repr

namespace Fault

/-- Whether the machine cannot go on.  An undefined word is skipped over. -/
def isFatal : Fault → Bool
  | .undefinedWord .. => false
  | _ => true

def message : Fault → String
  | .loadOverflow offset length =>
    "program of " ++ toString length ++ " bytes at " ++ Hex.marked 3 offset ++
      " overflows memory"
  | .protectedWrite addr =>
    "write to reserved interpreter memory at " ++ Hex.marked 3 addr
  | .outOfBounds addr => "memory access out of bounds at " ++ Hex.marked 4 addr
  | .stackOverflow addr => "call stack overflow at " ++ Hex.marked 3 addr
  | .stackUnderflow addr => "sub return with empty stack at " ++ Hex.marked 3 addr
  | .undefinedWord word addr =>
    "invalid opcode '" ++ Hex.upper 4 word.toNat ++ "' encountered at " ++
      Hex.marked 3 addr

end Fault

end ChipEight
