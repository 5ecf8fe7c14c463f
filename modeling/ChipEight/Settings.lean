/-!
The points on which machines of this family differ, and which of them a machine
follows.
-/

namespace ChipEight

/-- How a machine treats the instructions on which programs disagree. -/
@[ext] structure Settings where
  /-- Shifts take their operand from VY instead of VX. -/
  shiftFromY : Bool
  /-- Offset jumps add VX instead of V0. -/
  jumpFromX : Bool
  /-- Storing and loading registers moves I behind the last byte. -/
  advanceIndex : Bool
  /-- Exclusive or sets the flag where the operands had a bit in common. -/
  xorSetsFlag : Bool
  deriving DecidableEq, Repr

inductive Setting
  | shiftFromY
  | jumpFromX
  | advanceIndex
  | xorSetsFlag
  deriving DecidableEq, Repr

namespace Settings

def usual : Settings :=
  ⟨false, false, false, true⟩

def set (s : Settings) : Setting → Bool → Settings
  | .shiftFromY, on => { s with shiftFromY := on }
  | .jumpFromX, on => { s with jumpFromX := on }
  | .advanceIndex, on => { s with advanceIndex := on }
  | .xorSetsFlag, on => { s with xorSetsFlag := on }

end Settings

end ChipEight
