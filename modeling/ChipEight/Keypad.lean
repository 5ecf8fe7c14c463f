import ChipEight.Nibble

/-!
The sixteen keys, the layout that brings a host keyboard to them, and the
keypad as the machine sees it: the key held down, and the key whose release a
waiting instruction expects.
-/

namespace ChipEight

abbrev Key := Nibble

/-- A key of a host keyboard that stands for a key of the machine. -/
structure HostKey where
  label : String
  scancode : Nat
  key : Key
  deriving DecidableEq, Repr

namespace HostKey

/-- The four by four block of keys under the left hand. -/
def layout : List HostKey :=
  [⟨"1", 18, 0x1⟩, ⟨"2", 19, 0x2⟩, ⟨"3", 20, 0x3⟩, ⟨"4", 21, 0xC⟩,
   ⟨"q", 12, 0x4⟩, ⟨"w", 13, 0x5⟩, ⟨"e", 14, 0x6⟩, ⟨"r", 15, 0xD⟩,
   ⟨"a", 0, 0x7⟩, ⟨"s", 1, 0x8⟩, ⟨"d", 2, 0x9⟩, ⟨"f", 3, 0xE⟩,
   ⟨"z", 6, 0xA⟩, ⟨"x", 7, 0x0⟩, ⟨"c", 8, 0xB⟩, ⟨"v", 9, 0xF⟩]

end HostKey

def Key.ofLabel? (label : String) : Option Key :=
  (HostKey.layout.find? fun h => h.label == label).map HostKey.key

def Key.ofScancode? (scancode : Nat) : Option Key :=
  (HostKey.layout.find? fun h => h.scancode == scancode).map HostKey.key

@[ext] structure Keypad where
  /-- The key that was pressed last and has not been let go. -/
  held : Option Key
  /-- The key whose release completes a wait. -/
  awaited : Option Key
  deriving DecidableEq, Repr

namespace Keypad

def idle : Keypad :=
  ⟨none, none⟩

/-- Press a key.  A host key outside the layout changes nothing. -/
def press (p : Keypad) : Option Key → Keypad
  | none => p
  | some k => { p with held := some k }

def release (p : Keypad) : Keypad :=
  { p with held := none }

def await (p : Keypad) (k : Key) : Keypad :=
  { p with awaited := some k }

def settle (p : Keypad) : Keypad :=
  { p with awaited := none }

def isDown (p : Keypad) (k : Key) : Bool :=
  p.held == some k

def isUp (p : Keypad) (k : Key) : Bool :=
  !p.isDown k

end Keypad

end ChipEight
