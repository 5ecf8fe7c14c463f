import ChipEight.Glyph
import ChipEight.Keypad
import ChipEight.Random.Source
import ChipEight.Registers
import ChipEight.Screen.Basic
import ChipEight.Settings

/-!
The state of a machine, how it starts, and what the host does to it between
instructions.  Addresses are exact natural numbers.
-/

namespace ChipEight

/-- The return addresses of open calls.  Slots at and above `depth` are free and
keep what was last put there. -/
@[ext] structure CallStack where
  slots : Vector Nat 16
  depth : Nat
  deriving DecidableEq, Repr

namespace CallStack

def capacity : Nat := 16

def empty : CallStack :=
  ⟨Vector.replicate 16 0, 0⟩

/-- Open a call from an address, if a slot is free. -/
def push? (s : CallStack) (a : Nat) : Option CallStack :=
  if s.depth < capacity then
    some ⟨s.slots.setIfInBounds s.depth a, s.depth + 1⟩
  else none

/-- Close the last call and give the address it came from, if one is open. -/
def pop? (s : CallStack) : Option (Nat × CallStack) :=
  if s.depth = 0 then none
  else some (s.slots[s.depth - 1]?.getD 0, { s with depth := s.depth - 1 })

theorem push?_eq_some {s t : CallStack} {a : Nat} (h : s.push? a = some t) :
    s.depth < 16 ∧ t = ⟨s.slots.setIfInBounds s.depth a, s.depth + 1⟩ := by
  unfold push? at h
  split at h
  · rename_i hfree
    exact ⟨hfree, (Option.some.inj h).symm⟩
  · cases h

theorem pop?_eq_some {s t : CallStack} {a : Nat} (h : s.pop? = some (a, t)) :
    0 < s.depth ∧ s.slots[s.depth - 1]?.getD 0 = a ∧ t = { s with depth := s.depth - 1 } := by
  unfold pop? at h
  split at h
  · cases h
  · rename_i hopen
    obtain ⟨ha, ht⟩ := Prod.mk.inj (Option.some.inj h)
    exact ⟨Nat.pos_of_ne_zero hopen, ha, ht.symm⟩

end CallStack

@[ext] structure Machine where
  settings : Settings
  memory : Memory
  registers : Registers
  /-- The register I, which points into memory. -/
  index : Nat
  /-- The address of the next instruction. -/
  pc : Nat
  stack : CallStack
  delay : UInt8
  sound : UInt8
  /-- Whether the timers stand still. -/
  paused : Bool
  screen : Screen
  keypad : Keypad
  random : RandomSource

/-- The machine after an operation, and what the operation answered.  A fault
does not take the machine away. -/
structure Outcome (α : Type) where
  machine : Machine
  answer : Except Fault α

/-- If the operation failed, the machine is the given one. -/
def Outcome.KeepsOnFault {α : Type} (o : Outcome α) (m : Machine) : Prop :=
  ∀ f, o.answer = .error f → o.machine = m

namespace Machine

def powerOn (settings : Settings) (random : RandomSource) : Machine where
  settings := settings
  memory := Glyph.bareMemory
  registers := Registers.zero
  index := 0
  pc := Memory.programBase
  stack := CallStack.empty
  delay := 0
  sound := 0
  paused := false
  screen := Screen.blank
  keypad := Keypad.idle
  random := random

def fresh (random : RandomSource) : Machine :=
  powerOn Settings.usual random

/-- Switch off and on again.  The settings stay, and the random source goes on
where it was. -/
def reset (m : Machine) : Machine :=
  powerOn m.settings m.random

def done (m : Machine) : Outcome Unit :=
  ⟨m, .ok ()⟩

def fault (m : Machine) (f : Fault) : Outcome Unit :=
  ⟨m, .error f⟩

/-- Put a program image into memory and go to its start.  The answer is the
number of its bytes. -/
def load (m : Machine) (image : List UInt8) (offset : Nat) : Outcome Nat :=
  match m.memory.load offset image with
  | .error f => ⟨m, .error f⟩
  | .ok memory => ⟨{ m with memory := memory, pc := offset }, .ok image.length⟩

def pause (m : Machine) : Machine :=
  { m with paused := true }

def resume (m : Machine) : Machine :=
  { m with paused := false }

def press (m : Machine) (k : Option Key) : Machine :=
  { m with keypad := m.keypad.press k }

def release (m : Machine) : Machine :=
  { m with keypad := m.keypad.release }

def isSounding (m : Machine) : Bool :=
  0 < m.sound

def frame (m : Machine) : Grid :=
  m.screen.grid

def shown (m : Machine) : Machine :=
  { m with screen := m.screen.shown }

def configure (m : Machine) (s : Setting) (on : Bool) : Machine :=
  { m with settings := m.settings.set s on }

/-- Draw random words from another source from now on. -/
def drawFrom (m : Machine) (source : RandomSource) : Machine :=
  { m with random := source }

end Machine

end ChipEight
