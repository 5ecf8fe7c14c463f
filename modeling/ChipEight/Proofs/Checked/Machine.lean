import ChipEight.Proofs.Checked.Screen

/-!
The machine on words of fixed width.  Program counter, register I and return
addresses have 16 bits, sizes and places 64.  Every sum and every difference
must be a word, every place must lie inside the array or interval it is taken
from, and where an address is cut to 16 bits nothing may be lost; otherwise the
operation is `none`, a trap.  Checks and changes come in the order in which a
processor makes them, each change on the machine left by the one before.

Sums of bytes wrap around or saturate and have nothing to check, and a register
is named by a nibble, which is always a place in the register file.
-/

namespace ChipEight

open Checked

def Registers.first? (v : Registers) (count : Nat) : Option (List UInt8) :=
  if count ≤ 16 then some (v.cells.toList.take count) else none

def Registers.copy? (v : Registers) (count : Nat) (bytes : List UInt8) : Option Registers :=
  if count ≤ 16 ∧ bytes.length = count then some (v.overwrite bytes) else none

def CallStack.put? (s : CallStack) (k a : Nat) : Option CallStack :=
  if k < capacity then some { s with slots := s.slots.setIfInBounds k a } else none

namespace Machine

def currentAddress? (m : Machine) : Option Nat :=
  difference m.pc 2

def passed? (m : Machine) : Option Machine := do
  let pc ← sum short m.pc 2
  some { m with pc := pc }

def skipIf? (m : Machine) (condition : Bool) : Option Machine :=
  if condition then m.passed? else some m

def repeated? (m : Machine) : Option Machine := do
  let pc ← difference m.pc 2
  some { m with pc := pc }

def executeReturn? (m : Machine) : Option (Outcome Unit) :=
  if m.stack.depth = 0 then do
    let a ← m.currentAddress?
    some (m.fault (.stackUnderflow a))
  else do
    let depth ← difference m.stack.depth 1
    let a ← m.stack.slots[depth]?
    let pc ← sum short a 2
    some { m with stack := { m.stack with depth := depth }, pc := pc }.done

def executeCall? (m : Machine) (target : Address) : Option (Outcome Unit) := do
  let a ← m.currentAddress?
  if CallStack.capacity ≤ m.stack.depth then some (m.fault (.stackOverflow a))
  else
    let stack ← m.stack.put? m.stack.depth a
    let depth ← sum long m.stack.depth 1
    some { m with stack := { stack with depth := depth }, pc := target }.done

def executeDraw? (m : Machine) (x y : RegisterName) (height : Nibble) :
    Option (Outcome Unit) := do
  match ← m.memory.fetchClamped? m.index height with
  | .error f => some (m.fault f)
  | .ok sprite =>
    let drawn ←
      m.screen.draw? (m.registers.get x).toNat (m.registers.get y).toNat sprite
    some { m with screen := drawn.1, registers := m.registers.setFlag drawn.2 }.done

def executeWaitKey? (m : Machine) (x : RegisterName) : Option Machine :=
  match m.keypad.awaited with
  | some k =>
    if m.keypad.isUp k then
      some { m with
        registers := m.registers.set x (UInt8.ofNat k)
        keypad := m.keypad.settle }
    else m.repeated?
  | none =>
    match m.keypad.held with
    | some k => { m with keypad := m.keypad.await k }.repeated?
    | none => m.repeated?

def storeAtIndex? (m : Machine) (bytes : List UInt8) : Option (Outcome Unit) := do
  match ← m.memory.store? m.index bytes with
  | .error f => some (m.fault f)
  | .ok memory => some { m with memory := memory }.done

def advanceIndex? (m : Machine) (count : Nat) : Option Machine :=
  if m.settings.advanceIndex then do
    let step ← narrow short count
    let index ← sum short m.index step
    some { m with index := index }
  else some m

def executeStoreRegisters? (m : Machine) (x : RegisterName) : Option (Outcome Unit) := do
  let count ← sum long x 1
  let bytes ← m.registers.first? count
  match ← m.memory.store? m.index bytes with
  | .error f => some (m.fault f)
  | .ok memory =>
    let moved ← { m with memory := memory }.advanceIndex? count
    some moved.done

def executeLoadRegisters? (m : Machine) (x : RegisterName) : Option (Outcome Unit) := do
  let count ← sum long x 1
  match ← m.memory.fetch? m.index count with
  | .error f => some (m.fault f)
  | .ok bytes =>
    let registers ← m.registers.copy? count bytes
    let moved ← { m with registers := registers }.advanceIndex? count
    some moved.done

def execute? (m : Machine) : Instruction → Option (Outcome Unit)
  | .ret => m.executeReturn?
  | .call target => m.executeCall? target
  | .skipIfEqual x constant => (m.skipIf? (m.registers.get x == constant)).map done
  | .skipUnlessEqual x constant => (m.skipIf? (m.registers.get x != constant)).map done
  | .skipIfSame x y => (m.skipIf? (m.registers.get x == m.registers.get y)).map done
  | .skipUnlessSame x y => (m.skipIf? (m.registers.get x != m.registers.get y)).map done
  | .jumpOffset base x => do
    let added := m.registers.get (if m.settings.jumpFromX then x else 0)
    let pc ← sum short base added.toNat
    some { m with pc := pc }.done
  | .draw x y height => m.executeDraw? x y height
  | .skipIfKeyDown x =>
    (m.skipIf? (m.keypad.isDown (Nibble.ofByte (m.registers.get x)))).map done
  | .skipIfKeyUp x =>
    (m.skipIf? (m.keypad.isUp (Nibble.ofByte (m.registers.get x)))).map done
  | .waitKey x => (m.executeWaitKey? x).map done
  | .pointGlyph x => do
    let place ← narrow long (Glyph.address (Nibble.ofByte (m.registers.get x)))
    let index ← narrow short place
    some { m with index := index }.done
  | .storeDecimal x => m.storeAtIndex? (decimalDigits (m.registers.get x))
  | .storeRegisters x => m.executeStoreRegisters? x
  | .loadRegisters x => m.executeLoadRegisters? x
  | .undefined w => do
    let a ← m.currentAddress?
    some (m.fault (.undefinedWord w a))
  -- nothing to check: a jump takes its target as it is, the rest work on bytes
  | i => some (m.execute i)

def step? (m : Machine) : Option (Outcome Unit) := do
  match ← m.memory.word? m.pc with
  | .error f => some (m.fault f)
  | .ok w =>
    let next ← m.passed?
    next.execute? (Instruction.decode w)

def tick? (m : Machine) : Option (Outcome Unit) :=
  m.step?.map fun outcome => { outcome with machine := outcome.machine.countDown }

def load? (m : Machine) (image : List UInt8) (offset : Nat) : Option (Outcome Nat) := do
  match ← m.memory.load? offset image with
  | .error f => some ⟨m, .error f⟩
  | .ok memory =>
    let pc ← narrow short offset
    some ⟨{ m with memory := memory, pc := pc }, .ok image.length⟩

/-- Switch on: the glyphs are written into an empty memory, which might fail. -/
def fresh? (random : RandomSource) : Option (Except Fault Machine) := do
  match ← Memory.zero.write? 0 Glyph.font with
  | .error f => some (.error f)
  | .ok memory => some (.ok { fresh random with memory := memory })

def reset? (m : Machine) : Option (Outcome Unit) := do
  match ← Memory.zero.write? 0 Glyph.font with
  | .error f => some ({ m with memory := Memory.zero }.fault f)
  | .ok memory => some { powerOn m.settings m.random with memory := memory }.done

def perform? (m : Machine) : Operation → Option (Outcome Reply)
  | .load image offset =>
    (m.load? image offset).map fun outcome =>
      ⟨outcome.machine, outcome.answer.map .loaded⟩
  | .reset =>
    m.reset?.map fun outcome => ⟨outcome.machine, outcome.answer.map fun _ => .nothing⟩
  | .step =>
    m.step?.map fun outcome => ⟨outcome.machine, outcome.answer.map fun _ => .nothing⟩
  | .tick =>
    m.tick?.map fun outcome => ⟨outcome.machine, outcome.answer.map fun _ => .nothing⟩
  -- what is left changes settings, keys and flags
  | o => some (m.perform o)

end Machine

end ChipEight
