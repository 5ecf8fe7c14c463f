import ChipEight.Instruction.Arith
import ChipEight.Instruction.Decode
import ChipEight.Machine.Basic

/-!
How a machine runs: one instruction, and one tick, which is an instruction and
a count of the timers.  Each instruction acts on a machine whose program
counter already stands behind it.
-/

namespace ChipEight.Machine

/-- The address of the instruction that was just read. -/
def currentAddress (m : Machine) : Nat :=
  m.pc - 2

def fetch (m : Machine) : Except Fault UInt16 :=
  m.memory.word m.pc

/-- The machine behind the word at the program counter. -/
def passed (m : Machine) : Machine :=
  { m with pc := m.pc + 2 }

/-- Pass over the next word if a condition holds. -/
def skipIf (m : Machine) (condition : Bool) : Machine :=
  if condition then m.passed else m

def setRegister (m : Machine) (x : RegisterName) (b : UInt8) : Machine :=
  { m with registers := m.registers.set x b }

def executeReturn (m : Machine) : Outcome Unit :=
  match m.stack.pop? with
  | none => m.fault (.stackUnderflow m.currentAddress)
  -- the stack holds the address of the call itself
  | some (a, stack) => { m with stack := stack, pc := a + 2 }.done

def executeCall (m : Machine) (target : Address) : Outcome Unit :=
  match m.stack.push? m.currentAddress with
  | none => m.fault (.stackOverflow m.currentAddress)
  | some stack => { m with stack := stack, pc := target }.done

def executeArith (m : Machine) (op : ArithOp) (x y : RegisterName) : Machine :=
  let result := op.eval m.settings (m.registers.get x) (m.registers.get y)
  let registers := m.registers.set x result.1
  match result.2 with
  | none => { m with registers := registers }
  -- written last, so the flag wins where the result went to VF too
  | some flag => { m with registers := registers.setFlag flag }

def executeRandom (m : Machine) (x : RegisterName) (mask : UInt8) : Machine :=
  { m with
    registers := m.registers.set x (mask &&& m.random.byte)
    random := m.random.advance }

/-- Draw a sprite, as far as it lies inside the memory, and flag pixels that
were switched off. -/
def executeDraw (m : Machine) (x y : RegisterName) (height : Nibble) : Outcome Unit :=
  match m.memory.fetchClamped m.index height with
  | .error f => m.fault f
  | .ok sprite =>
    let drawn :=
      m.screen.draw (m.registers.get x).toNat (m.registers.get y).toNat sprite
    { m with screen := drawn.1, registers := m.registers.setFlag drawn.2 }.done

/-- Wait for a key.  A key held down is noted, and when it is let go the wait is
over; until then the instruction runs again and again. -/
def executeWaitKey (m : Machine) (x : RegisterName) : Machine :=
  match m.keypad.awaited with
  | some k =>
    -- pressing another key lets go of the awaited one
    if m.keypad.isUp k then
      { m with
        registers := m.registers.set x (UInt8.ofNat k)
        keypad := m.keypad.settle }
    else { m with pc := m.currentAddress }
  | none =>
    match m.keypad.held with
    | some k => { m with keypad := m.keypad.await k, pc := m.currentAddress }
    | none => { m with pc := m.currentAddress }

def storeAtIndex (m : Machine) (bytes : List UInt8) : Outcome Unit :=
  match m.memory.store m.index bytes with
  | .error f => m.fault f
  | .ok memory => { m with memory := memory }.done

def advanceIndex (m : Machine) (count : Nat) : Machine :=
  if m.settings.advanceIndex then { m with index := m.index + count } else m

def decimalDigits (b : UInt8) : List UInt8 :=
  [b / 100, b / 10 % 10, b % 10]

def executeStoreRegisters (m : Machine) (x : RegisterName) : Outcome Unit :=
  match m.memory.store m.index (m.registers.upTo x) with
  | .error f => m.fault f
  | .ok memory => ({ m with memory := memory }.advanceIndex (x + 1)).done

def executeLoadRegisters (m : Machine) (x : RegisterName) : Outcome Unit :=
  match m.memory.fetch m.index (x + 1) with
  | .error f => m.fault f
  | .ok bytes =>
    ({ m with registers := m.registers.overwrite bytes }.advanceIndex (x + 1)).done

def execute (m : Machine) : Instruction → Outcome Unit
  | .system _ => m.done
  | .clear => { m with screen := m.screen.clear }.done
  | .ret => m.executeReturn
  | .jump target => { m with pc := target }.done
  | .call target => m.executeCall target
  | .skipIfEqual x constant => (m.skipIf (m.registers.get x == constant)).done
  | .skipUnlessEqual x constant => (m.skipIf (m.registers.get x != constant)).done
  | .skipIfSame x y => (m.skipIf (m.registers.get x == m.registers.get y)).done
  | .setConstant x constant => (m.setRegister x constant).done
  | .addConstant x constant => (m.setRegister x (m.registers.get x + constant)).done
  | .arith op x y => (m.executeArith op x y).done
  | .skipUnlessSame x y => (m.skipIf (m.registers.get x != m.registers.get y)).done
  | .setIndex target => { m with index := target }.done
  | .jumpOffset base x =>
    let added := m.registers.get (if m.settings.jumpFromX then x else 0)
    { m with pc := base + added.toNat }.done
  | .random x mask => (m.executeRandom x mask).done
  | .draw x y height => m.executeDraw x y height
  | .skipIfKeyDown x =>
    (m.skipIf (m.keypad.isDown (Nibble.ofByte (m.registers.get x)))).done
  | .skipIfKeyUp x =>
    (m.skipIf (m.keypad.isUp (Nibble.ofByte (m.registers.get x)))).done
  | .readDelay x => (m.setRegister x m.delay).done
  | .waitKey x => (m.executeWaitKey x).done
  | .setDelay x => { m with delay := m.registers.get x }.done
  | .setSound x => { m with sound := m.registers.get x }.done
  | .addIndex x =>
    { m with index := (m.index + (m.registers.get x).toNat) % 65536 }.done
  | .pointGlyph x =>
    { m with index := Glyph.address (Nibble.ofByte (m.registers.get x)) }.done
  | .storeDecimal x => m.storeAtIndex (decimalDigits (m.registers.get x))
  | .storeRegisters x => m.executeStoreRegisters x
  | .loadRegisters x => m.executeLoadRegisters x
  | .undefined w => m.fault (.undefinedWord w m.currentAddress)

/-- Read the word at the program counter and run its instruction.  The timers
stand still. -/
def step (m : Machine) : Outcome Unit :=
  match m.fetch with
  | .error f => m.fault f
  | .ok w => m.passed.execute (Instruction.decode w)

def timerAfterTick (t : UInt8) : UInt8 :=
  if t = 0 then 0 else t - 1

/-- Count both timers down, unless they are stopped. -/
def countDown (m : Machine) : Machine :=
  if m.paused then m
  else { m with delay := timerAfterTick m.delay, sound := timerAfterTick m.sound }

/-- Run one instruction and count the timers down, even if it failed. -/
def tick (m : Machine) : Outcome Unit :=
  let outcome := m.step
  { outcome with machine := outcome.machine.countDown }

theorem keepsOnFault_done (m n : Machine) : n.done.KeepsOnFault m := by
  intro f h
  cases h

theorem keepsOnFault_fault (m : Machine) (f : Fault) : (m.fault f).KeepsOnFault m :=
  fun _ _ => rfl

theorem keepsOnFault_execute (m : Machine) (i : Instruction) :
    (m.execute i).KeepsOnFault m := by
  cases i with
  | ret =>
    simp only [execute, executeReturn]
    split
    · exact keepsOnFault_fault _ _
    · exact keepsOnFault_done _ _
  | call target =>
    simp only [execute, executeCall]
    split
    · exact keepsOnFault_fault _ _
    · exact keepsOnFault_done _ _
  | draw x y height =>
    simp only [execute, executeDraw]
    split
    · exact keepsOnFault_fault _ _
    · exact keepsOnFault_done _ _
  | storeDecimal x =>
    simp only [execute, storeAtIndex]
    split
    · exact keepsOnFault_fault _ _
    · exact keepsOnFault_done _ _
  | storeRegisters x =>
    simp only [execute, executeStoreRegisters]
    split
    · exact keepsOnFault_fault _ _
    · exact keepsOnFault_done _ _
  | loadRegisters x =>
    simp only [execute, executeLoadRegisters]
    split
    · exact keepsOnFault_fault _ _
    · exact keepsOnFault_done _ _
  | undefined w => exact keepsOnFault_fault _ _
  | _ => exact keepsOnFault_done _ _

end ChipEight.Machine
