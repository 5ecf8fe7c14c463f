import ChipEight.Machine.Operation

/-!
What one instruction does, component by component.  Each component of the
machine is written by a few instructions only, and the function named after it
lists them; `machine_execute` and `answer_execute` say that these functions together
are the whole effect, faults included.  Facts about one component of a run are read
off its function and never open the executor again.
-/

namespace ChipEight.Machine

/-! ### The components after an instruction -/

/-- The bytes of the sprite that an instruction of this height draws, if it lies
in the memory. -/
def sprite? (m : Machine) (height : Nibble) : Option (List UInt8) :=
  (m.memory.fetchClamped m.index height).toOption

/-- The key that a wait would deliver: one that is awaited and no longer held. -/
def deliverable? (m : Machine) : Option Key :=
  m.keypad.awaited.filter m.keypad.isUp

def memoryAfter (m : Machine) : Instruction → Memory
  | .storeDecimal x =>
    (m.memory.store m.index (decimalDigits (m.registers.get x))).toOption.getD m.memory
  | .storeRegisters x =>
    (m.memory.store m.index (m.registers.upTo x)).toOption.getD m.memory
  | _ => m.memory

def registersAfter (m : Machine) : Instruction → Registers
  | .setConstant x constant => m.registers.set x constant
  | .addConstant x constant => m.registers.set x (m.registers.get x + constant)
  | .arith op x y => (m.executeArith op x y).registers
  | .random x mask => m.registers.set x (mask &&& m.random.byte)
  | .draw x y height =>
    ((m.sprite? height).map fun sprite => m.registers.setFlag
      (m.screen.draw (m.registers.get x).toNat (m.registers.get y).toNat sprite).2).getD
      m.registers
  | .readDelay x => m.registers.set x m.delay
  | .waitKey x =>
    (m.deliverable?.map fun k => m.registers.set x (UInt8.ofNat k)).getD m.registers
  | .loadRegisters x =>
    ((m.memory.fetch m.index (x + 1)).toOption.map m.registers.overwrite).getD m.registers
  | _ => m.registers

/-- The register I behind the last of `count` bytes, on machines that move it. -/
def indexBehind (m : Machine) (count : Nat) : Nat :=
  if m.settings.advanceIndex then m.index + count else m.index

def indexAfter (m : Machine) : Instruction → Nat
  | .setIndex target => target
  | .addIndex x => (m.index + (m.registers.get x).toNat) % 65536
  | .pointGlyph x => Glyph.address (Nibble.ofByte (m.registers.get x))
  | .storeRegisters x =>
    ((m.memory.store m.index (m.registers.upTo x)).toOption.map
      fun _ => m.indexBehind (x + 1)).getD m.index
  | .loadRegisters x =>
    ((m.memory.fetch m.index (x + 1)).toOption.map
      fun _ => m.indexBehind (x + 1)).getD m.index
  | _ => m.index

def skips (m : Machine) : Instruction → Bool
  | .skipIfEqual x constant => m.registers.get x == constant
  | .skipUnlessEqual x constant => m.registers.get x != constant
  | .skipIfSame x y => m.registers.get x == m.registers.get y
  | .skipUnlessSame x y => m.registers.get x != m.registers.get y
  | .skipIfKeyDown x => m.keypad.isDown (Nibble.ofByte (m.registers.get x))
  | .skipIfKeyUp x => m.keypad.isUp (Nibble.ofByte (m.registers.get x))
  | _ => false

def pcAfter (m : Machine) : Instruction → Nat
  | .ret => (m.stack.pop?.map fun top => top.1 + 2).getD m.pc
  | .jump target => target
  | .call target =>
    ((m.stack.push? m.currentAddress).map fun _ => (target : Nat)).getD m.pc
  | .jumpOffset base x =>
    base + (m.registers.get (if m.settings.jumpFromX then x else 0)).toNat
  | .waitKey _ => if m.deliverable?.isSome then m.pc else m.currentAddress
  | i => if m.skips i then m.pc + 2 else m.pc

def stackAfter (m : Machine) : Instruction → CallStack
  | .ret => (m.stack.pop?.map Prod.snd).getD m.stack
  | .call _ => (m.stack.push? m.currentAddress).getD m.stack
  | _ => m.stack

def delayAfter (m : Machine) : Instruction → UInt8
  | .setDelay x => m.registers.get x
  | _ => m.delay

def soundAfter (m : Machine) : Instruction → UInt8
  | .setSound x => m.registers.get x
  | _ => m.sound

def screenAfter (m : Machine) : Instruction → Screen
  | .clear => m.screen.clear
  | .draw x y height =>
    ((m.sprite? height).map fun sprite =>
      (m.screen.draw (m.registers.get x).toNat (m.registers.get y).toNat sprite).1).getD
      m.screen
  | _ => m.screen

/-- A wait notes the key that is held, unless it has noted one before. -/
def keypadAfter (m : Machine) : Instruction → Keypad
  | .waitKey _ =>
    if m.deliverable?.isSome then m.keypad.settle
    else { m.keypad with awaited := m.keypad.awaited.or m.keypad.held }
  | _ => m.keypad

def randomAfter (m : Machine) : Instruction → RandomSource
  | .random _ _ => m.random.advance
  | _ => m.random

/-- What an instruction answers: it fails if the stack has no room for a call or no
call for a return, if a range it reads or writes is refused, or if it is none. -/
def answerAfter (m : Machine) : Instruction → Except Fault Unit
  | .ret =>
    if m.stack.pop?.isSome then .ok () else .error (.stackUnderflow m.currentAddress)
  | .call _ =>
    if (m.stack.push? m.currentAddress).isSome then .ok ()
    else .error (.stackOverflow m.currentAddress)
  | .draw _ _ height => (m.memory.fetchClamped m.index height).map fun _ => ()
  | .storeDecimal x =>
    (m.memory.store m.index (decimalDigits (m.registers.get x))).map fun _ => ()
  | .storeRegisters x => (m.memory.store m.index (m.registers.upTo x)).map fun _ => ()
  | .loadRegisters x => (m.memory.fetch m.index (x + 1)).map fun _ => ()
  | .undefined w => .error (.undefinedWord w m.currentAddress)
  | _ => .ok ()

/-! ### The functions are the whole effect -/

theorem skipIf_eq (m : Machine) (condition : Bool) :
    m.skipIf condition = { m with pc := if condition then m.pc + 2 else m.pc } := by
  cases condition <;> rfl

theorem advanceIndex_eq (m : Machine) (count : Nat) :
    m.advanceIndex count = { m with index := m.indexBehind count } := by
  unfold advanceIndex indexBehind
  split <;> rfl

theorem executeArith_eq (m : Machine) (op : ArithOp) (x y : RegisterName) :
    m.executeArith op x y = { m with registers := (m.executeArith op x y).registers } := by
  unfold executeArith
  dsimp only
  split <;> rfl

theorem registers_executeArith_congr {m n : Machine} {op : ArithOp} {x y : RegisterName}
    (hregisters : m.registers = n.registers)
    (heval : op.eval m.settings (m.registers.get x) (m.registers.get y) =
      op.eval n.settings (n.registers.get x) (n.registers.get y)) :
    (m.executeArith op x y).registers = (n.executeArith op x y).registers := by
  unfold executeArith
  rw [heval, hregisters]
  dsimp only
  split <;> rfl

theorem executeWaitKey_eq (m : Machine) (x : RegisterName) :
    m.executeWaitKey x =
      { m with
        registers := m.registersAfter (.waitKey x)
        pc := m.pcAfter (.waitKey x)
        keypad := m.keypadAfter (.waitKey x) } := by
  obtain ⟨_, _, _, _, _, _, _, _, _, _, ⟨held, awaited⟩, _⟩ := m
  cases awaited with
  | some k =>
    cases hu : Keypad.isUp ⟨held, some k⟩ k with
    | true =>
      simp [executeWaitKey, registersAfter, pcAfter, keypadAfter, deliverable?,
        Option.filter, hu]
    | false =>
      simp [executeWaitKey, registersAfter, pcAfter, keypadAfter, deliverable?,
        Option.filter, hu, currentAddress]
  | none =>
    cases held <;> rfl

theorem machine_execute (m : Machine) (i : Instruction) :
    (m.execute i).machine =
      { m with
        memory := m.memoryAfter i
        registers := m.registersAfter i
        index := m.indexAfter i
        pc := m.pcAfter i
        stack := m.stackAfter i
        delay := m.delayAfter i
        sound := m.soundAfter i
        screen := m.screenAfter i
        keypad := m.keypadAfter i
        random := m.randomAfter i } := by
  cases i with
  | ret =>
    simp only [execute, executeReturn, pcAfter, stackAfter]
    cases m.stack.pop? <;> rfl
  | call target =>
    simp only [execute, executeCall, pcAfter, stackAfter]
    cases m.stack.push? m.currentAddress <;> rfl
  | arith op x y => exact executeArith_eq m op x y
  | draw x y height =>
    simp only [execute, executeDraw, registersAfter, screenAfter, sprite?]
    cases m.memory.fetchClamped m.index height <;> rfl
  | waitKey x => exact executeWaitKey_eq m x
  | storeDecimal x =>
    simp only [execute, storeAtIndex, memoryAfter]
    cases m.memory.store m.index (decimalDigits (m.registers.get x)) <;> rfl
  | storeRegisters x =>
    simp only [execute, executeStoreRegisters, memoryAfter, indexAfter, advanceIndex_eq]
    cases m.memory.store m.index (m.registers.upTo x) <;> rfl
  | loadRegisters x =>
    simp only [execute, executeLoadRegisters, registersAfter, indexAfter, advanceIndex_eq]
    cases m.memory.fetch m.index (x + 1) <;> rfl
  | skipIfEqual x constant => exact skipIf_eq m _
  | skipUnlessEqual x constant => exact skipIf_eq m _
  | skipIfSame x y => exact skipIf_eq m _
  | skipUnlessSame x y => exact skipIf_eq m _
  | skipIfKeyDown x => exact skipIf_eq m _
  | skipIfKeyUp x => exact skipIf_eq m _
  | _ => rfl

theorem answer_execute (m : Machine) (i : Instruction) :
    (m.execute i).answer = m.answerAfter i := by
  cases i with
  | ret =>
    simp only [execute, executeReturn, answerAfter]
    cases m.stack.pop? <;> rfl
  | call target =>
    simp only [execute, executeCall, answerAfter]
    cases m.stack.push? m.currentAddress <;> rfl
  | draw x y height =>
    simp only [execute, executeDraw, answerAfter]
    cases m.memory.fetchClamped m.index height <;> rfl
  | storeDecimal x =>
    simp only [execute, storeAtIndex, answerAfter]
    cases m.memory.store m.index (decimalDigits (m.registers.get x)) <;> rfl
  | storeRegisters x =>
    simp only [execute, executeStoreRegisters, answerAfter]
    cases m.memory.store m.index (m.registers.upTo x) <;> rfl
  | loadRegisters x =>
    simp only [execute, executeLoadRegisters, answerAfter]
    cases m.memory.fetch m.index (x + 1) <;> rfl
  | _ => rfl

@[simp] theorem currentAddress_passed (m : Machine) : m.passed.currentAddress = m.pc := rfl

end ChipEight.Machine
