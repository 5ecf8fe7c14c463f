import ChipEight.Proofs.Bounds

/-!
What an instruction may write.  A machine falls into parts, down to the single byte, register
and stack slot, and of each part it is known which instructions are its writers.  A step
leaves every part as it was of which the instruction it runs is no writer, also when it
fails; a step that finds no instruction leaves all parts as they were.
-/

namespace ChipEight

namespace ArithOp

def setsFlag (settings : Settings) : ArithOp → Bool
  | .copy | .or | .and => false
  | .xor => settings.xorSetsFlag
  | .add | .subtract | .shiftRight | .subtractFrom | .shiftLeft => true

theorem isSome_eval (settings : Settings) (op : ArithOp) (a b : UInt8) :
    (op.eval settings a b).2.isSome = op.setsFlag settings := by
  cases op with
  | xor =>
    rw [eval, setsFlag]
    cases settings.xorSetsFlag <;> rfl
  | _ => rfl

end ArithOp

namespace Machine

/-! ### Parts and their writers -/

/-- The parts of a machine, without the program counter. -/
inductive Part
  | byte (a : Nat)
  | register (r : RegisterName)
  | index
  | slot (k : Nat)
  | depth
  | delay
  | sound
  | paused
  | grid
  | dirty
  | held
  | awaited
  | random
  | settings

def Part.SameIn (m n : Machine) : Part → Prop
  | .byte a => m.memory.get a = n.memory.get a
  | .register r => m.registers.get r = n.registers.get r
  | .index => m.index = n.index
  | .slot k => m.stack.slots[k]? = n.stack.slots[k]?
  | .depth => m.stack.depth = n.stack.depth
  | .delay => m.delay = n.delay
  | .sound => m.sound = n.sound
  | .paused => m.paused = n.paused
  | .grid => m.screen.grid = n.screen.grid
  | .dirty => m.screen.dirty = n.screen.dirty
  | .held => m.keypad.held = n.keypad.held
  | .awaited => m.keypad.awaited = n.keypad.awaited
  | .random => m.random = n.random
  | .settings => m.settings = n.settings

/-- The instructions that may write a part of a machine. -/
def WrittenBy (m : Machine) : Part → Instruction → Prop
  | .byte a, .storeDecimal _ => m.index ≤ a ∧ a < m.index + 3
  | .byte a, .storeRegisters x => m.index ≤ a ∧ a < m.index + (x + 1)
  | .register r, .setConstant x _ | .register r, .addConstant x _ => r = x
  | .register r, .random x _ | .register r, .readDelay x => r = x
  | .register r, .arith op x _ =>
    r = x ∨ (r = Registers.flagName ∧ op.setsFlag m.settings = true)
  | .register r, .draw .. => r = Registers.flagName
  | .register r, .waitKey x => r = x ∧ m.deliverable?.isSome = true
  | .register r, .loadRegisters x => r ≤ x
  | .index, .setIndex _ | .index, .addIndex _ | .index, .pointGlyph _ => True
  | .index, .storeRegisters _ | .index, .loadRegisters _ => m.settings.advanceIndex = true
  | .slot k, .call _ => k = m.stack.depth
  | .depth, .call _ | .depth, .ret => True
  | .delay, .setDelay _ => True
  | .sound, .setSound _ => True
  | .grid, .clear | .grid, .draw .. => True
  | .dirty, .clear | .dirty, .draw .. => True
  | .awaited, .waitKey _ => True
  | .random, .random .. => True
  | _, _ => False

variable {m : Machine} {i : Instruction}

theorem eq_iff_sameIn (m n : Machine) : m = n ↔ m.pc = n.pc ∧ ∀ p : Part, p.SameIn m n := by
  constructor
  · rintro rfl
    refine ⟨rfl, fun p => ?_⟩
    cases p <;> rfl
  · rintro ⟨hpc, hparts⟩
    have hmemory : m.memory = n.memory := Memory.ext fun a _ => hparts (.byte a)
    have hregisters : m.registers = n.registers := Registers.ext fun r => hparts (.register r)
    have hslots : m.stack.slots = n.stack.slots := by
      apply Vector.ext
      intro k hk
      have hslot : m.stack.slots[k]? = n.stack.slots[k]? := hparts (.slot k)
      simpa [hk] using hslot
    have hstack : m.stack = n.stack := CallStack.ext hslots (hparts .depth)
    have hgrid : m.screen.grid = n.screen.grid := hparts .grid
    have hdirty : m.screen.dirty = n.screen.dirty := hparts .dirty
    have hscreen : m.screen = n.screen :=
      calc m.screen = ⟨m.screen.grid, m.screen.dirty⟩ := rfl
        _ = ⟨n.screen.grid, n.screen.dirty⟩ := by rw [hgrid, hdirty]
    have hkeypad : m.keypad = n.keypad := Keypad.ext (hparts .held) (hparts .awaited)
    exact Machine.ext (hparts .settings) hmemory hregisters (hparts .index) hpc hstack
      (hparts .delay) (hparts .sound) (hparts .paused) hscreen hkeypad (hparts .random)

/-! ### One part after an instruction -/

theorem get_store_of_outside {memory : Memory} {a q : Nat} {bytes : List UInt8}
    (h : ¬ (a ≤ q ∧ q < a + bytes.length)) :
    ((memory.store a bytes).toOption.getD memory).get q = memory.get q := by
  unfold Memory.store
  split
  · rfl
  · split
    · rfl
    · exact memory.get_overwrite_of_outside (by omega)

theorem byte_execute (m : Machine) (i : Instruction) (a : Nat) :
    m.memory.get a = (m.memoryAfter i).get a ∨ m.WrittenBy (.byte a) i := by
  cases i with
  | storeDecimal x =>
    by_cases h : m.index ≤ a ∧ a < m.index + 3
    · exact Or.inr h
    · exact Or.inl (get_store_of_outside h).symm
  | storeRegisters x =>
    by_cases h : m.index ≤ a ∧ a < m.index + (x + 1)
    · exact Or.inr h
    · rw [← Registers.length_upTo m.registers x] at h
      exact Or.inl (get_store_of_outside h).symm
  | _ => exact Or.inl rfl

theorem get_set_or_eq (v : Registers) (x r : RegisterName) (b : UInt8) :
    v.get r = (v.set x b).get r ∨ r = x := by
  by_cases h : r = x
  · exact Or.inr h
  · exact Or.inl (v.get_set_of_ne b (Ne.symm h)).symm

theorem register_arith (m : Machine) (op : ArithOp) (x y r : RegisterName) :
    m.registers.get r = (m.executeArith op x y).registers.get r ∨
      m.WrittenBy (.register r) (.arith op x y) := by
  have hflag := op.isSome_eval m.settings (m.registers.get x) (m.registers.get y)
  unfold executeArith
  dsimp only
  split
  · rcases get_set_or_eq m.registers x r _ with h | h
    · exact Or.inl h
    · exact Or.inr (Or.inl h)
  · rename_i flag hsome
    rw [hsome] at hflag
    rcases get_set_or_eq m.registers x r _ with h | h
    · rcases get_set_or_eq (m.registers.set x _) Registers.flagName r _ with h' | h'
      · exact Or.inl (h.trans h')
      · exact Or.inr (Or.inr ⟨h', hflag.symm⟩)
    · exact Or.inr (Or.inl h)

theorem register_execute (m : Machine) (i : Instruction) (r : RegisterName) :
    m.registers.get r = (m.registersAfter i).get r ∨ m.WrittenBy (.register r) i := by
  cases i with
  | setConstant x constant => exact get_set_or_eq _ x r _
  | addConstant x constant => exact get_set_or_eq _ x r _
  | random x mask => exact get_set_or_eq _ x r _
  | readDelay x => exact get_set_or_eq _ x r _
  | arith op x y => exact register_arith m op x y r
  | draw x y height =>
    rw [registersAfter]
    cases m.sprite? height with
    | none => exact Or.inl rfl
    | some sprite => exact get_set_or_eq _ Registers.flagName r _
  | waitKey x =>
    rw [registersAfter]
    cases hkey : m.deliverable? with
    | none => exact Or.inl rfl
    | some k =>
      rcases get_set_or_eq m.registers x r (UInt8.ofNat k) with h | h
      · exact Or.inl h
      · exact Or.inr ⟨h, Option.isSome_iff_exists.2 ⟨k, hkey⟩⟩
  | loadRegisters x =>
    rw [registersAfter]
    cases hfetch : m.memory.fetch m.index (x + 1) with
    | error f => exact Or.inl rfl
    | ok bytes =>
      by_cases h : r ≤ x
      · exact Or.inr h
      · left
        have hbehind : bytes.length ≤ r := by
          rw [length_of_fetch hfetch]
          exact Fin.not_le.1 h
        show m.registers.get r = (m.registers.overwrite bytes).get r
        rw [Registers.get_overwrite, List.getD_eq_getElem?_getD,
          List.getElem?_eq_none hbehind, Option.getD_none]
  | _ => exact Or.inl rfl

theorem index_execute (m : Machine) (i : Instruction) :
    m.index = m.indexAfter i ∨ m.WrittenBy .index i := by
  have hmoves (count : Nat) : m.index = m.indexBehind count ∨ m.settings.advanceIndex = true := by
    rw [indexBehind]
    cases m.settings.advanceIndex with
    | true => exact Or.inr rfl
    | false => exact Or.inl rfl
  cases i with
  | setIndex target => exact Or.inr trivial
  | addIndex x => exact Or.inr trivial
  | pointGlyph x => exact Or.inr trivial
  | storeRegisters x =>
    rw [indexAfter]
    cases m.memory.store m.index (m.registers.upTo x) with
    | error f => exact Or.inl rfl
    | ok stored => exact hmoves (x + 1)
  | loadRegisters x =>
    rw [indexAfter]
    cases m.memory.fetch m.index (x + 1) with
    | error f => exact Or.inl rfl
    | ok bytes => exact hmoves (x + 1)
  | _ => exact Or.inl rfl

theorem slot_execute (m : Machine) (i : Instruction) (k : Nat) :
    m.stack.slots[k]? = (m.stackAfter i).slots[k]? ∨ m.WrittenBy (.slot k) i := by
  cases i with
  | call target =>
    rw [stackAfter]
    cases hpush : m.stack.push? m.currentAddress with
    | none => exact Or.inl rfl
    | some stack =>
      obtain ⟨-, rfl⟩ := CallStack.push?_eq_some hpush
      by_cases h : k = m.stack.depth
      · exact Or.inr h
      · left
        show m.stack.slots[k]? = (m.stack.slots.setIfInBounds m.stack.depth _)[k]?
        rw [Vector.getElem?_setIfInBounds, if_neg (Ne.symm h)]
  | ret =>
    rw [stackAfter]
    cases hpop : m.stack.pop? with
    | none => exact Or.inl rfl
    | some top =>
      obtain ⟨-, -, heq⟩ := CallStack.pop?_eq_some hpop
      left
      show m.stack.slots[k]? = top.2.slots[k]?
      rw [heq]
  | _ => exact Or.inl rfl

/-- An instruction leaves a part as it was unless it is one of its writers. -/
theorem part_execute (m : Machine) (i : Instruction) (p : Part) :
    p.SameIn m (m.execute i).machine ∨ m.WrittenBy p i := by
  rw [machine_execute]
  cases p with
  | byte a => exact byte_execute m i a
  | register r => exact register_execute m i r
  | index => exact index_execute m i
  | slot k => exact slot_execute m i k
  | depth =>
    cases i with
    | call target => exact Or.inr trivial
    | ret => exact Or.inr trivial
    | _ => exact Or.inl rfl
  | delay =>
    cases i with
    | setDelay x => exact Or.inr trivial
    | _ => exact Or.inl rfl
  | sound =>
    cases i with
    | setSound x => exact Or.inr trivial
    | _ => exact Or.inl rfl
  | grid =>
    cases i with
    | clear => exact Or.inr trivial
    | draw x y height => exact Or.inr trivial
    | _ => exact Or.inl rfl
  | dirty =>
    cases i with
    | clear => exact Or.inr trivial
    | draw x y height => exact Or.inr trivial
    | _ => exact Or.inl rfl
  | awaited =>
    cases i with
    | waitKey x => exact Or.inr trivial
    | _ => exact Or.inl rfl
  | held =>
    cases i with
    | waitKey x =>
      left
      show m.keypad.held = (m.keypadAfter (.waitKey x)).held
      rw [keypadAfter]
      split <;> rfl
    | _ => exact Or.inl rfl
  | random =>
    cases i with
    | random x mask => exact Or.inr trivial
    | _ => exact Or.inl rfl
  | paused => exact Or.inl rfl
  | settings => exact Or.inl rfl

/-- A step, successful or not, leaves each part of the machine as it was unless the
instruction it runs is a writer of the part.  The parts and the program counter are all
there is to a machine. -/
theorem sameIn_step_or_writtenBy (m : Machine) :
    (∀ p : Part, p.SameIn m m.step.machine ∨
      ∃ i, m.current? = some i ∧ m.WrittenBy p i) ∧
    ∀ n, m = n ↔ m.pc = n.pc ∧ ∀ p : Part, p.SameIn m n := by
  refine ⟨fun p => ?_, eq_iff_sameIn m⟩
  rcases m.machine_step_cases with heq | ⟨i, hcurrent, heq⟩
  · rw [heq]
    exact Or.inl (((eq_iff_sameIn m m).1 rfl).2 p)
  · rw [heq]
    -- the parts of the machine behind the word are those of the machine before it
    have hpassed : p.SameIn m (m.passed.execute i).machine ∨ m.WrittenBy p i :=
      part_execute m.passed i p
    rcases hpassed with h | h
    · exact Or.inl h
    · exact Or.inr ⟨i, hcurrent, h⟩

end Machine

end ChipEight
