import ChipEight.Proofs.Checked.Machine

/-!
No machine that a host can bring about ever traps.  In the middle of a step the
bounds of `Machine.Underway` make every sum a word and every place a place of
its array, one instruction after the other for a different reason; so the
checked machine does what the machine on exact numbers does.
-/

namespace ChipEight

open Checked

theorem Registers.first?_eq (v : Registers) (x : RegisterName) :
    v.first? (x + 1) = some (v.upTo x) := by
  rw [first?, if_pos (by omega), upTo]

theorem Registers.copy?_eq (v : Registers) (x : RegisterName) {bytes : List UInt8}
    (h : bytes.length = x + 1) : v.copy? (x + 1) bytes = some (v.overwrite bytes) := by
  rw [copy?, if_pos ⟨by omega, h⟩]

namespace Machine

variable {m : Machine}

/-! ### One instruction -/

theorem Underway.pc_add_two_lt (h : m.Underway) : m.pc + 2 < short :=
  Nat.lt_of_le_of_lt (Nat.add_le_add_right h.pc_le 2) (by decide)

theorem Underway.index_add_lt (h : m.Underway) {length : Nat} (hlength : length ≤ 16) :
    m.index + length < long :=
  Nat.lt_trans (Nat.add_lt_add_of_lt_of_le h.index_lt hlength) (by decide)

theorem Underway.currentAddress?_eq (h : m.Underway) :
    m.currentAddress? = some m.currentAddress :=
  difference_eq h.two_le_pc

theorem Underway.repeated?_eq (h : m.Underway) :
    m.repeated? = some { m with pc := m.currentAddress } := by
  simp only [repeated?, difference_eq h.two_le_pc, Option.bind_eq_bind, Option.bind_some,
    currentAddress]

theorem passed?_eq (h : m.pc + 2 < short) : m.passed? = some m.passed := by
  simp only [passed?, sum_eq h, Option.bind_eq_bind, Option.bind_some, passed]

theorem Underway.skipIf?_eq (h : m.Underway) (condition : Bool) :
    m.skipIf? condition = some (m.skipIf condition) := by
  cases condition with
  | true => exact passed?_eq h.pc_add_two_lt
  | false => rfl

theorem Underway.executeReturn?_eq (h : m.Underway) :
    m.executeReturn? = some m.executeReturn := by
  unfold executeReturn? executeReturn
  by_cases hempty : m.stack.depth = 0
  · have hnone : m.stack.pop? = none := by rw [CallStack.pop?, if_pos hempty]
    simp only [if_pos hempty, h.currentAddress?_eq, hnone, Option.bind_eq_bind,
      Option.bind_some]
  · have hpop : m.stack.pop? =
        some (m.stack.slots[m.stack.depth - 1]?.getD 0,
          { m.stack with depth := m.stack.depth - 1 }) := by
      rw [CallStack.pop?, if_neg hempty]
    have htop := (h.stack.pop hpop).1
    have hslot : m.stack.depth - 1 < 16 :=
      Nat.lt_of_lt_of_le (Nat.sub_one_lt hempty) h.stack.depth_le
    have hroom : m.stack.slots[m.stack.depth - 1]?.getD 0 + 2 < short :=
      Nat.lt_of_le_of_lt (Nat.add_le_add_right htop 2) (by decide)
    rw [Vector.getElem?_eq_getElem hslot, Option.getD_some] at hroom hpop
    simp only [if_neg hempty, difference_eq (Nat.one_le_iff_ne_zero.2 hempty), hpop,
      Vector.getElem?_eq_getElem hslot, sum_eq hroom, Option.bind_eq_bind, Option.bind_some]

theorem Underway.executeCall?_eq (h : m.Underway) (target : Address) :
    m.executeCall? target = some (m.executeCall target) := by
  unfold executeCall? executeCall CallStack.push?
  simp only [h.currentAddress?_eq, Option.bind_eq_bind, Option.bind_some]
  by_cases hfree : m.stack.depth < CallStack.capacity
  · have hdepth : m.stack.depth + 1 < long :=
      Nat.lt_of_le_of_lt (Nat.succ_le_of_lt hfree) (by decide)
    simp only [if_neg (Nat.not_le_of_lt hfree), if_pos hfree, CallStack.put?, sum_eq hdepth,
      Option.bind_some]
  · simp only [if_pos (Nat.le_of_not_lt hfree), if_neg hfree]

theorem length_fetchClamped_le {memory : Memory} {a length : Nat} {bytes : List UInt8}
    (h : memory.fetchClamped a length = .ok bytes) : bytes.length ≤ length := by
  unfold Memory.fetchClamped at h
  split at h
  · rw [← Except.ok.inj h, Memory.length_window]
    exact Nat.min_le_left _ _
  · cases h

theorem Underway.executeDraw?_eq (h : m.Underway) (x y : RegisterName) (height : Nibble) :
    m.executeDraw? x y height = some (m.executeDraw x y height) := by
  have hheight : (height : Nat) ≤ 16 := Nat.le_of_lt height.isLt
  unfold executeDraw? executeDraw
  rw [Memory.fetchClamped?_eq _ (h.index_add_lt hheight)]
  simp only [Option.bind_eq_bind, Option.bind_some]
  cases hsprite : m.memory.fetchClamped m.index height with
  | error f => rfl
  | ok sprite =>
    have hrows := length_fetchClamped_le hsprite
    have hx := (m.registers.get x).toNat_lt
    have hy := (m.registers.get y).toNat_lt
    have hcolumns : (m.registers.get x).toNat + 8 ≤ long :=
      Nat.le_trans (Nat.add_le_add_right (Nat.le_of_lt hx) 8) (by decide)
    have hlines : (m.registers.get y).toNat + sprite.length ≤ long :=
      Nat.le_trans (Nat.add_le_add (Nat.le_of_lt hy) (Nat.le_trans hrows hheight)) (by decide)
    simp only [Screen.draw?_eq m.screen hcolumns hlines, Option.bind_some]

theorem Underway.executeWaitKey?_eq (h : m.Underway) (x : RegisterName) :
    m.executeWaitKey? x = some (m.executeWaitKey x) := by
  unfold executeWaitKey? executeWaitKey
  cases m.keypad.awaited with
  | some k =>
    by_cases hup : m.keypad.isUp k = true
    · simp only [if_pos hup]
    · simp only [if_neg hup, h.repeated?_eq]
  | none =>
    cases m.keypad.held with
    | some k =>
      have hnoted : { m with keypad := m.keypad.await k }.Underway :=
        ⟨h.two_le_pc, h.pc_le, h.index_lt, h.stack⟩
      exact hnoted.repeated?_eq
    | none => exact h.repeated?_eq

theorem Underway.storeAtIndex?_eq (h : m.Underway) {bytes : List UInt8}
    (hlength : bytes.length ≤ 16) : m.storeAtIndex? bytes = some (m.storeAtIndex bytes) := by
  unfold storeAtIndex? storeAtIndex
  rw [Memory.store?_eq _ (h.index_add_lt hlength)]
  simp only [Option.bind_eq_bind, Option.bind_some]
  cases m.memory.store m.index bytes <;> rfl

theorem advanceIndex?_eq {x : RegisterName} (h : m.index + (x + 1) ≤ Memory.size) :
    m.advanceIndex? (x + 1) = some (m.advanceIndex (x + 1)) := by
  have hcount : (x : Nat) + 1 < short := Nat.lt_of_le_of_lt x.isLt (by decide)
  have hindex : m.index + (x + 1) < short := Nat.lt_of_le_of_lt h (by decide)
  unfold advanceIndex? advanceIndex
  split
  · simp only [narrow_eq hcount, sum_eq hindex, Option.bind_eq_bind, Option.bind_some]
  · rfl

theorem sum_register_eq (x : RegisterName) : sum long x 1 = some ((x : Nat) + 1) :=
  sum_eq (Nat.lt_of_le_of_lt x.isLt (by decide))

theorem Underway.executeStoreRegisters?_eq (h : m.Underway) (x : RegisterName) :
    m.executeStoreRegisters? x = some (m.executeStoreRegisters x) := by
  have hlength : (m.registers.upTo x).length ≤ 16 := by
    rw [Registers.length_upTo]
    omega
  unfold executeStoreRegisters? executeStoreRegisters
  simp only [sum_register_eq, Registers.first?_eq, Memory.store?_eq _ (h.index_add_lt hlength),
    Option.bind_eq_bind, Option.bind_some]
  cases hstore : m.memory.store m.index (m.registers.upTo x) with
  | error f => rfl
  | ok memory =>
    have hinside := le_size_of_store hstore
    rw [Registers.length_upTo] at hinside
    have hmoved := advanceIndex?_eq (m := { m with memory := memory }) hinside
    simp only [hmoved, Option.bind_some]

theorem Underway.executeLoadRegisters?_eq (h : m.Underway) (x : RegisterName) :
    m.executeLoadRegisters? x = some (m.executeLoadRegisters x) := by
  have hlength : (x : Nat) + 1 ≤ 16 := x.isLt
  unfold executeLoadRegisters? executeLoadRegisters
  simp only [sum_register_eq, Memory.fetch?_eq _ (h.index_add_lt hlength),
    Option.bind_eq_bind, Option.bind_some]
  cases hfetch : m.memory.fetch m.index (x + 1) with
  | error f => rfl
  | ok bytes =>
    have hregisters := m.registers.copy?_eq x (length_of_fetch hfetch)
    have hmoved := advanceIndex?_eq
      (m := { m with registers := m.registers.overwrite bytes }) (le_size_of_fetch hfetch)
    simp only [hregisters, hmoved, Option.bind_some]

/-- No instruction traps on a machine that has just read it. -/
theorem Underway.execute?_eq (h : m.Underway) (i : Instruction) :
    m.execute? i = some (m.execute i) := by
  cases i with
  | ret => exact h.executeReturn?_eq
  | call target => exact h.executeCall?_eq target
  | jumpOffset base x =>
    have hbase := base.isLt
    have hbyte := (m.registers.get (if m.settings.jumpFromX then x else 0)).toNat_lt
    have hpc : (base : Nat) +
        (m.registers.get (if m.settings.jumpFromX then x else 0)).toNat < short :=
      Nat.lt_trans (Nat.add_lt_add hbase hbyte) (by decide)
    simp only [execute?, Machine.execute, sum_eq hpc, Option.bind_eq_bind, Option.bind_some]
  | draw x y height => exact h.executeDraw?_eq x y height
  | waitKey x => rw [execute?, h.executeWaitKey?_eq, Option.map_some, Machine.execute]
  | pointGlyph x =>
    have hdigit := (Nibble.ofByte (m.registers.get x)).isLt
    have hplace : Glyph.address (Nibble.ofByte (m.registers.get x)) < short := by
      change 5 * _ < 2 ^ 16
      omega
    have hlong : Glyph.address (Nibble.ofByte (m.registers.get x)) < long :=
      Nat.lt_trans hplace (by decide)
    simp only [execute?, Machine.execute, narrow_eq hlong, narrow_eq hplace, Option.bind_eq_bind,
      Option.bind_some]
  | storeDecimal x => exact h.storeAtIndex?_eq (show 3 ≤ 16 by decide)
  | storeRegisters x => exact h.executeStoreRegisters?_eq x
  | loadRegisters x => exact h.executeLoadRegisters?_eq x
  | undefined w =>
    simp only [execute?, Machine.execute, h.currentAddress?_eq, Option.bind_eq_bind, Option.bind_some]
  | skipIfEqual x constant => rw [execute?, h.skipIf?_eq, Option.map_some, Machine.execute]
  | skipUnlessEqual x constant => rw [execute?, h.skipIf?_eq, Option.map_some, Machine.execute]
  | skipIfSame x y => rw [execute?, h.skipIf?_eq, Option.map_some, Machine.execute]
  | skipUnlessSame x y => rw [execute?, h.skipIf?_eq, Option.map_some, Machine.execute]
  | skipIfKeyDown x => rw [execute?, h.skipIf?_eq, Option.map_some, Machine.execute]
  | skipIfKeyUp x => rw [execute?, h.skipIf?_eq, Option.map_some, Machine.execute]
  | _ => rfl

/-! ### Operations -/

theorem InBounds.step?_eq (h : m.InBounds) : m.step? = some m.step := by
  unfold step? Machine.step
  rw [Memory.word?_eq]
  simp only [Option.bind_eq_bind, Option.bind_some]
  have hfetch : m.memory.word m.pc = m.fetch := rfl
  rw [hfetch]
  cases hword : m.fetch with
  | error f => rfl
  | ok w =>
    have hinside := pc_lt_of_fetch hword
    have hunderway := h.passed hinside
    have hpc : m.pc + 2 < short := Nat.lt_of_le_of_lt hunderway.pc_le (by decide)
    simp only [passed?_eq hpc, Option.bind_some, hunderway.execute?_eq (Instruction.decode w)]

theorem load?_eq (m : Machine) (image : List UInt8) (offset : Nat) :
    m.load? image offset = some (m.load image offset) := by
  unfold load? load
  rw [Memory.load?_eq]
  simp only [Option.bind_eq_bind, Option.bind_some]
  cases hload : m.memory.load offset image with
  | error f => rfl
  | ok memory =>
    have hinside : offset ≤ Memory.size := Nat.le_of_add_right_le (le_size_of_load hload)
    have hoffset : offset < short := Nat.lt_of_le_of_lt hinside (by decide)
    simp only [narrow_eq hoffset, Option.bind_some]

theorem write?_font :
    Memory.zero.write? 0 Glyph.font = some (.ok Glyph.bareMemory) := by
  have hfits : ¬ Memory.size < 0 + Glyph.font.length := by decide
  rw [Memory.write?_eq, if_neg hfits, Glyph.bareMemory]

theorem fresh?_eq (random : RandomSource) : fresh? random = some (.ok (fresh random)) := by
  simp only [fresh?, write?_font, Option.bind_eq_bind, Option.bind_some]
  rfl

theorem reset?_eq (m : Machine) : m.reset? = some ⟨m.reset, .ok ()⟩ := by
  simp only [reset?, write?_font, Option.bind_eq_bind, Option.bind_some]
  simp only [done, reset, powerOn]

theorem InBounds.perform?_eq (h : m.InBounds) (o : Operation) :
    m.perform? o = some (m.perform o) := by
  cases o with
  | load image offset => rw [perform?, load?_eq, Option.map_some, Machine.perform]
  | reset => rw [perform?, reset?_eq, Option.map_some, Machine.perform]; rfl
  | step => rw [perform?, h.step?_eq, Option.map_some, Machine.perform]
  | tick => rw [perform?, tick?, h.step?_eq, Option.map_some, Option.map_some, Machine.perform, tick]
  | _ => rfl

/-- Switching on never fails, and after any operations of a host no operation
traps: it does what it does on exact numbers.  Among the operations are loads of
any bytes to any offset, and a reset always succeeds. -/
theorem never_traps (random : RandomSource) (operations : List Operation) (next : Operation) :
    fresh? random = some (.ok (fresh random)) ∧
      ((fresh random).performAll operations).perform? next =
        some (((fresh random).performAll operations).perform next) ∧
      ((fresh random).performAll operations).reset? =
        some ⟨((fresh random).performAll operations).reset, .ok ()⟩ :=
  ⟨fresh?_eq random, (inBounds_performAll random operations).perform?_eq next, reset?_eq _⟩

end Machine

end ChipEight
