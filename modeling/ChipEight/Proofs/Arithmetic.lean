import ChipEight.Proofs.Faults

/-!
The operations between registers as arithmetic on numbers.  An instruction reads both
operands, and what its result comes to, before it writes anything; then it puts the result
into VX and after it the flag, where the operation has one, into VF.  So it does not matter
whether VX and VY are the same register, or one of them is VF: `arith_step` is the same
equation in all cases, and where VX is VF the flag stays.
-/

namespace ChipEight

namespace ArithOp

/-- What an operation comes to on numbers below 256, `a` in VX and `b` in VY: the number for
VX, and the flag where there is one. -/
def onNumbers (settings : Settings) (op : ArithOp) (a b : Nat) : Nat × Option Bool :=
  let s := if settings.shiftFromY then b else a
  match op with
  | .copy => (b, none)
  | .or => (a ||| b, none)
  | .and => (a &&& b, none)
  | .xor => (a ^^^ b, if settings.xorSetsFlag then some (a &&& b ≠ 0) else none)
  | .add => ((a + b) % 256, some (255 < a + b))
  | .subtract => (((a - b : Int) % 256).toNat, some (b ≤ a))
  | .shiftRight => (s / 2, some (s % 2 = 1))
  | .subtractFrom => (((b - a : Int) % 256).toNat, some (a ≤ b))
  | .shiftLeft => (2 * s % 256, some (128 ≤ s))

/-! ### Bytes as numbers -/

theorem toNat_sub_eq (a b : UInt8) :
    (a - b).toNat = ((a.toNat - b.toNat : Int) % 256).toNat := by
  have ha := a.toNat_lt
  have hb := b.toNat_lt
  rw [UInt8.toNat_sub]
  omega

theorem toNat_shiftRight_one (s : UInt8) : (s >>> 1).toNat = s.toNat / 2 := by
  rw [UInt8.toNat_shiftRight]
  exact Nat.shiftRight_eq_div_pow _ 1

theorem toNat_shiftLeft_one (s : UInt8) : (s <<< 1).toNat = 2 * s.toNat % 256 := by
  rw [UInt8.toNat_shiftLeft, Nat.mul_comm]
  exact congrArg (· % 256) (Nat.shiftLeft_eq _ 1)

theorem and_one_beq_one (s : UInt8) : (s &&& 1 == 1) = decide (s.toNat % 2 = 1) := by
  rw [Bool.eq_iff_iff, beq_iff_eq, decide_eq_true_iff, ← UInt8.toNat_inj, UInt8.toNat_and]
  rw [← Nat.and_one_is_mod]
  rfl

theorem xor_eq_or_iff (a b : Nat) : a ^^^ b = a ||| b ↔ a &&& b = 0 := by
  have hbit (i : Nat) : (a ^^^ b).testBit i = (a ||| b).testBit i ↔
      (a &&& b).testBit i = (0 : Nat).testBit i := by
    rw [Nat.testBit_xor, Nat.testBit_or, Nat.testBit_and, Nat.zero_testBit]
    cases a.testBit i <;> cases b.testBit i <;> decide
  constructor
  · intro h
    exact Nat.eq_of_testBit_eq fun i => (hbit i).1 (congrArg (Nat.testBit · i) h)
  · intro h
    exact Nat.eq_of_testBit_eq fun i => (hbit i).2 (congrArg (Nat.testBit · i) h)

theorem xor_bne_or (a b : UInt8) :
    (a ^^^ b != a ||| b) = decide (a.toNat &&& b.toNat ≠ 0) := by
  rw [Bool.eq_iff_iff, bne_iff_ne, decide_eq_true_iff, ne_eq, ne_eq, ← UInt8.toNat_inj,
    UInt8.toNat_xor, UInt8.toNat_or, xor_eq_or_iff]

theorem eval_eq_onNumbers (settings : Settings) (op : ArithOp) (a b : UInt8) :
    (op.eval settings a b).1.toNat = (op.onNumbers settings a.toNat b.toNat).1 ∧
      (op.eval settings a b).2 = (op.onNumbers settings a.toNat b.toNat).2 := by
  have hshifted : (if settings.shiftFromY then b else a).toNat =
      if settings.shiftFromY then b.toNat else a.toNat := apply_ite UInt8.toNat _ _ _
  cases op with
  | copy => exact ⟨rfl, rfl⟩
  | or => exact ⟨UInt8.toNat_or a b, rfl⟩
  | and => exact ⟨UInt8.toNat_and a b, rfl⟩
  | xor =>
    refine ⟨UInt8.toNat_xor a b, ?_⟩
    rw [eval, onNumbers, xor_bne_or]
  | add => exact ⟨UInt8.toNat_add a b, rfl⟩
  | subtract => exact ⟨toNat_sub_eq a b, rfl⟩
  | shiftRight =>
    simp only [eval, onNumbers, ← hshifted]
    exact ⟨toNat_shiftRight_one _, congrArg some (and_one_beq_one _)⟩
  | subtractFrom => exact ⟨toNat_sub_eq b a, rfl⟩
  | shiftLeft =>
    simp only [eval, onNumbers, ← hshifted]
    exact ⟨toNat_shiftLeft_one _, rfl⟩

end ArithOp

namespace Machine

/-- What an operation between VX and VY comes to on a machine. -/
def combined (m : Machine) (op : ArithOp) (x y : RegisterName) : Nat × Option Bool :=
  op.onNumbers m.settings (m.registers.get x).toNat (m.registers.get y).toNat

theorem get_executeArith (m : Machine) (op : ArithOp) (x y r : RegisterName) :
    ((m.executeArith op x y).registers.get r).toNat =
      if r = Registers.flagName ∧ (m.combined op x y).2.isSome then
        ((m.combined op x y).2.getD false).toNat
      else if r = x then (m.combined op x y).1
      else (m.registers.get r).toNat := by
  obtain ⟨hnumber, hflag⟩ :=
    op.eval_eq_onNumbers m.settings (m.registers.get x) (m.registers.get y)
  rw [combined, ← hnumber, ← hflag, executeArith]
  generalize op.eval m.settings (m.registers.get x) (m.registers.get y) = outcome
  obtain ⟨result, flag⟩ := outcome
  have hresult : ((m.registers.set x result).get r).toNat =
      if r = x then result.toNat else (m.registers.get r).toNat := by
    by_cases hx : r = x
    · rw [hx, Registers.get_set_self, if_pos rfl]
    · rw [Registers.get_set_of_ne _ _ (Ne.symm hx), if_neg hx]
  cases flag with
  | none =>
    rw [if_neg fun h => Bool.false_ne_true h.2]
    exact hresult
  | some on =>
    by_cases hr : r = Registers.flagName
    · have hput : ((m.registers.set x result).setFlag on).get r = if on then 1 else 0 :=
        hr ▸ Registers.flag_setFlag _ on
      rw [if_pos ⟨hr, rfl⟩, hput]
      cases on <;> rfl
    · rw [if_neg fun h => hr h.1, ← hresult]
      exact congrArg UInt8.toNat (Registers.get_setFlag_of_ne _ on hr)

/-- An operation between registers succeeds.  The operands are what VX and VY held before
it.  VF holds the flag, where the operation has one; VX holds the result, unless it is VF and
there is a flag; all other registers, and all else but the program counter, stay as they
are. -/
theorem arith_step (m : Machine) {op : ArithOp} {x y : Nibble}
    (here : m.StandsAt ⟨0x8, x, y, op.nibble⟩) :
    m.step.answer = .ok () ∧
    m.step.machine = { m with pc := m.pc + 2, registers := m.step.machine.registers } ∧
    ∀ r, (m.step.machine.registers.get r).toNat =
      if r = Registers.flagName ∧ (m.combined op x y).2.isSome then
        ((m.combined op x y).2.getD false).toNat
      else if r = x then (m.combined op x y).1
      else (m.registers.get r).toNat := by
  have hcurrent : m.current? = some (.arith op x y) := by
    rw [here.current?]
    cases op <;> rfl
  have hstep : m.step = (m.passed.executeArith op x y).done := step_of_current? hcurrent
  rw [hstep]
  exact ⟨rfl, executeArith_eq m.passed op x y, get_executeArith m.passed op x y⟩

/-- VE is shifted right into VF, and the bit that falls out goes there too. -/
def shifting : Machine :=
  { powerOn ⟨true, false, false, true⟩ (RandomSource.ofWords []) with
    memory := Memory.zero.overwrite Memory.programBase [0x8F, 0xE6]
    registers := Registers.zero.set 0xE 0x81 }

theorem arith_step_shifting :
    shifting.StandsAt ⟨0x8, 0xF, 0xE, ArithOp.shiftRight.nibble⟩ ∧
      shifting.combined .shiftRight 0xF 0xE = (0x40, some true) ∧
      shifting.step.answer = .ok () ∧
      (shifting.step.machine.registers.get 0xF).toNat = 1 ∧
      (shifting.step.machine.registers.get 0xE).toNat = 0x81 := by
  have here : shifting.StandsAt ⟨0x8, 0xF, 0xE, ArithOp.shiftRight.nibble⟩ :=
    ⟨by decide, by decide +kernel⟩
  have hcombined : shifting.combined .shiftRight 0xF 0xE = (0x40, some true) := by
    decide +kernel
  obtain ⟨hanswer, -, hregister⟩ := arith_step shifting here
  rw [hcombined] at hregister
  refine ⟨here, hcombined, hanswer, hregister 0xF, ?_⟩
  rw [hregister 0xE]
  decide

end Machine

end ChipEight
