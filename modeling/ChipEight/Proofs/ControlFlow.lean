import ChipEight.Proofs.Bounds
import ChipEight.Proofs.Faults
import ChipEight.Proofs.KeyWait
import Mathlib.Logic.Basic

/-!
Where a step leaves the machine.  The program counter stands behind the word when its
instruction runs, and each instruction that sends the machine elsewhere makes up for that in its
own way.  `Machine.Diverts` says, by the word, what comes of it: the words that lead elsewhere
than to the word behind them, and where they lead.  The skips come in pairs, each the opposite
of the other.
-/

namespace ChipEight

/-- Two skips with the same operands, of which the second is the opposite of the first. -/
inductive Nibbles.Opposite : Nibbles → Nibbles → Prop
  | constant (x a b : Nibble) : Opposite ⟨0x3, x, a, b⟩ ⟨0x4, x, a, b⟩
  | register (x y : Nibble) : Opposite ⟨0x5, x, y, 0x0⟩ ⟨0x9, x, y, 0x0⟩
  | key (x : Nibble) : Opposite ⟨0xE, x, 0x9, 0xE⟩ ⟨0xE, x, 0xA, 0x1⟩

namespace Machine

/-- A key is held, and the lower half of VX is its number. -/
def HoldsKeyOf (m : Machine) (x : RegisterName) : Prop :=
  ∃ k, m.keypad.held = some k ∧ (k : Nat) = (m.registers.get x).toNat % 16

/-- The words that are skips whose condition holds on a machine. -/
inductive Skips (m : Machine) : Nibbles → Prop
  | equal {x a b : Nibble} (h : (m.registers.get x).toNat = 16 * a + b) : Skips m ⟨0x3, x, a, b⟩
  | unequal {x a b : Nibble} (h : (m.registers.get x).toNat ≠ 16 * a + b) :
      Skips m ⟨0x4, x, a, b⟩
  | same {x y : Nibble} (h : m.registers.get x = m.registers.get y) : Skips m ⟨0x5, x, y, 0x0⟩
  | different {x y : Nibble} (h : m.registers.get x ≠ m.registers.get y) :
      Skips m ⟨0x9, x, y, 0x0⟩
  | keyDown {x : Nibble} (h : m.HoldsKeyOf x) : Skips m ⟨0xE, x, 0x9, 0xE⟩
  /-- Also if no key is held. -/
  | keyUp {x : Nibble} (h : ¬ m.HoldsKeyOf x) : Skips m ⟨0xE, x, 0xA, 0x1⟩

def WaitIsOver (m : Machine) : Prop :=
  ∃ k, m.keypad.awaited = some k ∧ m.keypad.held ≠ some k

/-- The words that lead a machine elsewhere than to the word behind them, and where to. -/
inductive Diverts (m : Machine) : Nibbles → Nat → Prop
  | jump {a b c : Nibble} : Diverts m ⟨0x1, a, b, c⟩ (256 * a + 16 * b + c)
  | call {a b c : Nibble} : Diverts m ⟨0x2, a, b, c⟩ (256 * a + 16 * b + c)
  | jumpOffset {a b c : Nibble} : Diverts m ⟨0xB, a, b, c⟩
      (256 * a + 16 * b + c + (m.registers.get (if m.settings.jumpFromX then a else 0)).toNat)
  | ret {d top : Nat} (depth : m.stack.depth = d + 1) (at_top : m.stack.slots[d]? = some top) :
      Diverts m ⟨0x0, 0x0, 0xE, 0xE⟩ (top + 2)
  | wait {x : Nibble} (goes_on : ¬ m.WaitIsOver) : Diverts m ⟨0xF, x, 0x0, 0xA⟩ m.pc
  | skip {p : Nibbles} (skips : m.Skips p) : Diverts m p (m.pc + 4)

variable {m n : Machine} {p q : Nibbles} {a : Nat}

/-! ### The skips -/

theorem eq_nn_iff {v : UInt8} : v = p.nn ↔ v.toNat = 16 * p.y + p.n := by
  rw [← UInt8.toNat_inj, Nibbles.toNat_nn]

theorem isDown_iff_holdsKeyOf {x : RegisterName} :
    m.keypad.isDown (Nibble.ofByte (m.registers.get x)) = true ↔ m.HoldsKeyOf x := by
  rw [Keypad.isDown, beq_iff_eq]
  constructor
  · intro h
    exact ⟨_, h, Nibble.val_ofByte _⟩
  · rintro ⟨k, hheld, hk⟩
    rw [hheld, Fin.ext (hk.trans (Nibble.val_ofByte _).symm)]

theorem isUp_iff_not_holdsKeyOf {x : RegisterName} :
    m.keypad.isUp (Nibble.ofByte (m.registers.get x)) = true ↔ ¬ m.HoldsKeyOf x := by
  rw [Keypad.isUp, Bool.not_eq_true', ← Bool.not_eq_true, isDown_iff_holdsKeyOf]

theorem Skips.skips (h : m.Skips p) : m.skips (Instruction.decode p.word) = true := by
  rw [Instruction.decode_word]
  cases h with
  | @equal x a b h => exact beq_iff_eq.2 (eq_nn_iff (p := ⟨0x3, x, a, b⟩).2 h)
  | @unequal x a b h => exact bne_iff_ne.2 (mt (eq_nn_iff (p := ⟨0x4, x, a, b⟩).1) h)
  | same h => exact beq_iff_eq.2 h
  | different h => exact bne_iff_ne.2 h
  | keyDown h => exact isDown_iff_holdsKeyOf.2 h
  | keyUp h => exact isUp_iff_not_holdsKeyOf.2 h

theorem skips_nibbles {i : Instruction} (h : m.skips i = true) : m.Skips i.nibbles := by
  have hnn (family x : Nibble) (b : UInt8) : (Nibbles.withByte family x b).nn = b := by
    have hb := b.toNat_lt
    rw [← UInt8.toNat_inj, Nibbles.toNat_nn]
    simp only [Nibbles.withByte, Nibble.val_ofNat]
    omega
  cases i with
  | skipIfEqual x constant =>
    exact .equal (eq_nn_iff.1 ((beq_iff_eq.1 h).trans (hnn 0x3 x constant).symm))
  | skipUnlessEqual x constant =>
    refine .unequal fun heq => bne_iff_ne.1 h ?_
    exact (eq_nn_iff (p := .withByte 0x4 x constant).2 heq).trans (hnn 0x4 x constant)
  | skipIfSame x y => exact .same (beq_iff_eq.1 h)
  | skipUnlessSame x y => exact .different (bne_iff_ne.1 h)
  | skipIfKeyDown x => exact .keyDown (isDown_iff_holdsKeyOf.1 h)
  | skipIfKeyUp x => exact .keyUp (isUp_iff_not_holdsKeyOf.1 h)
  | _ => cases h

theorem skips_iff (m : Machine) (p : Nibbles) :
    m.Skips p ↔ m.skips (Instruction.decode p.word) = true := by
  constructor
  · exact Skips.skips
  · intro h
    have hskips := skips_nibbles h
    rwa [Instruction.nibbles_decode, Nibbles.ofWord_word] at hskips

theorem skips_iff_not_of_opposite (m : Machine) (h : p.Opposite q) : m.Skips p ↔ ¬ m.Skips q := by
  rw [skips_iff, skips_iff, Instruction.decode_word, Instruction.decode_word, Bool.not_eq_true]
  have hbne (v w : UInt8) : (v == w) = true ↔ (v != w) = false := by
    rw [bne, Bool.not_eq_false']
  cases h with
  | constant x a b => exact hbne _ _
  | register x y => exact hbne _ _
  | key x => exact (Bool.not_eq_false' _).symm.to_iff

/-! ### One step -/

theorem StandsAt.pc_step (here : m.StandsAt p) :
    m.step.machine.pc = m.passed.pcAfter (Instruction.decode p.word) := by
  rw [step_of_fetch here.fetch, machine_execute]

theorem waitIsOver_iff : m.deliverable?.isSome = true ↔ m.WaitIsOver := by
  simp only [Option.isSome_iff_exists, deliverable?_eq_some, WaitIsOver]

theorem pcAfter_of_skips {i : Instruction} (h : m.skips i = true) : m.pcAfter i = m.pc + 2 := by
  cases i with
  | skipIfEqual | skipUnlessEqual | skipIfSame | skipUnlessSame | skipIfKeyDown | skipIfKeyUp =>
    exact if_pos h
  | _ => cases h

theorem pcAfter_call_of_ok {target : Address} (h : m.answerAfter (.call target) = .ok ()) :
    m.pcAfter (.call target) = target := by
  rw [answerAfter] at h
  rw [pcAfter]
  cases hpush : m.stack.push? m.currentAddress with
  | none =>
    rw [hpush] at h
    cases h
  | some stack => rfl

theorem pcAfter_ret_of_top {d top : Nat} (hdepth : m.stack.depth = d + 1)
    (htop : m.stack.slots[d]? = some top) : m.pcAfter .ret = top + 2 := by
  have hopen : m.stack.depth ≠ 0 := by omega
  rw [pcAfter, CallStack.pop?, if_neg hopen, hdepth, Nat.add_sub_cancel, htop]
  rfl

theorem Diverts.pc_step (h : m.Diverts p a) (here : m.StandsAt p)
    (hok : m.step.answer = .ok ()) : m.step.machine.pc = a := by
  rw [here.answer_step, Instruction.decode_word] at hok
  cases h with
  | skip skips =>
    rw [here.pc_step]
    exact pcAfter_of_skips (m := m.passed) skips.skips
  | jump => rw [here.pc_step, Instruction.decode_word]; rfl
  | call =>
    rw [here.pc_step, Instruction.decode_word]
    exact pcAfter_call_of_ok hok
  | jumpOffset => rw [here.pc_step, Instruction.decode_word]; rfl
  | ret depth at_top =>
    rw [here.pc_step, Instruction.decode_word]
    exact pcAfter_ret_of_top (m := m.passed) depth at_top
  | wait goes_on =>
    rw [here.pc_step, Instruction.decode_word]
    exact if_neg (mt waitIsOver_iff.1 goes_on)

/-- A word that leads nowhere else leads to the word behind it. -/
theorem pc_step_of_not_diverts (hdepth : m.stack.depth ≤ CallStack.capacity)
    (here : m.StandsAt p) (hok : m.step.answer = .ok ()) (hnone : ∀ a, ¬ m.Diverts p a) :
    m.step.machine.pc = m.pc + 2 := by
  have hskip : ¬ m.skips (Instruction.decode p.word) = true :=
    fun h => hnone _ (.skip ((skips_iff m p).2 h))
  have hp : (Instruction.decode p.word).nibbles = p := by
    rw [Instruction.nibbles_decode, Nibbles.ofWord_word]
  rw [here.answer_step] at hok
  rw [here.pc_step]
  rw [← hp] at hnone
  -- the nibbles follow from the instruction
  cases hi : Instruction.decode p.word with
  | jump target =>
    rw [hi] at hnone
    exact absurd .jump (hnone _)
  | call target =>
    rw [hi] at hnone
    exact absurd .call (hnone _)
  | jumpOffset base x =>
    rw [hi] at hnone
    exact absurd .jumpOffset (hnone _)
  | ret =>
    rw [hi] at hnone hok
    have hopen : m.stack.depth ≠ 0 := by
      intro hempty
      have hfails := (answerAfter_ret_iff (m := m.passed)).2 ⟨hempty, rfl⟩
      rw [hfails] at hok
      cases hok
    obtain ⟨d, hd⟩ := Nat.exists_eq_succ_of_ne_zero hopen
    have hslot : d < 16 := by
      rw [hd] at hdepth
      exact hdepth
    exact absurd (.ret hd (Vector.getElem?_eq_getElem hslot)) (hnone _)
  | waitKey x =>
    rw [hi] at hnone
    have hover : m.WaitIsOver := by
      by_contra hgoes
      exact hnone _ (.wait hgoes)
    exact if_pos (waitIsOver_iff.2 hover)
  | _ =>
    rw [hi] at hskip
    exact if_neg (t := m.pc + 4) hskip

theorem StandsAt.pc_step_of_opposite (here : m.StandsAt p) (h : p.Opposite q ∨ q.Opposite p) :
    (m.Skips p → m.step.machine.pc = m.pc + 4) ∧
      (¬ m.Skips p → m.step.machine.pc = m.pc + 2) := by
  have hpc : m.step.machine.pc =
      if m.skips (Instruction.decode p.word) then m.pc + 4 else m.pc + 2 := by
    rw [here.pc_step, Instruction.decode_word]
    rcases h with h | h
    · cases h with
      | constant | register | key => rfl
    · cases h with
      | constant | register | key => rfl
  rw [hpc, skips_iff]
  exact ⟨fun h => if_pos h, fun h => if_neg h⟩

theorem skips_with_memory (m : Machine) (other : Memory) :
    { m with memory := other }.Skips p ↔ m.Skips p := by
  rw [skips_iff, skips_iff]
  cases Instruction.decode p.word <;> exact Iff.rfl

/-- A step that succeeds, on a machine that a host can bring about, leads where its word does,
and if that is nowhere else, to the word behind it.  And on any machine at all, of two opposite
skips exactly one passes over a word: the one whose condition holds. -/
theorem step_goes_on_or_diverts :
    (∀ m : Machine, m.Reachable → m.step.answer = .ok () →
      (∃ p, m.StandsAt p) ∧
      ∀ p, m.StandsAt p →
        (∀ a, m.Diverts p a → m.step.machine.pc = a) ∧
        ((∀ a, ¬ m.Diverts p a) → m.step.machine.pc = m.pc + 2)) ∧
    ∀ (m : Machine) (other : Memory) (p q : Nibbles), p.Opposite q → m.StandsAt p →
      { m with memory := other }.StandsAt q →
      (m.Skips p ∧ m.step.machine.pc = m.pc + 4 ∧
        { m with memory := other }.step.machine.pc = m.pc + 2) ∨
      (m.Skips q ∧ m.step.machine.pc = m.pc + 2 ∧
        { m with memory := other }.step.machine.pc = m.pc + 4) := by
  constructor
  · intro m hreachable hok
    constructor
    · cases hfetch : m.fetch with
      | error f =>
        rw [step_of_fetch_error hfetch] at hok
        cases hok
      | ok w => exact ⟨_, standsAt_of_fetch hfetch⟩
    · intro p here
      refine ⟨fun a h => h.pc_step here hok, ?_⟩
      exact pc_step_of_not_diverts hreachable.inBounds.stack.depth_le here hok
  · intro m other p q h here here'
    obtain ⟨hfirst, hfirst'⟩ := here.pc_step_of_opposite (.inl h)
    obtain ⟨hsecond, hsecond'⟩ := here'.pc_step_of_opposite (.inr h)
    rw [skips_with_memory] at hsecond hsecond'
    have hopposite := skips_iff_not_of_opposite m h
    by_cases hskips : m.Skips q
    · exact .inr ⟨hskips, hfirst' fun hp => hopposite.1 hp hskips, hsecond hskips⟩
    · have hother : m.Skips p := hopposite.2 hskips
      exact .inl ⟨hother, hfirst hother, hsecond' hskips⟩

/-- In a subroutine that returns at once, with key ten held. -/
def homing : Machine :=
  (fresh (RandomSource.ofWords [])).performAll
    [.load [0x60, 0x1A, 0x22, 0x06, 0x00, 0xE0, 0x00, 0xEE] 0x200, .press (some 10), .step, .step]

/-- At a skip if the key of V0, which is key ten, is down. -/
def choosing : Machine :=
  { homing with memory := homing.memory.overwrite 0x206 [0xE0, 0x9E] }

/-- The return goes behind the call; in its place the skip if the key is down would pass over a
word, and the skip if it is up would not. -/
theorem step_goes_on_or_diverts_homing :
    homing.Reachable ∧ homing.step.answer = .ok () ∧ homing.step.machine.pc = 0x204 ∧
      choosing.StandsAt ⟨0xE, 0x0, 0x9, 0xE⟩ ∧ choosing.Skips ⟨0xE, 0x0, 0x9, 0xE⟩ ∧
      choosing.step.machine.pc = 0x20A ∧
      { choosing with memory := choosing.memory.overwrite 0x206 [0xE0, 0xA1] }.step.machine.pc =
        0x208 := by
  have hreachable : homing.Reachable :=
    performAll_preserves (fun _ o h => .perform o h) (.fresh _) _
  obtain ⟨hok, here, hdepth, htop⟩ :
      homing.step.answer = .ok () ∧ homing.StandsAt ⟨0x0, 0x0, 0xE, 0xE⟩ ∧
        homing.stack.depth = 0 + 1 ∧ homing.stack.slots[0]? = some 0x202 := by
    decide +kernel
  obtain ⟨hplace, hdown, hup, hkey, hnamed⟩ :
      choosing.pc = 0x206 ∧ choosing.StandsAt ⟨0xE, 0x0, 0x9, 0xE⟩ ∧
        { choosing with
          memory := choosing.memory.overwrite 0x206 [0xE0, 0xA1] }.StandsAt
            ⟨0xE, 0x0, 0xA, 0x1⟩ ∧
        choosing.keypad.held = some 10 ∧ 10 = (choosing.registers.get 0).toNat % 16 := by
    decide +kernel
  have hpc := ((step_goes_on_or_diverts.1 homing hreachable hok).2 _ here).1 _
    (.ret hdepth htop)
  have hheld : choosing.HoldsKeyOf 0 := ⟨10, hkey, hnamed⟩
  refine ⟨hreachable, hok, hpc, hdown, .keyDown hheld, ?_⟩
  rcases step_goes_on_or_diverts.2 choosing _ _ _ (.key 0) hdown hup with
    ⟨-, hfirst, hsecond⟩ | ⟨hskips, -, -⟩
  · rw [hfirst, hsecond, hplace]
    exact ⟨rfl, rfl⟩
  · exact absurd hskips ((skips_iff_not_of_opposite choosing (.key 0)).1 (.keyDown hheld))

end Machine

end ChipEight
