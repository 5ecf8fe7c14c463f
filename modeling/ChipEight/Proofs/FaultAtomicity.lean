import ChipEight.Proofs.Runs
import Mathlib.Control.Monad.Basic

/-!
Faults are atomic.  An operation that fails has either done nothing at all or
moved the program counter behind the word it read; a tick has counted the timers
down besides.  No instruction writes anything before its last check.
-/

namespace ChipEight.Machine

/-- The machine of which only the word at the program counter was read: it stands
behind the word if there is one. -/
def pastFetch (m : Machine) : Machine :=
  match m.fetch with
  | .ok _ => m.passed
  | .error _ => m

theorem keepsOnFault_step (m : Machine) : m.step.KeepsOnFault m.pastFetch := by
  unfold pastFetch
  cases h : m.fetch with
  | error f =>
    rw [step_of_fetch_error h]
    exact keepsOnFault_fault m f
  | ok w =>
    rw [step_of_fetch h]
    exact keepsOnFault_execute m.passed (Instruction.decode w)

theorem keepsOnFault_load (m : Machine) (image : List UInt8) (offset : Nat) :
    (m.load image offset).KeepsOnFault m := by
  intro f h
  unfold load at h ⊢
  split
  · rfl
  · rename_i memory hmemory
    rw [hmemory] at h
    cases h

/-- A tick fails with the step it makes, and counts the timers down all the same. -/
theorem keepsOnFault_tick (m : Machine) : m.tick.KeepsOnFault m.pastFetch.countDown := by
  intro f h
  have hstep : m.step.answer = .error f := h
  exact congrArg countDown (keepsOnFault_step m f hstep)

theorem timerAfterTick_eq (t : UInt8) : timerAfterTick t = UInt8.ofNat (t.toNat - 1) := by
  unfold timerAfterTick
  split
  · rename_i h
    rw [h]
    rfl
  · rename_i h
    have hpos : t.toNat ≠ 0 := fun h0 => h (UInt8.toNat_inj.1 h0)
    have hle : (1 : UInt8) ≤ t := UInt8.le_iff_toNat_le.2 (Nat.one_le_iff_ne_zero.2 hpos)
    apply UInt8.toNat_inj.1
    rw [UInt8.toNat_sub_of_le _ _ hle, UInt8.toNat_ofNat']
    have hlt := t.toNat_lt
    change t.toNat - 1 = (t.toNat - 1) % 256
    omega

/-- A step that fails leaves everything as it was but the program counter, which
is behind the word if there was one to read; a tick that fails has counted each
timer down once more, unless they were paused; a load that fails leaves
everything as it was. -/
theorem machine_of_fault (m : Machine) :
    (∀ f, m.step.answer = .error f →
      m.step.machine = { m with pc := if m.fetch.isOk then m.pc + 2 else m.pc }) ∧
    (∀ f, m.tick.answer = .error f →
      m.tick.machine =
        { m with
          pc := if m.fetch.isOk then m.pc + 2 else m.pc
          delay := if m.paused then m.delay else UInt8.ofNat (m.delay.toNat - 1)
          sound := if m.paused then m.sound else UInt8.ofNat (m.sound.toNat - 1) }) ∧
    ∀ image offset f, (m.load image offset).answer = .error f →
      (m.load image offset).machine = m := by
  have hpast : m.pastFetch = { m with pc := if m.fetch.isOk then m.pc + 2 else m.pc } := by
    unfold pastFetch
    cases m.fetch <;> rfl
  refine ⟨?_, ?_, fun image offset => keepsOnFault_load m image offset⟩
  · intro f h
    rw [keepsOnFault_step m f h, hpast]
  · intro f h
    rw [keepsOnFault_tick m f h, hpast, countDown_eq]
    simp only [timerAfterTick_eq]

/-- A return without a call, on a machine whose delay timer runs. -/
def returning : Machine :=
  { fresh (RandomSource.ofWords []) with
    memory := Memory.zero.overwrite Memory.programBase [0x00, 0xEE]
    delay := 3 }

theorem machine_of_fault_returning :
    returning.step.answer = .error (.stackUnderflow 0x200) ∧
    returning.step.machine = { returning with pc := 0x202 } ∧
    returning.tick.answer = .error (.stackUnderflow 0x200) ∧
    returning.tick.machine = { returning with pc := 0x202, delay := 2 } ∧
    (returning.load [1] 0x1FF).answer = .error (.protectedWrite 0x1FF) ∧
    (returning.load [1] 0x1FF).machine = returning := by
  have hfetch : returning.fetch = .ok 0x00EE := by decide +kernel
  have hfault : returning.step.answer = .error (.stackUnderflow 0x200) := by decide +kernel
  have htick : returning.tick.answer = .error (.stackUnderflow 0x200) := by decide +kernel
  have hload : (returning.load [1] 0x1FF).answer = .error (.protectedWrite 0x1FF) := by
    decide +kernel
  have hall := machine_of_fault returning
  refine ⟨hfault, ?_, htick, ?_, hload, hall.2.2 _ _ _ hload⟩
  · rw [hall.1 _ hfault, hfetch]
    rfl
  · rw [hall.2.1 _ htick, hfetch]
    rfl

end ChipEight.Machine
