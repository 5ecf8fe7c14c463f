import ChipEight.Proofs.Runs
import Mathlib.Control.Monad.Basic

/-!
Keys act through the instructions that look at them.  Two hosts that tick the same machine
and strike different keys in between cannot be told apart by what happens, as long as the
same key is held whenever an instruction looks.  So what happens at the keyboard between
two such instructions may be shifted, added or left out.

Letting go of the held key, `Machine.release`, makes two machines the same that differ in
it alone; that is how agreement but for the held key is written here.
-/

namespace ChipEight

def Instruction.readsKeys : Instruction → Bool
  | .skipIfKeyDown _ | .skipIfKeyUp _ | .waitKey _ => true
  | _ => false

inductive KeyEvent
  | down (key : Option Key)
  | up

namespace Machine

def readsKeys (m : Machine) : Bool :=
  m.current?.any Instruction.readsKeys

def strike (m : Machine) : KeyEvent → Machine
  | .down key => m.press key
  | .up => m.release

/-! ### One tick -/

theorem strike_release (m : Machine) (e : KeyEvent) : (m.strike e).release = m.release := by
  cases e with
  | down key => cases key <;> rfl
  | up => rfl

theorem eq_of_release {m n : Machine} (h : m.release = n.release)
    (hheld : m.keypad.held = n.keypad.held) : m = n := by
  have hpress (m : Machine) :
      m = { m.release with keypad := { m.release.keypad with held := m.keypad.held } } := rfl
  rw [hpress m, hpress n, h, hheld]

theorem execute_release (m : Machine) {i : Instruction} (h : i.readsKeys = false) :
    (m.release.execute i).answer = (m.execute i).answer ∧
      (m.release.execute i).machine.release = (m.execute i).machine.release := by
  rw [answer_execute, answer_execute, machine_execute, machine_execute]
  cases i with
  | skipIfKeyDown x => cases h
  | skipIfKeyUp x => cases h
  | waitKey x => cases h
  | arith op x y =>
    have hregisters : (m.release.executeArith op x y).registers =
        (m.executeArith op x y).registers := registers_executeArith_congr rfl rfl
    simp only [registersAfter, hregisters]
    exact ⟨rfl, rfl⟩
  | _ => exact ⟨rfl, rfl⟩

theorem countDown_release (m : Machine) : m.countDown.release = m.release.countDown := by
  rw [countDown_eq, countDown_eq]
  rfl

/-- A step does not depend on the held key unless it runs an instruction that looks at it. -/
theorem step_of_release {m n : Machine} (h : m.release = n.release)
    (hlooks : m.readsKeys = true → m.keypad.held = n.keypad.held) :
    m.step.answer = n.step.answer ∧ m.step.machine.release = n.step.machine.release := by
  cases hreads : m.readsKeys with
  | true =>
    obtain rfl := eq_of_release h (hlooks hreads)
    exact ⟨rfl, rfl⟩
  | false =>
    have hfetch : m.fetch = n.fetch :=
      show m.release.fetch = n.release.fetch from congrArg fetch h
    have hpassed : m.passed.release = n.passed.release :=
      show m.release.passed = n.release.passed from congrArg passed h
    apply step_lockstep (R := fun m n => m.release = n.release) hfetch h
    intro i hcurrent
    have hblind : i.readsKeys = false := by
      rw [readsKeys, hcurrent] at hreads
      exact hreads
    obtain ⟨hanswer, hmachine⟩ := m.passed.execute_release hblind
    obtain ⟨hanswer', hmachine'⟩ := n.passed.execute_release hblind
    rw [hpassed] at hanswer hmachine
    exact ⟨hanswer.symm.trans hanswer', hmachine.symm.trans hmachine'⟩

theorem tick_of_release {m n : Machine} (h : m.release = n.release)
    (hlooks : m.readsKeys = true → m.keypad.held = n.keypad.held) :
    m.tick.answer = n.tick.answer ∧ m.tick.machine.release = n.tick.machine.release := by
  obtain ⟨hanswer, hmachine⟩ := step_of_release h hlooks
  refine ⟨hanswer, ?_⟩
  calc m.step.machine.countDown.release
      = m.step.machine.release.countDown := countDown_release _
    _ = n.step.machine.release.countDown := congrArg countDown hmachine
    _ = n.step.machine.countDown.release := (countDown_release _).symm

/-! ### Two hosts -/

/-- The machine at its tick `t`, counted from zero, under a host that strikes the keys
`keys u` before tick `u`. -/
def atTick (m : Machine) (keys : Nat → List KeyEvent) : Nat → Machine
  | 0 => (keys 0).foldl strike m
  | t + 1 => (keys (t + 1)).foldl strike (m.atTick keys t).tick.machine

theorem strikes_release (m : Machine) (events : List KeyEvent) :
    (events.foldl strike m).release = m.release := by
  induction events generalizing m with
  | nil => rfl
  | cons e rest ih => exact (ih (m.strike e)).trans (strike_release m e)

/-- One machine under two hosts that tick it equally often and strike whatever keys they
like in between: if the same key is held in both at every tick that runs an instruction
that looks, then every tick answers alike, faults included, and behind every tick the
machines differ in the held key at most. -/
theorem ticks_agree_of_held_agrees (m : Machine) (first second : Nat → List KeyEvent)
    (ticks : Nat)
    (hlooks : ∀ t < ticks, (m.atTick first t).readsKeys = true →
      (m.atTick first t).keypad.held = (m.atTick second t).keypad.held) :
    ∀ t < ticks,
      (m.atTick first t).tick.answer = (m.atTick second t).tick.answer ∧
        (m.atTick first t).tick.machine.release =
          (m.atTick second t).tick.machine.release := by
  intro t ht
  apply tick_of_release _ (hlooks t ht)
  -- before tick `t` the machines are those behind the tick before it, with some keys struck
  induction t with
  | zero => exact (strikes_release m _).trans (strikes_release m _).symm
  | succ t ih =>
    have hearlier : t < ticks := Nat.lt_of_succ_lt ht
    have htick := (tick_of_release (ih hearlier) (hlooks t hearlier)).2
    rw [atTick, atTick, strikes_release, strikes_release]
    exact htick

/-- Skip a word if key five is down, wait for a key, return from no call. -/
def listener : Machine :=
  ((fresh (RandomSource.ofWords [])).load
    [0x60, 0x05, 0xE0, 0x9E, 0x00, 0xE0, 0xF1, 0x0A, 0x00, 0xEE] 0x200).machine

/-- Hold key five until the wait has noted it, then let it go. -/
def steadyHand : Nat → List KeyEvent
  | 0 => [.down (some 5)]
  | 3 => [.up]
  | 4 => [.down (some 3)]
  | _ => []

/-- Strike other keys too, but hold key five where it is looked for. -/
def restlessHand : Nat → List KeyEvent
  | 0 => [.down (some 7), .up]
  | 1 => [.down (some 2), .down (some 5), .down none]
  | 2 => [.up, .down (some 5)]
  | 3 => [.down (some 1), .up]
  | _ => []

theorem ticks_agree_of_held_agrees_listener :
    (∀ t < 5, (listener.atTick steadyHand t).readsKeys = true →
      (listener.atTick steadyHand t).keypad.held =
        (listener.atTick restlessHand t).keypad.held) ∧
    (listener.atTick steadyHand 3).tick.machine.registers.get 1 = 5 ∧
    (listener.atTick steadyHand 3).tick.machine.release =
      (listener.atTick restlessHand 3).tick.machine.release ∧
    (listener.atTick steadyHand 4).tick.answer = .error (.stackUnderflow 0x208) ∧
    (listener.atTick steadyHand 4).tick.answer = (listener.atTick restlessHand 4).tick.answer := by
  have hlooks : ∀ t < 5, (listener.atTick steadyHand t).readsKeys = true →
      (listener.atTick steadyHand t).keypad.held =
        (listener.atTick restlessHand t).keypad.held := by
    decide +kernel
  have hagree := ticks_agree_of_held_agrees listener steadyHand restlessHand 5 hlooks
  exact ⟨hlooks, by decide +kernel, (hagree 3 (by decide)).2, by decide +kernel,
    (hagree 4 (by decide)).1⟩

end Machine

end ChipEight
