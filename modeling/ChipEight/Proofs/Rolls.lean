import ChipEight.Proofs.Runner.Unfolding

/-!
Where the words of a random source go.  A random instruction takes the next word, whatever
its mask, and nothing else that a host or a program does takes one.  So the source has
moved on by the number of random instructions that were run, and each of them saw the word
whose turn it was.
-/

namespace ChipEight

/-- A random instruction that was run: its register, its mask, and what the register held
behind it. -/
structure Roll where
  register : RegisterName
  mask : UInt8
  result : UInt8
  deriving DecidableEq, Repr

namespace Machine

def roll? (m : Machine) (o : Operation) : Option Roll :=
  if o.executes then
    match m.current? with
    | some (.random x mask) => some ⟨x, mask, (m.perform o).machine.registers.get x⟩
    | _ => none
  else none

def rolls (m : Machine) (operations : List Operation) : List Roll :=
  (m.trace operations).filterMap fun (n, o) => n.roll? o

variable {m : Machine} {o : Operation} {roll : Roll} {operations : List Operation}

/-! ### One operation -/

theorem current?_of_roll? (h : m.roll? o = some roll) :
    o.executes = true ∧ m.current? = some (.random roll.register roll.mask) ∧
      roll.result = (m.perform o).machine.registers.get roll.register := by
  unfold roll? at h
  split at h
  · rename_i hexecutes
    split at h
    · rename_i x mask hcurrent
      cases h
      exact ⟨hexecutes, hcurrent, rfl⟩
    · cases h
  · cases h

theorem random_perform_of_roll? (h : m.roll? o = some roll) :
    (m.perform o).machine.random = m.random.advance ∧
      roll.result = roll.mask &&& m.random.byte := by
  obtain ⟨hexecutes, hcurrent, hresult⟩ := current?_of_roll? h
  obtain ⟨delay, sound, heq⟩ := machine_perform_of_executes m hexecutes
  rw [step_of_current? hcurrent, machine_execute] at heq
  refine ⟨congrArg random heq, ?_⟩
  rw [hresult, heq]
  exact Registers.get_set_self _ _ _

theorem random_step_of_not_random (h : ∀ x mask, m.current? ≠ some (.random x mask)) :
    m.step.machine.random = m.random := by
  rcases m.machine_step_cases with heq | ⟨i, hcurrent, heq⟩
  · rw [heq]
  · rw [heq, machine_execute]
    cases i with
    | random x mask => exact absurd hcurrent (h x mask)
    | _ => rfl

theorem random_reset (m : Machine) : m.reset.random = m.random := by
  rw [reset, powerOn]

/-- What runs no random instruction takes no word, be it a fault, a reset or a load. -/
theorem random_perform_of_roll?_none (h : m.roll? o = none)
    (hkeeps : ∀ source, o ≠ .drawFrom source) :
    (m.perform o).machine.random = m.random := by
  have hstep (hexecutes : o.executes = true) : m.step.machine.random = m.random := by
    refine random_step_of_not_random fun x mask hcurrent => ?_
    rw [roll?, if_pos hexecutes, hcurrent] at h
    cases h
  cases o with
  | step => exact hstep rfl
  | tick =>
    change m.step.machine.countDown.random = m.random
    rw [countDown_eq]
    exact hstep rfl
  | drawFrom source => exact absurd rfl (hkeeps source)
  | load image offset =>
    obtain ⟨memory, pc, hload⟩ := m.machine_load image offset
    change (m.load image offset).machine.random = m.random
    rw [hload]
  | reset => exact m.random_reset
  | _ => rfl

/-! ### Whole runs -/

theorem rolls_cons (m : Machine) (o : Operation) (operations : List Operation) :
    m.rolls (o :: operations) =
      (m.roll? o).toList ++ (m.perform o).machine.rolls operations := by
  cases hroll : m.roll? o with
  | none => exact List.filterMap_cons_none hroll
  | some first => exact List.filterMap_cons_some hroll

/-- The random source has moved on by the number of random instructions that were run, and
each of them put the low byte of the word whose turn it was under its mask. -/
structure DrawsInTurn (m : Machine) (operations : List Operation) : Prop where
  drawn : (m.performAll operations).random =
    { m.random with drawn := m.random.drawn + (m.rolls operations).length }
  results : ∀ k roll, (m.rolls operations)[k]? = some roll →
    roll.result = roll.mask &&& (m.random.upcoming k).toUInt8

theorem drawsInTurn (m : Machine) (operations : List Operation)
    (hkeeps : ∀ source, .drawFrom source ∉ operations) : m.DrawsInTurn operations := by
  induction operations generalizing m with
  | nil => exact ⟨rfl, fun k roll h => by cases h⟩
  | cons o rest ih =>
    have hrest := ih (m.perform o).machine
      fun source hmem => hkeeps source (List.mem_cons_of_mem _ hmem)
    cases hroll : m.roll? o with
    | none =>
      have hrandom := random_perform_of_roll?_none hroll
        fun source heq => hkeeps source (heq ▸ List.mem_cons_self)
      have hrolls : m.rolls (o :: rest) = (m.perform o).machine.rolls rest := by
        rw [rolls_cons, hroll, Option.toList_none, List.nil_append]
      constructor
      · rw [hrolls, ← hrandom]
        exact hrest.drawn
      · rw [hrolls, ← hrandom]
        exact hrest.results
    | some first =>
      obtain ⟨hrandom, hfirst⟩ := random_perform_of_roll? hroll
      have hrolls : m.rolls (o :: rest) = first :: (m.perform o).machine.rolls rest := by
        rw [rolls_cons, hroll, Option.toList_some, List.singleton_append]
      constructor
      · have hdrawn := hrest.drawn
        rw [hrandom] at hdrawn
        rw [hrolls, List.length_cons, Nat.add_comm _ 1, ← Nat.add_assoc]
        exact hdrawn
      · intro k roll hk
        rw [hrolls] at hk
        cases k with
        | zero =>
          cases hk
          exact hfirst
        | succ k =>
          rw [hrest.results k roll hk, hrandom, RandomSource.upcoming_advance]

end Machine

namespace Runner

open Machine (DrawsInTurn fresh)

/-- Behind the operation that gives a machine its random source, every list of operations
draws in turn, whatever programs it runs and however they fail: the source has moved on by
the number of random instructions, and the `k`-th of them put the low byte of the `k`-th
word under its mask.  A session of a runner around such a machine draws as the operations
that it unfolds to.  A reset leaves the source where it was. -/
theorem drawsInTurn_of_session {σ : Type} :
    (∀ (m : Machine) (source : RandomSource) (operations : List Operation),
      (∀ other, .drawFrom other ∉ operations) → (m.drawFrom source).DrawsInTurn operations) ∧
    (∀ (r t : Runner) (source : RandomSource) (seen last : σ) (commands : List (Command σ))
        (responses : List (Response × Bool)),
      (∀ other, .operate (.drawFrom other) ∉ commands) →
      (r.perform (.drawFrom source)).Session seen commands responses t last →
      ∃ operations, (r.perform (.drawFrom source)).Unfolds seen commands operations t last ∧
        t.machine = (r.machine.drawFrom source).performAll operations ∧
        (r.machine.drawFrom source).DrawsInTurn operations) ∧
    ∀ m : Machine, m.reset.random = m.random := by
  refine ⟨fun m source operations => Machine.drawsInTurn (m.drawFrom source) operations, ?_,
    Machine.random_reset⟩
  intro r t source seen last commands responses hkeeps hsession
  obtain ⟨operations, hunfolds, hmachine⟩ := hsession.unfolds
  exact ⟨operations, hunfolds, hmachine,
    Machine.drawsInTurn _ operations (hunfolds.drawFrom_not_mem hkeeps)⟩

/-- A program that takes a word under a full mask and one under an empty mask, and returns
from no call. -/
def dicing : List UInt8 :=
  [0xC0, 0xFF, 0xC1, 0x00, 0x00, 0xEE]

def dice : RandomSource :=
  RandomSource.ofWords [0x101, 7, 0x4AB]

def thrower : Runner :=
  ofMachine ((fresh (RandomSource.ofWords [])).load dicing 0x200).machine 1000

/-- The program by hand until it fails, and once more behind a reset. -/
def twoThrows : List Operation :=
  [.tick, .step, .step, .pause, .tick, .reset, .load dicing 0x200, .tick, .snapshot]

def twoRuns : List (Command Nat) :=
  [.run none (stopAtFrame 1), .restart, .operate (.load dicing 0x200),
    .run (some 1) (stopAtFrame 1)]

theorem drawsInTurn_of_session_thrower :
    (thrower.machine.drawFrom dice).rolls twoThrows =
        [⟨0, 0xFF, 0x01⟩, ⟨1, 0x00, 0x00⟩, ⟨0, 0xFF, 0xAB⟩] ∧
      (thrower.machine.drawFrom dice).DrawsInTurn twoThrows ∧
      ∃ responses t operations,
        (thrower.perform (.drawFrom dice)).Session 0 twoRuns responses t 0 ∧
        (thrower.perform (.drawFrom dice)).Unfolds 0 twoRuns operations t 0 ∧
        t.machine.random.drawn = 3 ∧ t.machine.registers.get 0 = 0xAB ∧
        (thrower.machine.drawFrom dice).DrawsInTurn operations := by
  obtain ⟨hoperations, hsessions, -⟩ := @drawsInTurn_of_session Nat
  have hthrows := hoperations thrower.machine dice twoThrows (by simp [twoThrows])
  let failed := (thrower.perform (.drawFrom dice)).runFor 3 (stopAtFrame 1) 0
  let loaded := failed.runner.restart.perform (.load dicing 0x200)
  let ended := loaded.runFor 1 (stopAtFrame 1) 0
  have hfails : (thrower.perform (.drawFrom dice)).Returns none (stopAtFrame 1) 0 failed :=
    returns_runFor (by decide +kernel)
  obtain ⟨hrolls, hseen, hlast, hdrawn, hheld⟩ :
      (thrower.machine.drawFrom dice).rolls twoThrows =
          [⟨0, 0xFF, 0x01⟩, ⟨1, 0x00, 0x00⟩, ⟨0, 0xFF, 0xAB⟩] ∧
        failed.observer = 0 ∧ ended.observer = 0 ∧ ended.runner.machine.random.drawn = 3 ∧
        ended.runner.machine.registers.get 0 = 0xAB := by
    decide +kernel
  have hends : loaded.Returns (some 1) (stopAtFrame 1) 0 ended := rfl
  have hfirst := Serves.run hfails
  have hsecond := Serves.run hends
  rw [hseen] at hfirst
  rw [hlast] at hsecond
  have hsession := Session.cons hfirst
    (.cons .restart (.cons (.operate (.load dicing 0x200)) (.cons hsecond (.nil _ _))))
  obtain ⟨operations, hunfolds, -, hdraws⟩ :=
    hsessions thrower _ dice 0 0 twoRuns _ (by simp [twoRuns]) hsession
  exact ⟨hrolls, hthrows, _, _, operations, hsession, hunfolds, hdrawn, hheld, hdraws⟩

end Runner

end ChipEight
