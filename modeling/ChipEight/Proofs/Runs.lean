import ChipEight.Proofs.Effects

/-!
Runs: a machine under a list of operations, seen before each of them.  A
property that every operation preserves holds all along a run; which operation
runs which instruction is said by `RunsAt`.
-/

namespace ChipEight

/-- Whether an operation runs an instruction. -/
def Operation.executes : Operation → Bool
  | .step | .tick => true
  | _ => false

def Operation.isReset : Operation → Bool
  | .reset => true
  | _ => false

namespace Machine

/-! ### The current instruction -/

/-- The instruction that the next step runs, if its word can be read. -/
def current? (m : Machine) : Option Instruction :=
  m.fetch.toOption.map Instruction.decode

theorem current?_of_fetch {m : Machine} {w : UInt16} (h : m.fetch = .ok w) :
    m.current? = some (Instruction.decode w) := by
  rw [current?, h]
  rfl

theorem current?_congr {m n : Machine} (hpc : m.pc = n.pc) (hmemory : m.memory = n.memory) :
    m.current? = n.current? := by
  rw [current?, current?, fetch, fetch, hpc, hmemory]

theorem step_of_fetch {m : Machine} {w : UInt16} (h : m.fetch = .ok w) :
    m.step = m.passed.execute (Instruction.decode w) := by
  rw [step, h]

theorem step_of_fetch_error {m : Machine} {f : Fault} (h : m.fetch = .error f) :
    m.step = m.fault f := by
  rw [step, h]

theorem step_of_current? {m : Machine} {i : Instruction} (h : m.current? = some i) :
    m.step = m.passed.execute i := by
  cases hw : m.fetch with
  | error f => simp [current?, hw, Except.toOption] at h
  | ok w =>
    rw [current?_of_fetch hw, Option.some.injEq] at h
    rw [step_of_fetch hw, h]

theorem step_of_current?_none {m : Machine} (h : m.current? = none) :
    ∃ f, m.step = m.fault f := by
  cases hw : m.fetch with
  | error f => exact ⟨f, step_of_fetch_error hw⟩
  | ok w => simp [current?_of_fetch hw] at h

/-- A step runs the current instruction; where there is none it leaves the machine
alone. -/
theorem machine_step_cases (m : Machine) :
    m.step.machine = m ∨
      ∃ i, m.current? = some i ∧ m.step.machine = (m.passed.execute i).machine := by
  cases hcurrent : m.current? with
  | none =>
    obtain ⟨f, hf⟩ := step_of_current?_none hcurrent
    exact Or.inl (congrArg Outcome.machine hf)
  | some i => exact Or.inr ⟨i, rfl, congrArg Outcome.machine (step_of_current? hcurrent)⟩

/-- Two machines before the same word take steps that answer alike and end related if the
instruction does so on both. -/
theorem step_lockstep {R : Machine → Machine → Prop} {m n : Machine} (hfetch : m.fetch = n.fetch)
    (h : R m n)
    (hexecute : ∀ i, m.current? = some i →
      (m.passed.execute i).answer = (n.passed.execute i).answer ∧
        R (m.passed.execute i).machine (n.passed.execute i).machine) :
    m.step.answer = n.step.answer ∧ R m.step.machine n.step.machine := by
  cases hword : m.fetch with
  | error f =>
    rw [step_of_fetch_error hword, step_of_fetch_error (hfetch.symm.trans hword)]
    exact ⟨rfl, h⟩
  | ok w =>
    rw [step_of_fetch hword, step_of_fetch (hfetch.symm.trans hword)]
    exact hexecute _ (current?_of_fetch hword)

theorem load_lockstep {R : Machine → Machine → Prop} {m n : Machine}
    (hmemory : m.memory = n.memory) (h : R m n) {image : List UInt8} {offset : Nat}
    (hloaded : ∀ memory, R { m with memory := memory, pc := offset }
      { n with memory := memory, pc := offset }) :
    (m.load image offset).answer = (n.load image offset).answer ∧
      R (m.load image offset).machine (n.load image offset).machine := by
  rw [load, load, ← hmemory]
  cases m.memory.load offset image with
  | error f => exact ⟨rfl, h⟩
  | ok memory => exact ⟨rfl, hloaded memory⟩

theorem machine_load (m : Machine) (image : List UInt8) (offset : Nat) :
    ∃ memory pc, (m.load image offset).machine = { m with memory := memory, pc := pc } := by
  rw [load]
  cases m.memory.load offset image with
  | error f => exact ⟨m.memory, m.pc, rfl⟩
  | ok memory => exact ⟨memory, offset, rfl⟩

theorem pc_lt_of_fetch {m : Machine} {w : UInt16} (h : m.fetch = .ok w) :
    m.pc + 1 < Memory.size := by
  unfold fetch Memory.word Memory.byte at h
  split at h
  · cases h
  · split at h
    · cases h
    · rename_i hlow
      split at hlow
      · assumption
      · cases hlow

/-! ### Counting the timers leaves the rest alone -/

theorem countDown_eq (m : Machine) :
    m.countDown =
      { m with
        delay := if m.paused then m.delay else timerAfterTick m.delay
        sound := if m.paused then m.sound else timerAfterTick m.sound } := by
  unfold countDown
  split <;> rfl

@[simp] theorem pc_countDown (m : Machine) : m.countDown.pc = m.pc := by
  rw [countDown_eq]

@[simp] theorem index_countDown (m : Machine) : m.countDown.index = m.index := by
  rw [countDown_eq]

@[simp] theorem stack_countDown (m : Machine) : m.countDown.stack = m.stack := by
  rw [countDown_eq]

@[simp] theorem memory_countDown (m : Machine) : m.countDown.memory = m.memory := by
  rw [countDown_eq]

@[simp] theorem screen_countDown (m : Machine) : m.countDown.screen = m.screen := by
  rw [countDown_eq]

@[simp] theorem keypad_countDown (m : Machine) : m.countDown.keypad = m.keypad := by
  rw [countDown_eq]

theorem machine_perform_of_executes (m : Machine) {o : Operation} (h : o.executes = true) :
    ∃ delay sound, (m.perform o).machine =
      { m.step.machine with delay := delay, sound := sound } := by
  cases o with
  | step => exact ⟨_, _, rfl⟩
  | tick => exact ⟨_, _, countDown_eq m.step.machine⟩
  | _ => cases h

theorem isOk_perform_of_executes (m : Machine) {o : Operation} (h : o.executes = true) :
    (m.perform o).answer.isOk = m.step.answer.isOk := by
  cases o with
  | step =>
    rw [perform]
    cases m.step.answer <;> rfl
  | tick =>
    rw [perform, tick]
    cases m.step.answer <;> rfl
  | _ => cases h

section

variable {m : Machine} {o : Operation} {i : Instruction}

theorem stack_perform_of_current? (h : o.executes = true) (hi : m.current? = some i) :
    (m.perform o).machine.stack = m.passed.stackAfter i := by
  obtain ⟨_, _, heq⟩ := machine_perform_of_executes m h
  rw [heq, step_of_current? hi, machine_execute]

theorem pc_perform_of_current? (h : o.executes = true) (hi : m.current? = some i) :
    (m.perform o).machine.pc = m.passed.pcAfter i := by
  obtain ⟨_, _, heq⟩ := machine_perform_of_executes m h
  rw [heq, step_of_current? hi, machine_execute]

theorem isOk_perform_of_current? (h : o.executes = true) (hi : m.current? = some i) :
    (m.perform o).answer.isOk = (m.passed.answerAfter i).isOk := by
  rw [isOk_perform_of_executes m h, step_of_current? hi, answer_execute]

end

/-! ### Positions of a run -/

/-- The machine before the operation at position `t` of a run. -/
def before (m : Machine) (operations : List Operation) (t : Nat) : Machine :=
  m.performAll (operations.take t)

@[simp] theorem before_zero (m : Machine) (operations : List Operation) :
    m.before operations 0 = m := rfl

theorem before_length (m : Machine) (operations : List Operation) :
    m.before operations operations.length = m.performAll operations := by
  rw [before, List.take_length]

theorem before_succ (m : Machine) {operations : List Operation} {t : Nat} {o : Operation}
    (h : operations[t]? = some o) :
    m.before operations (t + 1) = ((m.before operations t).perform o).machine := by
  simp only [before, performAll, List.take_add_one, h, Option.toList_some, List.foldl_append,
    List.foldl_cons, List.foldl_nil]

theorem before_succ_of_none (m : Machine) {operations : List Operation} {t : Nat}
    (h : operations[t]? = none) : m.before operations (t + 1) = m.before operations t := by
  simp [before, performAll, List.take_add_one, h]

/-- Two runs of the same operations answer alike and stay related for as long as single
operations do. -/
theorem before_lockstep {R : Machine → Machine → Prop} {m n : Machine}
    {operations : List Operation} {t : Nat} (h : R m n)
    (hperform : ∀ u < t, ∀ o, operations[u]? = some o →
      R (m.before operations u) (n.before operations u) →
        ((m.before operations u).perform o).answer = ((n.before operations u).perform o).answer ∧
          R ((m.before operations u).perform o).machine
            ((n.before operations u).perform o).machine) :
    (∀ u < t, ∀ o, operations[u]? = some o →
      ((m.before operations u).perform o).answer =
        ((n.before operations u).perform o).answer) ∧
      R (m.before operations t) (n.before operations t) := by
  induction t with
  | zero => exact ⟨fun u hu => absurd hu (Nat.not_lt_zero u), h⟩
  | succ t ih =>
    obtain ⟨hanswers, hrelated⟩ := ih fun u hu => hperform u (Nat.lt_succ_of_lt hu)
    have hlast := hperform t (Nat.lt_succ_self t)
    constructor
    · intro u hu o ho
      rcases Nat.lt_succ_iff_lt_or_eq.1 hu with hlt | rfl
      · exact hanswers u hlt o ho
      · exact (hlast o ho hrelated).1
    · cases ho : operations[t]? with
      | none =>
        rw [before_succ_of_none m ho, before_succ_of_none n ho]
        exact hrelated
      | some o =>
        rw [before_succ m ho, before_succ n ho]
        exact (hlast o ho hrelated).2

/-- The operation at position `t` runs the instruction `i`. -/
def RunsAt (m : Machine) (operations : List Operation) (t : Nat) (i : Instruction) : Prop :=
  operations[t]?.any Operation.executes = true ∧
    (m.before operations t).current? = some i

section

variable {m : Machine} {operations : List Operation} {t : Nat} {i : Instruction}

theorem RunsAt.machine_succ (h : m.RunsAt operations t i) :
    ∃ delay sound, m.before operations (t + 1) =
      { ((m.before operations t).passed.execute i).machine with
        delay := delay, sound := sound } := by
  obtain ⟨hexecutes, hcurrent⟩ := h
  obtain ⟨o, ho, hexecutes⟩ := (Option.any_eq_true _ _).1 hexecutes
  rw [before_succ m ho, ← step_of_current? hcurrent]
  exact machine_perform_of_executes _ hexecutes

theorem RunsAt.pc_succ (h : m.RunsAt operations t i) :
    (m.before operations (t + 1)).pc = (m.before operations t).passed.pcAfter i := by
  obtain ⟨_, _, heq⟩ := h.machine_succ
  rw [heq, machine_execute]

theorem RunsAt.memory_succ (h : m.RunsAt operations t i) :
    (m.before operations (t + 1)).memory =
      (m.before operations t).passed.memoryAfter i := by
  obtain ⟨_, _, heq⟩ := h.machine_succ
  rw [heq, machine_execute]

theorem RunsAt.registers_succ (h : m.RunsAt operations t i) :
    (m.before operations (t + 1)).registers =
      (m.before operations t).passed.registersAfter i := by
  obtain ⟨_, _, heq⟩ := h.machine_succ
  rw [heq, machine_execute]

theorem RunsAt.keypad_succ (h : m.RunsAt operations t i) :
    (m.before operations (t + 1)).keypad =
      (m.before operations t).passed.keypadAfter i := by
  obtain ⟨_, _, heq⟩ := h.machine_succ
  rw [heq, machine_execute]

theorem RunsAt.index_succ (h : m.RunsAt operations t i) :
    (m.before operations (t + 1)).index =
      (m.before operations t).passed.indexAfter i := by
  obtain ⟨_, _, heq⟩ := h.machine_succ
  rw [heq, machine_execute]

theorem RunsAt.screen_succ (h : m.RunsAt operations t i) :
    (m.before operations (t + 1)).screen =
      (m.before operations t).passed.screenAfter i := by
  obtain ⟨_, _, heq⟩ := h.machine_succ
  rw [heq, machine_execute]

end

theorem performAll_append (m : Machine) (first second : List Operation) :
    m.performAll (first ++ second) = (m.performAll first).performAll second :=
  List.foldl_append

theorem performAll_concat (m : Machine) (operations : List Operation) (o : Operation) :
    m.performAll (operations ++ [o]) = ((m.performAll operations).perform o).machine := by
  simp [performAll]

/-- The operations of a run, each with the machine it is performed on. -/
def trace (m : Machine) : List Operation → List (Machine × Operation)
  | [] => []
  | o :: rest => (m, o) :: (m.perform o).machine.trace rest

theorem trace_concat (m : Machine) (operations : List Operation) (o : Operation) :
    m.trace (operations ++ [o]) = m.trace operations ++ [(m.performAll operations, o)] := by
  induction operations generalizing m with
  | nil => rfl
  | cons first rest ih =>
    rw [List.cons_append, trace, trace, ih]
    rfl

def LoadsAt (m : Machine) (operations : List Operation) (t : Nat) : Prop :=
  ∃ image offset length, operations[t]? = some (.load image offset) ∧
    ((m.before operations t).load image offset).answer = .ok length

/-- What every operation preserves holds behind every list of operations. -/
theorem performAll_preserves {P : Machine → Prop} {m : Machine}
    (hstep : ∀ n o, P n → P (Machine.perform n o).machine) (hm : P m)
    (operations : List Operation) : P (m.performAll operations) := by
  induction operations generalizing m with
  | nil => exact hm
  | cons o rest ih => exact ih (hstep m o hm)

end Machine

end ChipEight
