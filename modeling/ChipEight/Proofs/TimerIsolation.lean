import ChipEight.Proofs.Runs
import Mathlib.Control.Monad.Basic

/-!
The timers leave no trace.  Two machines that differ in the timers, and in whether
these stand still, take the same steps until one of them reads the delay timer: no other
instruction and no operation of a host looks at them.  So it makes no difference where a
host pauses a run, nor whether it steps or ticks through it.
-/

namespace ChipEight

namespace Operation

/-- An operation as it concerns a machine without its timers: a tick is a step, and
pausing is nothing. -/
def untimed? : Operation → Option Operation
  | .pause | .resume => none
  | .tick => some .step
  | o => some o

theorem executes_of_untimed? {o w : Operation} (h : o.untimed? = some w) :
    w.executes = o.executes := by
  cases o with
  | pause => cases h
  | resume => cases h
  | _ =>
    obtain rfl := Option.some.inj h
    rfl

end Operation

namespace Machine

/-- The machine without its timers: both at zero, and not paused. -/
def untimed (m : Machine) : Machine :=
  { m with delay := 0, sound := 0, paused := false }

/-! ### One operation -/

theorem untimed_countDown (m : Machine) : m.countDown.untimed = m.untimed := by
  rw [countDown_eq]
  rfl

theorem tick_of_paused {m : Machine} (h : m.paused = true) : m.tick = m.step := by
  have hstill : m.step.machine.paused = true := by
    rcases m.machine_step_cases with heq | ⟨i, -, heq⟩
    · rwa [heq]
    · rwa [heq, machine_execute]
  rw [tick, countDown, if_pos hstill]

theorem answerAfter_untimed (m : Machine) (i : Instruction) :
    m.untimed.answerAfter i = m.answerAfter i := by
  cases i <;> rfl

theorem execute_untimed (m : Machine) {i : Instruction} (h : ∀ x, i ≠ .readDelay x) :
    (m.untimed.execute i).machine.untimed = (m.execute i).machine.untimed := by
  rw [machine_execute, machine_execute]
  cases i with
  | readDelay x => exact absurd rfl (h x)
  | arith op x y =>
    have hregisters : (m.untimed.executeArith op x y).registers =
        (m.executeArith op x y).registers := registers_executeArith_congr rfl rfl
    simp only [registersAfter, hregisters]
    rfl
  | _ => rfl

theorem step_untimed {m : Machine} (h : ∀ x, m.current? ≠ some (.readDelay x)) :
    m.untimed.step.answer = m.step.answer ∧
      m.untimed.step.machine.untimed = m.step.machine.untimed := by
  apply step_lockstep (R := fun s t => s.untimed = t.untimed) (m := m.untimed) (n := m) rfl rfl
  intro i hcurrent
  have hother : ∀ x, i ≠ .readDelay x := by
    rintro x rfl
    exact h x hcurrent
  rw [answer_execute, answer_execute]
  exact ⟨answerAfter_untimed m.passed i, execute_untimed m.passed hother⟩

theorem load_untimed (m : Machine) (image : List UInt8) (offset : Nat) :
    (m.untimed.load image offset).answer = (m.load image offset).answer ∧
      (m.untimed.load image offset).machine.untimed = (m.load image offset).machine.untimed := by
  apply load_lockstep (R := fun s t => s.untimed = t.untimed) (m := m.untimed) (n := m) rfl rfl
  intro memory
  rfl

theorem untimed_perform_of_none (m : Machine) {o : Operation} (h : o.untimed? = none) :
    (m.perform o).machine.untimed = m.untimed := by
  cases o with
  | pause => rfl
  | resume => rfl
  | _ => cases h

/-- An operation does not look at the timers, unless it reads the delay timer. -/
theorem perform_untimed {m : Machine} {o w : Operation} (ho : o.untimed? = some w)
    (h : o.executes = true → ∀ x, m.current? ≠ some (.readDelay x)) :
    (m.untimed.perform w).answer = (m.perform o).answer ∧
      (m.untimed.perform w).machine.untimed = (m.perform o).machine.untimed := by
  cases o with
  | pause => cases ho
  | resume => cases ho
  | step =>
    obtain rfl := Option.some.inj ho
    obtain ⟨hanswer, hmachine⟩ := step_untimed (h rfl)
    exact ⟨congrArg (Except.map fun _ => Reply.nothing) hanswer, hmachine⟩
  | tick =>
    obtain rfl := Option.some.inj ho
    obtain ⟨hanswer, hmachine⟩ := step_untimed (h rfl)
    exact ⟨congrArg (Except.map fun _ => Reply.nothing) hanswer,
      hmachine.trans (untimed_countDown _).symm⟩
  | load image offset =>
    obtain rfl := Option.some.inj ho
    obtain ⟨hanswer, hmachine⟩ := load_untimed m image offset
    exact ⟨congrArg (Except.map Reply.loaded) hanswer, hmachine⟩
  | _ =>
    obtain rfl := Option.some.inj ho
    exact ⟨rfl, rfl⟩

/-! ### Two runs -/

def ReadsDelay (m : Machine) (operations : List Operation) : Prop :=
  ∃ t x, m.RunsAt operations t (.readDelay x)

/-- What the operations of a run answer, and the machines that they leave without the
timers.  Pauses are passed over. -/
def outcomes (m : Machine) : List Operation → List (Except Fault Reply × Machine)
  | [] => []
  | o :: rest =>
    let next := m.perform o
    match o.untimed? with
    | none => next.machine.outcomes rest
    | some _ => (next.answer, next.machine.untimed) :: next.machine.outcomes rest

theorem outcomes_cons_of_none {m : Machine} {o : Operation} (h : o.untimed? = none)
    (rest : List Operation) :
    m.outcomes (o :: rest) = (m.perform o).machine.outcomes rest := by
  rw [outcomes, h]

theorem outcomes_cons_of_some {m : Machine} {o w : Operation} (h : o.untimed? = some w)
    (rest : List Operation) :
    m.outcomes (o :: rest) =
      ((m.perform o).answer, (m.perform o).machine.untimed) ::
        (m.perform o).machine.outcomes rest := by
  rw [outcomes, h]

theorem outcomes_append_of_none {m : Machine} {pauses : List Operation}
    (h : ∀ o ∈ pauses, o.untimed? = none) (rest : List Operation) :
    (m.performAll pauses).untimed = m.untimed ∧
      m.outcomes (pauses ++ rest) = (m.performAll pauses).outcomes rest := by
  induction pauses generalizing m with
  | nil => exact ⟨rfl, rfl⟩
  | cons o pauses ih =>
    obtain ⟨ho, hpauses⟩ := List.forall_mem_cons.1 h
    obtain ⟨hmachine, houtcomes⟩ := ih (m := (m.perform o).machine) hpauses
    refine ⟨hmachine.trans (untimed_perform_of_none m ho), ?_⟩
    rw [List.cons_append, outcomes_cons_of_none ho]
    exact houtcomes

theorem perform_congr_untimed {m n : Machine} {o p w : Operation}
    (hagree : m.untimed = n.untimed) (ho : o.untimed? = some w) (hp : p.untimed? = some w)
    (h : o.executes = true → ∀ x, m.current? ≠ some (.readDelay x)) :
    (m.perform o).answer = (n.perform p).answer ∧
      (m.perform o).machine.untimed = (n.perform p).machine.untimed := by
  have hpc : n.untimed.pc = m.untimed.pc := by rw [hagree]
  have hmemory : n.untimed.memory = m.untimed.memory := by rw [hagree]
  have hcurrent : n.current? = m.current? := current?_congr hpc hmemory
  have hn : p.executes = true → ∀ x, n.current? ≠ some (.readDelay x) := by
    rw [← Operation.executes_of_untimed? hp, Operation.executes_of_untimed? ho, hcurrent]
    exact h
  obtain ⟨hanswer, hmachine⟩ := perform_untimed ho h
  obtain ⟨hanswer', hmachine'⟩ := perform_untimed hp hn
  rw [hagree] at hanswer hmachine
  exact ⟨hanswer.symm.trans hanswer', hmachine.symm.trans hmachine'⟩

/-- Two machines that differ in the timers and in whether these stand still, and two runs
that differ in pauses and in what is stepped and what is ticked: as long as the delay
timer is not read, every operation answers alike, faults included, and leaves machines
that differ in no more than before.  As the lists may be cut anywhere, this holds of any
two runs up to the first read.  While the timers stand still a tick is a step, whatever
it runs. -/
theorem outcomes_of_untimed_eq (m n : Machine) :
    (∀ first second : List Operation,
      m.untimed = n.untimed →
      first.filterMap Operation.untimed? = second.filterMap Operation.untimed? →
      ¬ m.ReadsDelay first →
      m.outcomes first = n.outcomes second ∧
        (m.performAll first).untimed = (n.performAll second).untimed) ∧
    (m.paused = true → m.tick = m.step) := by
  refine ⟨?_, tick_of_paused⟩
  intro first
  -- along the first run; the second one goes past its pauses to the operation that matches
  induction first generalizing m n with
  | nil =>
    intro second hagree hwork _
    have hpauses : ∀ o ∈ second, o.untimed? = none := List.filterMap_eq_nil_iff.1 hwork.symm
    obtain ⟨hmachine, houtcomes⟩ := outcomes_append_of_none (m := n) hpauses []
    rw [List.append_nil] at houtcomes
    exact ⟨houtcomes.symm, hagree.trans hmachine.symm⟩
  | cons o first ih =>
    intro second hagree hwork hreads
    have hfirst : ¬ (m.perform o).machine.ReadsDelay first := by
      rintro ⟨t, x, hruns⟩
      exact hreads ⟨t + 1, x, hruns⟩
    cases ho : o.untimed? with
    | none =>
      rw [List.filterMap_cons_none ho] at hwork
      rw [outcomes_cons_of_none ho]
      exact ih _ n second ((untimed_perform_of_none m ho).trans hagree) hwork hfirst
    | some w =>
      rw [List.filterMap_cons_some ho] at hwork
      obtain ⟨pauses, p, rest, rfl, hpauses, hp, hrest⟩ :=
        List.filterMap_eq_cons_iff.1 hwork.symm
      obtain ⟨hpaused, houtcomes⟩ := outcomes_append_of_none (m := n) hpauses (p :: rest)
      have hcurrent : o.executes = true → ∀ x, m.current? ≠ some (.readDelay x) :=
        fun hexecutes x hx => hreads ⟨0, x, hexecutes, hx⟩
      obtain ⟨hanswer, hmachine⟩ :=
        perform_congr_untimed (hagree.trans hpaused.symm) ho hp hcurrent
      obtain ⟨hlater, hlast⟩ := ih _ _ rest hmachine hrest.symm hfirst
      constructor
      · rw [houtcomes, outcomes_cons_of_some ho, outcomes_cons_of_some hp, hanswer, hmachine,
          hlater]
      · rw [performAll, performAll, List.foldl_append, List.foldl_cons, List.foldl_cons]
        exact hlast

/-- Set both timers to a random number, run an undefined word and return from no call.
The first two instructions are ticked, then the timers stop. -/
def hastyRun : List Operation :=
  [.load [0xC0, 0xFF, 0xF0, 0x15, 0xF0, 0x18, 0xFF, 0xFF, 0x00, 0xEE] 0x200, .tick, .tick,
    .pause, .step, .tick, .tick]

/-- The same program, stepped through at first and paused elsewhere. -/
def leisurelyRun : List Operation :=
  [.resume, .load [0xC0, 0xFF, 0xF0, 0x15, 0xF0, 0x18, 0xFF, 0xFF, 0x00, 0xEE] 0x200, .step,
    .step, .step, .pause, .resume, .step, .tick, .pause]

/-- A fresh machine, but for its timers, which have something left and stand still. -/
def halted (random : RandomSource) : Machine :=
  { fresh random with delay := 9, sound := 4, paused := true }

theorem outcomes_of_untimed_eq_halted :
    (fresh (RandomSource.ofWords [7])).outcomes hastyRun =
        (halted (RandomSource.ofWords [7])).outcomes leisurelyRun ∧
      ((fresh (RandomSource.ofWords [7])).outcomes hastyRun).map Prod.fst =
        [.ok (.loaded 10), .ok .nothing, .ok .nothing, .ok .nothing,
          .error (.undefinedWord 0xFFFF 0x206), .error (.stackUnderflow 0x208)] ∧
      (halted (RandomSource.ofWords [7])).tick = (halted (RandomSource.ofWords [7])).step := by
  have hquiet : ¬ (fresh (RandomSource.ofWords [7])).ReadsDelay hastyRun := by
    have hnone : ∀ t < 7, ∀ x, ¬ (fresh (RandomSource.ofWords [7])).RunsAt hastyRun t
        (.readDelay x) := by
      unfold RunsAt
      decide +kernel
    rintro ⟨t, x, hruns⟩
    by_cases ht : t < 7
    · exact hnone t ht x hruns
    · have hbehind : hastyRun[t]? = none := List.getElem?_eq_none (Nat.le_of_not_lt ht)
      have hexecutes := hruns.1
      rw [hbehind] at hexecutes
      cases hexecutes
  have hsame := outcomes_of_untimed_eq (fresh (RandomSource.ofWords [7]))
    (halted (RandomSource.ofWords [7]))
  have hpaused := outcomes_of_untimed_eq (halted (RandomSource.ofWords [7]))
    (fresh (RandomSource.ofWords [7]))
  exact ⟨(hsame.1 hastyRun leisurelyRun rfl rfl hquiet).1, by decide +kernel, hpaused.2 rfl⟩

end Machine

end ChipEight
