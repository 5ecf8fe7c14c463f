import ChipEight.CommandLine.Program
import ChipEight.Proofs.KeyWait
import ChipEight.Proofs.Runner.Frames

/-!
A run cannot satisfy a wait for a key.  Nothing that runs presses a key or lets go of
one, and a wait notes a key only while it is held; so a key that a wait could deliver
must have been noted before the run began, and once one wait has delivered it no other
wait is ever over.  A wait that is not over runs again at every tick to come and changes
nothing but the note, so a run that comes to it ends without a fault.
-/

namespace ChipEight

namespace Machine

/-! ### A tick at a wait -/

def atWait (m : Machine) : Bool :=
  match m.current? with
  | some (.waitKey _) => true
  | _ => false

theorem atWait_iff {m : Machine} : m.atWait = true ↔ ∃ x, m.current? = some (.waitKey x) := by
  unfold atWait
  constructor
  · intro h
    split at h
    · exact ⟨_, ‹_›⟩
    · cases h
  · rintro ⟨x, hx⟩
    rw [hx]

theorem deliverable?_of_tick {m : Machine} {k : Key}
    (h : m.tick.machine.deliverable? = some k) : m.atWait = false ∧ m.deliverable? = some k := by
  have hkeypad : m.tick.machine.keypad = m.step.machine.keypad := keypad_countDown _
  obtain ⟨hawaited, hheld⟩ := deliverable?_eq_some.1 h
  rw [hkeypad] at hawaited hheld
  cases hwait : m.atWait with
  | true =>
    obtain ⟨x, hcurrent⟩ := atWait_iff.1 hwait
    rw [step_of_current? hcurrent, machine_execute] at hawaited hheld
    have hsame : (m.passed.keypadAfter (.waitKey x)).held = m.keypad.held := by
      rw [keypadAfter]
      split <;> rfl
    exact absurd (hsame.trans (held_of_awaited_wait (x := x) hawaited)) hheld
  | false =>
    have hother : ∀ x, m.current? ≠ some (.waitKey x) := by
      intro x hx
      rw [atWait_iff.2 ⟨x, hx⟩] at hwait
      cases hwait
    rw [keypad_step_of_ne_wait hother] at hawaited hheld
    exact ⟨rfl, deliverable?_eq_some.2 ⟨hawaited, hheld⟩⟩

/-- One machine is another that has stood still: it is at the same place of the same
program, and its registers, screen and random source are the same. -/
structure StandsStill (m n : Machine) : Prop where
  memory : n.memory = m.memory
  registers : n.registers = m.registers
  index : n.index = m.index
  pc : n.pc = m.pc
  stack : n.stack = m.stack
  frame : n.frame = m.frame
  random : n.random = m.random

theorem StandsStill.refl (m : Machine) : m.StandsStill m :=
  ⟨rfl, rfl, rfl, rfl, rfl, rfl, rfl⟩

theorem StandsStill.trans {l m n : Machine} (h : l.StandsStill m) (h' : m.StandsStill n) :
    l.StandsStill n where
  memory := h'.memory.trans h.memory
  registers := h'.registers.trans h.registers
  index := h'.index.trans h.index
  pc := h'.pc.trans h.pc
  stack := h'.stack.trans h.stack
  frame := h'.frame.trans h.frame
  random := h'.random.trans h.random

/-- The machine is at a wait that is not over. -/
structure Stuck (m : Machine) : Prop where
  waits : m.atWait = true
  unheard : m.deliverable? = none

theorem fatal?_of_atWait {m : Machine} (h : m.atWait = true) : m.fatal? = none := by
  obtain ⟨x, hcurrent⟩ := atWait_iff.1 h
  have hanswer : m.tick.answer = .ok () := by
    rw [tick, step_of_current? hcurrent, answer_execute]
    rfl
  rw [fatal?, hanswer]

theorem Stuck.standsStill {m : Machine} (h : m.Stuck) : m.StandsStill m.tick.machine := by
  obtain ⟨x, hcurrent⟩ := atWait_iff.1 h.waits
  have hpassed : m.passed.deliverable? = none := h.unheard
  rw [tick, step_of_current? hcurrent, machine_execute, countDown_eq]
  refine ⟨rfl, ?_, rfl, ?_, rfl, rfl, rfl⟩
  · simp only [registersAfter, hpassed]
    rfl
  · simp only [pcAfter, hpassed]
    rfl

theorem Stuck.tick {m : Machine} (h : m.Stuck) : m.tick.machine.Stuck where
  waits := by
    obtain ⟨x, hcurrent⟩ := atWait_iff.1 h.waits
    exact atWait_iff.2 ⟨x, (current?_congr h.standsStill.pc h.standsStill.memory).trans hcurrent⟩
  unheard := by
    rw [Option.eq_none_iff_forall_ne_some]
    intro k hk
    have hdeliverable := (deliverable?_of_tick hk).2
    rw [h.unheard] at hdeliverable
    cases hdeliverable

theorem Stuck.shown {m : Machine} (h : m.Stuck) : m.shown.Stuck :=
  ⟨h.waits, h.unheard⟩

theorem StandsStill.shown (m : Machine) : m.StandsStill m.shown :=
  ⟨rfl, rfl, rfl, rfl, rfl, rfl, rfl⟩

theorem pc_tick_of_atWait {m : Machine} (h : m.atWait = true) :
    m.tick.machine.pc = m.pc + 2 ↔ m.deliverable? ≠ none := by
  obtain ⟨x, hcurrent⟩ := atWait_iff.1 h
  have hpc : m.tick.machine.pc = m.passed.pcAfter (.waitKey x) := by
    rw [tick, pc_countDown, step_of_current? hcurrent, machine_execute]
  rw [hpc]
  constructor
  · intro hpasses
    obtain ⟨k, hk, -⟩ := deliverable?_of_pcAfter hpasses
    rw [hk]
    exact Option.some_ne_none k
  · intro hk
    exact if_pos (Option.isSome_iff_ne_none.2 hk)

end Machine

/-! ### Runs that come to a wait -/

namespace Run

variable {σ : Type} {observe : Observer σ} {r : Run σ} {i j : Nat}

theorem Completes.succ (h : r.Completes observe j)
    (hrunning : (r.after observe j).runner.stopped = false)
    (hsurvived : (r.after observe j).runner.machine.fatal? = none) :
    r.Completes observe (j + 1) := by
  intro i hi
  rcases Nat.lt_succ_iff_lt_or_eq.1 hi with hlt | rfl
  · exact h i hlt
  · exact ⟨hrunning, hsurvived⟩

/-- A run does not get past a wait that is not over. -/
theorem Completes.stuck (h : r.Completes observe i) (hji : j ≤ i)
    (hstuck : (r.after observe j).runner.machine.Stuck) :
    (r.after observe i).runner.machine.Stuck ∧
      (r.after observe j).runner.machine.StandsStill (r.after observe i).runner.machine := by
  induction hji with
  | refl => exact ⟨hstuck, .refl _⟩
  | @step i hji ih =>
    obtain ⟨hstill, hsame⟩ := ih (h.mono (Nat.le_succ i))
    have hmachine : (r.after observe (i + 1)).runner.machine =
        (r.after observe i).runner.machine.tick.machine.shown :=
      machine_advance (h i (Nat.lt_succ_self i)).2
    rw [hmachine]
    exact ⟨hstill.tick.shown, hsame.trans (hstill.standsStill.trans (.shown _))⟩

theorem Completes.deliverable? {k : Key} (h : r.Completes observe i) (hji : j ≤ i)
    (hkey : (r.after observe i).runner.machine.deliverable? = some k) :
    (r.after observe j).runner.machine.deliverable? = some k ∧
      (j < i → (r.after observe j).runner.machine.atWait = false) := by
  induction hji with
  | refl => exact ⟨hkey, fun hj => absurd hj (Nat.lt_irrefl j)⟩
  | @step i hji ih =>
    have hmachine : (r.after observe (i + 1)).runner.machine =
        (r.after observe i).runner.machine.tick.machine.shown :=
      machine_advance (h i (Nat.lt_succ_self i)).2
    rw [hmachine] at hkey
    obtain ⟨hwait, hearlier⟩ := Machine.deliverable?_of_tick hkey
    obtain ⟨hfirst, hbefore⟩ := ih (h.mono (Nat.le_succ i)) hearlier
    refine ⟨hfirst, fun _ => ?_⟩
    rcases Nat.eq_or_lt_of_le hji with rfl | hlt
    · exact hwait
    · exact hbefore hlt

theorem stopped_after_of_never (hnever : ∀ s grid, (observe s grid).2 = false)
    (hrunning : r.runner.stopped = false) (j : Nat) :
    (r.after observe j).runner.stopped = false := by
  induction j with
  | zero => exact hrunning
  | succ j ih =>
    rw [after]
    cases hfatal : (r.after observe j).runner.machine.fatal? with
    | some f => rw [(silent_advance_of_fatal hfatal).stopped, ih]
    | none =>
      cases hdirty : (r.after observe j).runner.machine.tick.machine.screen.dirty with
      | true => rw [(handsOver_advance hfatal hdirty).stopped, ih, hnever, Bool.or_false]
      | false => rw [(silent_advance hfatal hdirty).stopped, ih]

end Run

namespace Runner

variable {σ : Type}

/-- The machine of a run before tick `j`, counted from zero. -/
def machineAt (r : Runner) (observe : Observer σ) (observer : σ) (j : Nat) : Machine :=
  ((r.begin observer).after observe j).runner.machine

/-- A run under this limit makes tick `j`: it is not at its limit, has not failed before
and was not asked to stop. -/
structure MakesTick (r : Runner) (limit : Option Nat) (observe : Observer σ) (observer : σ)
    (j : Nat) : Prop where
  within : ∀ n ∈ limit, j < n
  completes : (r.begin observer).Completes observe j
  running : ((r.begin observer).after observe j).runner.stopped = false

/-- Tick `j` of a run runs a wait for a key. -/
structure WaitsAt (r : Runner) (limit : Option Nat) (observe : Observer σ) (observer : σ)
    (j : Nat) : Prop where
  made : r.MakesTick limit observe observer j
  waits : (r.machineAt observe observer j).atWait = true

/-- Tick `j` of a run runs a wait for a key and gets past it. -/
structure PassesWaitAt (r : Runner) (limit : Option Nat) (observe : Observer σ)
    (observer : σ) (j : Nat) : Prop extends r.WaitsAt limit observe observer j where
  passes : (r.machineAt observe observer (j + 1)).pc = (r.machineAt observe observer j).pc + 2

variable {r : Runner} {limit : Option Nat} {observe : Observer σ} {observer : σ} {i j : Nat}

theorem WaitsAt.completes_succ (h : r.WaitsAt limit observe observer j) :
    (r.begin observer).Completes observe (j + 1) :=
  h.made.completes.succ h.made.running (Machine.fatal?_of_atWait h.waits)

theorem WaitsAt.machineAt_succ (h : r.WaitsAt limit observe observer j) :
    r.machineAt observe observer (j + 1) =
      (r.machineAt observe observer j).tick.machine.shown :=
  Run.machine_advance (Machine.fatal?_of_atWait h.waits)

theorem WaitsAt.passes_iff (h : r.WaitsAt limit observe observer j) :
    r.PassesWaitAt limit observe observer j ↔
      (r.machineAt observe observer j).deliverable? ≠ none := by
  rw [← Machine.pc_tick_of_atWait h.waits]
  have hpc : (r.machineAt observe observer (j + 1)).pc =
      (r.machineAt observe observer j).tick.machine.pc := by
    rw [h.machineAt_succ]
    rfl
  rw [← hpc]
  exact ⟨PassesWaitAt.passes, fun hpasses => ⟨h, hpasses⟩⟩

theorem WaitsAt.stuck (h : r.WaitsAt limit observe observer j)
    (hstays : ¬ r.PassesWaitAt limit observe observer j) :
    (r.machineAt observe observer j).Stuck :=
  ⟨h.waits, not_not.1 (mt h.passes_iff.2 hstays)⟩

theorem PassesWaitAt.deliverable? (h : r.PassesWaitAt limit observe observer j) (hij : i ≤ j) :
    ∃ k, (r.machineAt observe observer i).deliverable? = some k ∧
      (i < j → (r.machineAt observe observer i).atWait = false) := by
  obtain ⟨k, hk⟩ := Option.ne_none_iff_exists'.1 (h.toWaitsAt.passes_iff.1 h)
  exact ⟨k, h.made.completes.deliverable? hij hk⟩

theorem PassesWaitAt.eq (hi : r.PassesWaitAt limit observe observer i)
    (hj : r.PassesWaitAt limit observe observer j) : i = j := by
  have hnot_before {i j : Nat} (hi : r.PassesWaitAt limit observe observer i)
      (hj : r.PassesWaitAt limit observe observer j) : ¬ i < j := by
    intro hij
    obtain ⟨k, -, hwait⟩ := hj.deliverable? (Nat.le_of_lt hij)
    rw [hi.waits] at hwait
    cases hwait hij
  exact Nat.le_antisymm (Nat.le_of_not_lt (hnot_before hj hi))
    (Nat.le_of_not_lt (hnot_before hi hj))

theorem WaitsAt.again (h : r.WaitsAt limit observe observer j)
    (hstays : ¬ r.PassesWaitAt limit observe observer j) (hji : j ≤ i)
    (hmade : r.MakesTick limit observe observer i) :
    r.WaitsAt limit observe observer i ∧ ¬ r.PassesWaitAt limit observe observer i ∧
      (r.machineAt observe observer j).StandsStill
        (r.machineAt observe observer (i + 1)) := by
  obtain ⟨hstuck, -⟩ := hmade.completes.stuck hji (h.stuck hstays)
  have hwaits : r.WaitsAt limit observe observer i := ⟨hmade, hstuck.waits⟩
  have hsame := hwaits.completes_succ.stuck (Nat.le_succ_of_le hji) (h.stuck hstays)
  exact ⟨hwaits, fun hpasses => hwaits.passes_iff.1 hpasses hstuck.unheard, hsame.2⟩

theorem WaitsAt.returns {report : Report σ} (h : r.WaitsAt limit observe observer j)
    (hstays : ¬ r.PassesWaitAt limit observe observer j)
    (hreturns : r.Returns limit observe observer report) :
    (∃ ticks, report.answer = .ok ticks) ∧
      (r.machineAt observe observer j).StandsStill report.runner.machine := by
  cases hreturns.finish with
  | ended k within completes ends =>
    have hjk : j ≤ k := by
      rcases ends with hlimit | hstops
      · exact Nat.le_of_lt (h.made.within k hlimit)
      · by_contra hkj
        rw [(h.made.completes k (Nat.lt_of_not_le hkj)).1] at hstops
        cases hstops
    exact ⟨⟨_, rfl⟩, (completes.stuck hjk (h.stuck hstays)).2⟩
  | failed k within completes f fails =>
    have hjk : j ≤ k := by
      by_contra hkj
      rw [(h.made.completes k (Nat.lt_of_not_le hkj)).2] at fails
      cases fails
    have hstuck := (completes.stuck hjk (h.stuck hstays)).1
    rw [Machine.fatal?_of_atWait hstuck.waits] at fails
    cases fails

end Runner

/-! ### Runs from the command line -/

def unwatched : Observer Unit :=
  fun _ _ => ((), false)

def RandomSource.threes : RandomSource :=
  ofWords [3]

namespace Arguments

/-- What is run when the image has been loaded: a runner whose machine holds the key
down. -/
def runner (a : Arguments) (image : List UInt8) (random : RandomSource) : Runner :=
  Runner.ofMachine
    (((a.machine random).load image Memory.programBase).machine.press a.key)
    (a.interval * 1000000)

variable {a : Arguments} {image : List UInt8} {random : RandomSource} {length i j : Nat}

theorem run_of_load
    (hload : ((a.machine random).load image Memory.programBase).answer = .ok length) :
    a.run (.ok image) random =
      a.conclusion (a.loadingEvents image length)
        ((a.runner image random).runFor a.ticks unwatched ()) := by
  rw [run, runImage]
  simp only [hload]
  rfl

theorem awaited_runner (a : Arguments) (image : List UInt8) (random : RandomSource) :
    (a.runner image random).machine.keypad.awaited = none := by
  have hload : ((a.machine random).load image Memory.programBase).machine.keypad =
      Keypad.idle := by
    unfold Machine.load
    split <;> rfl
  change (Keypad.press _ a.key).awaited = none
  rw [hload]
  cases a.key <;> rfl

theorem not_passesWaitAt (a : Arguments) (image : List UInt8) (random : RandomSource)
    (limit : Option Nat) (j : Nat) :
    ¬ (a.runner image random).PassesWaitAt limit unwatched () j := by
  intro hpasses
  obtain ⟨k, hk, -⟩ := hpasses.deliverable? (Nat.zero_le j)
  have hawaited := (Machine.deliverable?_eq_some.1 hk).1
  change (a.runner image random).machine.keypad.awaited = some k at hawaited
  rw [awaited_runner] at hawaited
  cases hawaited

theorem stopped_after_runner (a : Arguments) (image : List UInt8) (random : RandomSource)
    (k : Nat) :
    (((a.runner image random).begin ()).after unwatched k).runner.stopped = false :=
  Run.stopped_after_of_never (fun _ _ => rfl) rfl k

/-- A run from the command line that does not fail ends at its limit. -/
theorem ticks_of_ends {k : Nat} (h : some a.ticks = some k ∨
    (((a.runner image random).begin ()).after unwatched k).runner.stopped = true) :
    a.ticks = k := by
  rcases h with hlimit | hstops
  · exact Option.some.inj hlimit
  · rw [stopped_after_runner] at hstops
    cases hstops

theorem makesTick_of_waitsAt
    (h : (a.runner image random).WaitsAt (some a.ticks) unwatched () j) (hji : j ≤ i)
    (hi : i < a.ticks) :
    (a.runner image random).MakesTick (some a.ticks) unwatched () i := by
  have hrunning := stopped_after_runner a image random
  refine ⟨by simpa using hi, ?_, hrunning i⟩
  induction hji with
  | refl => exact h.made.completes
  | @step i hji ih =>
    have hcompletes := ih (Nat.lt_of_succ_lt hi)
    have hstuck := (hcompletes.stuck hji (h.stuck (not_passesWaitAt a image random _ j))).1
    exact hcompletes.succ (hrunning i) (Machine.fatal?_of_atWait hstuck.waits)

theorem run_of_waitsAt
    (hload : ((a.machine random).load image Memory.programBase).answer = .ok length)
    (h : (a.runner image random).WaitsAt (some a.ticks) unwatched () j) :
    (a.run (.ok image) random).verdict =
      .finished (a.output ((a.runner image random).machineAt unwatched () a.ticks)) := by
  have hreturns : (a.runner image random).Returns (some a.ticks) unwatched ()
      ((a.runner image random).runFor a.ticks unwatched ()) := rfl
  obtain ⟨⟨ticks, hanswer⟩, -⟩ := h.returns (not_passesWaitAt a image random _ j) hreturns
  have hfinish := hreturns.finish
  rw [run_of_load hload]
  generalize (a.runner image random).runFor a.ticks unwatched () = report
    at hanswer hfinish
  cases hfinish with
  | ended k _ _ ends =>
    rw [ticks_of_ends ends]
    rfl
  | failed => cases hanswer

end Arguments

namespace Runner

/-- A run, with or without a limit and whoever observes it, gets past one wait for a key at
most, and only if a key that is no longer held was awaited when it began.  A wait that it
does not get past is run again by all its ticks to come and changes nothing, so the run
does not fail.  A run from the command line begins with no key awaited; so it gets past no
wait, whether or not it holds a key down: when it comes to one it spends the rest of its
ticks there and ends well. -/
theorem run_satisfies_no_wait :
    (∀ (σ : Type) (r : Runner) (limit : Option Nat) (observe : Observer σ) (observer : σ),
      (∀ j, r.PassesWaitAt limit observe observer j →
        (∃ k, r.machine.keypad.awaited = some k ∧ r.machine.keypad.held ≠ some k) ∧
          ∀ i, r.PassesWaitAt limit observe observer i → i = j) ∧
      ∀ j, r.WaitsAt limit observe observer j → ¬ r.PassesWaitAt limit observe observer j →
        (∀ i, j ≤ i → r.MakesTick limit observe observer i →
          r.WaitsAt limit observe observer i ∧ ¬ r.PassesWaitAt limit observe observer i ∧
            (r.machineAt observe observer j).StandsStill
              (r.machineAt observe observer (i + 1))) ∧
        ∀ report, r.Returns limit observe observer report →
          (∃ ticks, report.answer = .ok ticks) ∧
            (r.machineAt observe observer j).StandsStill report.runner.machine) ∧
    ∀ (a : Arguments) (image : List UInt8) (random : RandomSource) (length : Nat),
      ((a.machine random).load image Memory.programBase).answer = .ok length →
      ∀ j, (a.runner image random).WaitsAt (some a.ticks) unwatched () j →
        (∀ i, j ≤ i → i < a.ticks →
          (a.runner image random).WaitsAt (some a.ticks) unwatched () i ∧
            ¬ (a.runner image random).PassesWaitAt (some a.ticks) unwatched () i ∧
            ((a.runner image random).machineAt unwatched () j).StandsStill
              ((a.runner image random).machineAt unwatched () (i + 1))) ∧
        (a.run (.ok image) random).verdict =
          .finished (a.output ((a.runner image random).machineAt unwatched () a.ticks)) ∧
        (a.run (.ok image) random).exitCode = 0 := by
  refine ⟨fun σ r limit observe observer => ⟨?_, ?_⟩, ?_⟩
  · intro j hpasses
    obtain ⟨k, hk, -⟩ := hpasses.deliverable? (Nat.zero_le j)
    exact ⟨⟨k, Machine.deliverable?_eq_some.1 hk⟩, fun i hi => hi.eq hpasses⟩
  · intro j hwaits hstays
    exact ⟨fun i hji hmade => hwaits.again hstays hji hmade,
      fun report hreturns => hwaits.returns hstays hreturns⟩
  · intro a image random length hload j hwaits
    have hstays := Arguments.not_passesWaitAt a image random (some a.ticks) j
    have hrun := Arguments.run_of_waitsAt hload hwaits
    refine ⟨fun i hji hi => ?_, hrun, ?_⟩
    · exact hwaits.again hstays hji (Arguments.makesTick_of_waitsAt hwaits hji hi)
    · rw [Conclusion.exitCode, hrun]
      rfl

/-- A program with two waits, at the first of which key five was pressed and let go. -/
def listening : Runner :=
  ofMachine ((Machine.fresh (RandomSource.ofWords [])).performAll
    [.load [0xF0, 0x0A, 0xF1, 0x0A] 0x200, .press (some 5), .step, .release]) 0

def holdingFive : Arguments :=
  ⟨"wait.ch8", 9, 2, none, some 5, Settings.usual, false⟩

def waitingImage : List UInt8 :=
  [0x61, 0x07, 0xF0, 0x0A]

theorem run_satisfies_no_wait_listening :
    listening.PassesWaitAt (some 4) (stopAtFrame 2) 0 0 ∧
      listening.WaitsAt (some 4) (stopAtFrame 2) 0 1 ∧
      ¬ listening.PassesWaitAt (some 4) (stopAtFrame 2) 0 1 ∧
      (∃ ticks, (listening.runFor 4 (stopAtFrame 2) 0).answer = .ok ticks) ∧
      (holdingFive.run (.ok waitingImage) .threes).exitCode = 0 := by
  obtain ⟨hfirst, hpast, hrunning, hsecond⟩ :
      (listening.machineAt (stopAtFrame 2) 0 0).atWait = true ∧
        (listening.machineAt (stopAtFrame 2) 0 1).pc =
          (listening.machineAt (stopAtFrame 2) 0 0).pc + 2 ∧
        ((listening.begin 0).after (stopAtFrame 2) 1).runner.stopped = false ∧
        (listening.machineAt (stopAtFrame 2) 0 1).atWait = true := by
    decide +kernel
  have hpasses : listening.PassesWaitAt (some 4) (stopAtFrame 2) 0 0 :=
    ⟨⟨⟨by decide, Run.completes_zero _ _, rfl⟩, hfirst⟩, hpast⟩
  have hwaits : listening.WaitsAt (some 4) (stopAtFrame 2) 0 1 :=
    ⟨⟨by decide, hpasses.completes_succ, hrunning⟩, hsecond⟩
  have hstays : ¬ listening.PassesWaitAt (some 4) (stopAtFrame 2) 0 1 := by
    intro hagain
    cases ((run_satisfies_no_wait.1 Nat listening (some 4) (stopAtFrame 2) 0).1 0 hpasses).2 1
      hagain
  have hstuck :=
    (run_satisfies_no_wait.1 Nat listening (some 4) (stopAtFrame 2) 0).2 1 hwaits hstays
  obtain ⟨hload, hsurvived, hholds⟩ :
      ((holdingFive.machine .threes).load waitingImage Memory.programBase).answer = .ok 4 ∧
        (holdingFive.runner waitingImage .threes).machine.fatal? = none ∧
        ((holdingFive.runner waitingImage .threes).machineAt unwatched () 1).atWait = true := by
    decide +kernel
  have hcompletes : ((holdingFive.runner waitingImage .threes).begin ()).Completes unwatched 1 :=
    (Run.completes_zero _ _).succ rfl hsurvived
  have hidles : (holdingFive.runner waitingImage .threes).WaitsAt (some 9) unwatched () 1 :=
    ⟨⟨by decide, hcompletes, Arguments.stopped_after_runner _ _ _ 1⟩, hholds⟩
  have hheadless := run_satisfies_no_wait.2 holdingFive waitingImage .threes 4 hload 1 hidles
  exact ⟨hpasses, hwaits, hstays, (hstuck.2 _ rfl).1, hheadless.2.2⟩

end Runner

end ChipEight
