import ChipEight.Machine.Operation

/-!
Running a machine tick by tick until a limit, a request to stop or a fault that
is fatal.  Whenever a tick has touched the screen, the frame goes to an
observer, which may ask to stop.  A request to stop stays in force until the
runner is restarted.
-/

namespace ChipEight

/-- A machine with what it takes to run it. -/
structure Runner where
  machine : Machine
  /-- The time between two ticks in nanoseconds, for hosts that run in step
  with a clock. -/
  interval : Nat
  stopped : Bool

/-- A consumer of frames: its next state, and whether it asks to stop. -/
abbrev Observer (σ : Type) := σ → Grid → σ × Bool

structure Run (σ : Type) where
  runner : Runner
  observer : σ
  ticks : Nat
  /-- The frames handed over so far. -/
  frames : Array Grid
  log : Array Event

inductive Ending
  /-- All ticks allowed were made. -/
  | exhausted
  | stopped
  /-- A tick failed fatally. -/
  | failed (fault : Fault)
  deriving DecidableEq, Repr

namespace Run

variable {σ : Type}

def note (r : Run σ) (events : List Event) : Run σ :=
  { r with log := r.log ++ events }

/-- Hand the frame over if the screen was touched. -/
def present (r : Run σ) (observe : Observer σ) : Run σ :=
  let machine := r.runner.machine
  if machine.screen.dirty then
    let seen := observe r.observer machine.frame
    { r with
      runner :=
        { r.runner with machine := machine.shown, stopped := r.runner.stopped || seen.2 }
      observer := seen.1
      frames := r.frames.push machine.frame }
  else r

def complete (r : Run σ) (observe : Observer σ) (machine : Machine) : Run σ :=
  { r with
    runner := { r.runner with machine := machine }
    ticks := r.ticks + 1 }.present observe

/-- Make one tick.  A fault is given only if it is fatal; then the tick does not
count and nothing is presented. -/
def advance (r : Run σ) (observe : Observer σ) : Run σ × Option Fault :=
  let before := r.runner.machine
  let outcome := before.tick
  match outcome.answer with
  | .ok _ => ((r.note before.stepEvents).complete observe outcome.machine, none)
  | .error f =>
    if f.isFatal then
      -- the timers have counted down, but the tick is not counted
      ({ r with runner := { r.runner with machine := outcome.machine } }.note
        (before.stepEvents ++ [Event.failed f]), some f)
    else
      ((r.note (before.stepEvents ++ [Event.skipped f])).complete observe outcome.machine,
        none)

def continueFor (r : Run σ) (observe : Observer σ) : Nat → Run σ × Ending
  | 0 => (r, if r.runner.stopped then .stopped else .exhausted)
  | n + 1 =>
    if r.runner.stopped then (r, .stopped)
    else
      match r.advance observe with
      | (next, some f) => (next, .failed f)
      | (next, none) => next.continueFor observe n

theorem continueFor_of_stopped (observe : Observer σ) (n : Nat) (r : Run σ)
    (h : r.runner.stopped = true) : r.continueFor observe n = (r, .stopped) := by
  cases n with
  | zero => simp [continueFor, h]
  | succ n => simp [continueFor, h]

/-- Going on for `a` ticks and then for `b` is going on for both at once, unless
the first part fails. -/
theorem continueFor_add (observe : Observer σ) (a b : Nat) (r : Run σ) :
    r.continueFor observe (a + b) =
      match r.continueFor observe a with
      | (next, .failed f) => (next, .failed f)
      | (next, _) => next.continueFor observe b := by
  induction a generalizing r with
  | zero =>
    rw [Nat.zero_add, continueFor]
    by_cases hs : r.runner.stopped = true
    · simp [hs]
    · simp [hs]
  | succ a ih =>
    by_cases hs : r.runner.stopped = true
    · rw [continueFor_of_stopped _ _ _ hs, continueFor_of_stopped _ _ _ hs]
      exact (continueFor_of_stopped _ _ _ hs).symm
    · rw [Nat.succ_add, continueFor, continueFor, if_neg hs, if_neg hs]
      rcases r.advance observe with ⟨next, _ | f⟩
      · exact ih next
      · rfl

end Run

structure Report (σ : Type) where
  runner : Runner
  observer : σ
  /-- The number of ticks made, or the fault that ended the run. -/
  answer : Except Fault Nat
  frames : Array Grid
  log : Array Event

def Run.report {σ : Type} (r : Run σ) : Ending → Report σ
  | .failed f => ⟨r.runner, r.observer, .error f, r.frames, r.log⟩
  | _ => ⟨r.runner, r.observer, .ok r.ticks, r.frames, r.log.push (.runEnded r.ticks)⟩

namespace Runner

variable {σ : Type}

def ofMachine (machine : Machine) (interval : Nat) : Runner :=
  ⟨machine, interval, false⟩

/-- Reset the machine and forget requests to stop. -/
def restart (r : Runner) : Runner :=
  { r with machine := r.machine.reset, stopped := false }

def stop (r : Runner) : Runner :=
  { r with stopped := true }

def restartEvents (r : Runner) : List Event :=
  r.machine.events .reset

def stopEvents (_ : Runner) : List Event :=
  [.stopRequested]

def perform (r : Runner) (operation : Operation) : Runner :=
  { r with machine := (r.machine.perform operation).machine }

def begin (r : Runner) (observer : σ) : Run σ :=
  ⟨r, observer, 0, #[], #[]⟩

def runFor (r : Runner) (limit : Nat) (observe : Observer σ) (observer : σ) : Report σ :=
  let ended := (r.begin observer).continueFor observe limit
  ended.1.report ended.2

/-- Run until asked to stop or a fatal fault.  There is no report if that does
not happen within `fuel` ticks. -/
def run? (r : Runner) (fuel : Nat) (observe : Observer σ) (observer : σ) :
    Option (Report σ) :=
  match (r.begin observer).continueFor observe fuel with
  | (_, .exhausted) => none
  | (ended, ending) => some (ended.report ending)

end Runner

end ChipEight
