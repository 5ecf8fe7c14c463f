import ChipEight.Proofs.Checked.Safety
import ChipEight.Proofs.Runner.Course
import ChipEight.Proofs.WordsToCome
import Mathlib.Control.Monad.Basic

/-!
Starting again.  A reset leaves nothing of what a machine was but its settings and the words
that its random source has still to give: whatever a host goes on to do with it, a machine
that was just switched on and was given those two answers the same.  So does a runner that
was restarted, when it is run as well as operated.
-/

namespace ChipEight

namespace Machine

/-- A new machine that was given settings and a random source. -/
def fitted (random : RandomSource) (settings : Settings) (source : RandomSource) : Machine :=
  (fresh random).performAll
    [.configure .shiftFromY settings.shiftFromY, .configure .jumpFromX settings.jumpFromX,
      .configure .advanceIndex settings.advanceIndex,
      .configure .xorSetsFlag settings.xorSetsFlag, .drawFrom source]

theorem fitted_eq (random : RandomSource) (settings : Settings) (source : RandomSource) :
    fitted random settings source = powerOn settings source := by
  simp only [fitted, performAll, List.foldl_cons, List.foldl_nil, perform, configure, drawFrom,
    Settings.set, fresh, powerOn]

variable {m n : Machine}

theorem sameButDrawn_reset {source : RandomSource} (h : source.upcoming = m.random.upcoming)
    (random : RandomSource) : SameButDrawn m.reset (fitted random m.settings source) := by
  rw [fitted_eq]
  exact sameButDrawn_powerOn m.settings h

theorem SameButDrawn.fatal? (h : SameButDrawn m n) : m.fatal? = n.fatal? := by
  rw [Machine.fatal?, Machine.fatal?, h.tick.1]

theorem SameButDrawn.tickEvents (h : SameButDrawn m n) : m.tickEvents = n.tickEvents := by
  have hanswer := h.tick.1
  obtain ⟨source, -, rfl⟩ := h
  have hevents : (m.drawFrom source).stepEvents = m.stepEvents := rfl
  rw [Machine.tickEvents, Machine.tickEvents, hevents, hanswer]

end Machine

/-! ### Runs -/

namespace Runner

variable {r s : Runner}

/-- Two runners are the same but for the words that their machines have drawn. -/
def SameButDrawn (r s : Runner) : Prop :=
  ∃ n, r.machine.SameButDrawn n ∧ s = { r with machine := n }

theorem SameButDrawn.machine (h : SameButDrawn r s) : r.machine.SameButDrawn s.machine := by
  obtain ⟨_, hmachine, rfl⟩ := h
  exact hmachine

theorem SameButDrawn.replace {m n : Machine} (h : SameButDrawn r s) (hmachine : m.SameButDrawn n) :
    SameButDrawn { r with machine := m } { s with machine := n } := by
  obtain ⟨_, _, rfl⟩ := h
  exact ⟨n, hmachine, rfl⟩

theorem SameButDrawn.symm (h : SameButDrawn r s) : SameButDrawn s r := by
  obtain ⟨_, hmachine, rfl⟩ := h
  exact ⟨r.machine, hmachine.symm, rfl⟩

theorem sameButDrawn_ofMachine {m n : Machine} (h : m.SameButDrawn n) (interval : Nat) :
    SameButDrawn (ofMachine m interval) (ofMachine n interval) :=
  ⟨n, h, rfl⟩

theorem restart_eq (r : Runner) : r.restart = ofMachine r.machine.reset r.interval := by
  rw [restart, ofMachine]

end Runner

namespace Run

variable {σ : Type} {observe : Observer σ} {r s : Run σ}

def SameButDrawn (r s : Run σ) : Prop :=
  ∃ runner, r.runner.SameButDrawn runner ∧ s = { r with runner := runner }

theorem SameButDrawn.runner (h : SameButDrawn r s) : r.runner.SameButDrawn s.runner := by
  obtain ⟨_, hrunner, rfl⟩ := h
  exact hrunner

theorem SameButDrawn.stopped (h : SameButDrawn r s) : r.runner.stopped = s.runner.stopped := by
  obtain ⟨_, ⟨_, _, rfl⟩, rfl⟩ := h
  rfl

theorem SameButDrawn.note (h : SameButDrawn r s) (events : List Event) :
    SameButDrawn (r.note events) (s.note events) := by
  obtain ⟨runner, hrunner, rfl⟩ := h
  exact ⟨runner, hrunner, rfl⟩

theorem SameButDrawn.present (h : SameButDrawn r s) :
    SameButDrawn (r.present observe) (s.present observe) := by
  obtain ⟨_, ⟨_, ⟨source, hwords, rfl⟩, rfl⟩, rfl⟩ := h
  rw [Run.present, Run.present]
  have hscreen : (r.runner.machine.drawFrom source).screen = r.runner.machine.screen := rfl
  dsimp only
  rw [hscreen]
  split
  · exact ⟨_, ⟨_, ⟨source, hwords, rfl⟩, rfl⟩, rfl⟩
  · exact ⟨_, ⟨_, ⟨source, hwords, rfl⟩, rfl⟩, rfl⟩

theorem SameButDrawn.complete {m n : Machine} (h : SameButDrawn r s)
    (hmachine : m.SameButDrawn n) :
    SameButDrawn (r.complete observe m) (s.complete observe n) := by
  obtain ⟨_, hrunner, rfl⟩ := h
  exact SameButDrawn.present ⟨_, hrunner.replace hmachine, rfl⟩

theorem SameButDrawn.advance (h : SameButDrawn r s) :
    SameButDrawn (r.advance observe).1 (s.advance observe).1 := by
  have hsame := h.runner.machine.fatal?
  have hevents := h.runner.machine.tickEvents
  obtain ⟨-, htick⟩ := h.runner.machine.tick
  cases hfatal : r.runner.machine.fatal? with
  | none =>
    rw [advance_of_none hfatal, advance_of_none (hsame.symm.trans hfatal), ← hevents]
    exact (h.note _).complete htick
  | some f =>
    rw [advance_of_fatal hfatal, advance_of_fatal (hsame.symm.trans hfatal), ← hevents]
    obtain ⟨runner, hrunner, rfl⟩ := h
    have hticked : Runner.SameButDrawn
        { r.runner with machine := r.runner.machine.tick.machine }
        { runner with machine := runner.machine.tick.machine } := hrunner.replace htick
    exact SameButDrawn.note ⟨_, hticked, rfl⟩ _

theorem SameButDrawn.continueFor (h : SameButDrawn r s) (observe : Observer σ) (n : Nat) :
    SameButDrawn (r.continueFor observe n).1 (s.continueFor observe n).1 ∧
      (r.continueFor observe n).2 = (s.continueFor observe n).2 := by
  -- along the loop: both runs go on, or both end for the same reason
  induction n generalizing r s with
  | zero =>
    rw [Run.continueFor, Run.continueFor, h.stopped]
    exact ⟨h, rfl⟩
  | succ n ih =>
    cases hstopped : r.runner.stopped with
    | true =>
      rw [continueFor_of_stopped _ _ _ hstopped,
        continueFor_of_stopped _ _ _ (h.stopped.symm.trans hstopped)]
      exact ⟨h, rfl⟩
    | false =>
      have hstopped' := h.stopped.symm.trans hstopped
      have hsame := h.runner.machine.fatal?
      cases hfatal : r.runner.machine.fatal? with
      | none =>
        rw [continueFor_of_none hstopped hfatal,
          continueFor_of_none hstopped' (hsame.symm.trans hfatal)]
        exact ih h.advance
      | some f =>
        rw [continueFor_of_fatal hstopped hfatal,
          continueFor_of_fatal hstopped' (hsame.symm.trans hfatal)]
        exact ⟨h.advance, rfl⟩

end Run

def Report.SameButDrawn {σ : Type} (p q : Report σ) : Prop :=
  ∃ runner, p.runner.SameButDrawn runner ∧ q = { p with runner := runner }

theorem Run.SameButDrawn.report {σ : Type} {r s : Run σ} (h : r.SameButDrawn s)
    (ending : Ending) : (r.report ending).SameButDrawn (s.report ending) := by
  obtain ⟨runner, hrunner, rfl⟩ := h
  cases ending with
  | exhausted => exact ⟨runner, hrunner, rfl⟩
  | stopped => exact ⟨runner, hrunner, rfl⟩
  | failed f => exact ⟨runner, hrunner, rfl⟩

namespace Runner

variable {σ : Type} {r s : Runner}

theorem SameButDrawn.runFor (h : SameButDrawn r s) (n : Nat) (observe : Observer σ) (seen : σ) :
    (r.runFor n observe seen).SameButDrawn (s.runFor n observe seen) ∧
      ((r.begin seen).continueFor observe n).2 = ((s.begin seen).continueFor observe n).2 := by
  have hbegin : (r.begin seen).SameButDrawn (s.begin seen) := ⟨s, h, rfl⟩
  obtain ⟨hcourse, hending⟩ := hbegin.continueFor observe n
  rw [Runner.runFor, Runner.runFor, ← hending]
  exact ⟨hcourse.report _, rfl⟩

theorem SameButDrawn.returns {limit : Option Nat} {observe : Observer σ} {seen : σ}
    {report : Report σ} (h : SameButDrawn r s)
    (hreturns : r.Returns limit observe seen report) :
    ∃ other, report.SameButDrawn other ∧ s.Returns limit observe seen other := by
  cases limit with
  | some n =>
    obtain rfl : r.runFor n observe seen = report := hreturns
    exact ⟨_, (h.runFor n observe seen).1, rfl⟩
  | none =>
    obtain ⟨fuel, hfuel⟩ := hreturns
    obtain ⟨hends, rfl⟩ := run?_eq_some_iff.1 hfuel
    obtain ⟨hreport, hending⟩ := h.runFor fuel observe seen
    rw [hending] at hends
    exact ⟨_, hreport, returns_runFor hends⟩

end Runner

/-! ### Commands -/

inductive Command (σ : Type)
  | operate (operation : Operation)
  | stop
  | restart
  | run (limit : Option Nat) (observe : Observer σ)

inductive Response
  | replied (answer : Except Fault Reply)
  | done
  | ran (answer : Except Fault Nat) (frames : Array Grid) (log : Array Event)

namespace Runner

variable {σ : Type} {r s t : Runner} {seen next last : σ}

/-- How a runner serves a command.  The state of the observer is carried along.  A run
without a limit may go on for ever, and then nothing is answered. -/
inductive Serves (r : Runner) (seen : σ) : Command σ → Runner → σ → Response → Prop
  | operate (o : Operation) :
      Serves r seen (.operate o) (r.perform o) seen (.replied (r.machine.perform o).answer)
  | stop : Serves r seen .stop r.stop seen .done
  | restart :
      Serves r seen .restart r.restart seen (.replied (r.machine.perform .reset).answer)
  | run {limit : Option Nat} {observe : Observer σ} {report : Report σ}
      (returns : r.Returns limit observe seen report) :
      Serves r seen (.run limit observe) report.runner report.observer
        (.ran report.answer report.frames report.log)

/-- A runner serves commands one after the other.  Beside each response stands the flag of
the screen behind it. -/
inductive Session : Runner → σ → List (Command σ) → List (Response × Bool) → Runner → σ → Prop
  | nil (r : Runner) (seen : σ) : Session r seen [] [] r seen
  | cons {r s t : Runner} {seen next last : σ} {command : Command σ}
      {commands : List (Command σ)} {response : Response} {responses : List (Response × Bool)}
      (first : r.Serves seen command s next response)
      (rest : Session s next commands responses t last) :
      Session r seen (command :: commands)
        ((response, s.machine.screen.dirty) :: responses) t last

theorem SameButDrawn.dirty (h : SameButDrawn r s) :
    r.machine.screen.dirty = s.machine.screen.dirty := by
  obtain ⟨_, ⟨_, _, rfl⟩, rfl⟩ := h
  rfl

theorem SameButDrawn.serves {command : Command σ} {response : Response}
    (h : SameButDrawn r s) (hserves : r.Serves seen command t next response) :
    ∃ u, SameButDrawn t u ∧ s.Serves seen command u next response := by
  cases hserves with
  | operate o =>
    obtain ⟨hanswer, hmachine⟩ := h.machine.perform o
    rw [hanswer]
    exact ⟨_, h.replace hmachine, .operate o⟩
  | stop =>
    obtain ⟨n, hmachine, rfl⟩ := h
    exact ⟨_, ⟨n, hmachine, rfl⟩, .stop⟩
  | restart =>
    obtain ⟨n, hmachine, rfl⟩ := h
    exact ⟨_, ⟨n.reset, (hmachine.perform .reset).2, rfl⟩, .restart⟩
  | run hreturns =>
    obtain ⟨_, ⟨runner, hrunner, rfl⟩, hother⟩ := h.returns hreturns
    exact ⟨runner, hrunner, .run hother⟩

theorem SameButDrawn.session {commands : List (Command σ)} {responses : List (Response × Bool)}
    (h : SameButDrawn r s) (hsession : r.Session seen commands responses t last) :
    ∃ u, SameButDrawn t u ∧ s.Session seen commands responses u last := by
  induction hsession generalizing s with
  | nil r seen => exact ⟨s, h, .nil s seen⟩
  | cons first rest ih =>
    obtain ⟨_, hnext, hfirst⟩ := h.serves first
    obtain ⟨u, hlast, hrest⟩ := ih hnext
    rw [hnext.dirty]
    exact ⟨u, hlast, .cons hfirst hrest⟩

/-! ### Behind a restart -/

/-- A reset always succeeds, and what a host does from then on is answered as by a new
machine that was given the same settings and a random source with the same words to come:
every operation answers alike, and at every position of the run the machines are the same
but for the words drawn before, whatever operations led to the first.  If the source is the
very same then so are the machines.  Likewise a restarted runner and a new one around such a
machine: a session of one is a session of the other, response for response, with the same
flag of the screen behind each command and the same observer at the end. -/
theorem restart_forgets (r : Runner) (random source : RandomSource)
    (h : source.upcoming = r.machine.random.upcoming) (seen last : σ) :
    r.machine.reset? = some ⟨r.machine.reset, .ok ()⟩ ∧
    (∀ operations t,
      (∀ u < t, ∀ o, operations[u]? = some o →
        ((r.machine.reset.before operations u).perform o).answer =
          (((Machine.fitted random r.machine.settings source).before operations u).perform
            o).answer) ∧
      (r.machine.reset.before operations t).SameButDrawn
        ((Machine.fitted random r.machine.settings source).before operations t)) ∧
    Machine.fitted random r.machine.settings r.machine.random = r.machine.reset ∧
    (∀ commands responses s, r.restart.Session seen commands responses s last →
      ∃ t, s.SameButDrawn t ∧
        (ofMachine (Machine.fitted random r.machine.settings source) r.interval).Session seen
          commands responses t last) ∧
    ∀ commands responses t,
      (ofMachine (Machine.fitted random r.machine.settings source) r.interval).Session seen
          commands responses t last →
        ∃ s, s.SameButDrawn t ∧ r.restart.Session seen commands responses s last := by
  have hreset := Machine.sameButDrawn_reset h random
  have hrestart : r.restart.SameButDrawn
      (ofMachine (Machine.fitted random r.machine.settings source) r.interval) := by
    rw [restart_eq]
    exact sameButDrawn_ofMachine hreset r.interval
  refine ⟨r.machine.reset?_eq, hreset.before, Machine.fitted_eq _ _ _, ?_, ?_⟩
  · intro commands responses s hsession
    exact hrestart.session hsession
  · intro commands responses t hsession
    obtain ⟨s, hlast, hother⟩ := hrestart.symm.session hsession
    exact ⟨s, hlast.symm, hother⟩

/-- A runner that was stopped in the middle of a program: it has drawn a word, its timers
stand still, and it waits for a key to be let go of. -/
def worn : Runner :=
  (ofMachine ((Machine.fresh (RandomSource.ofWords [7, 8])).performAll
    [.configure .xorSetsFlag false, .load [0xC0, 0xFF, 0xF0, 0x0A] 0x200, .press (some 5),
      .tick, .tick, .pause]) 1000).stop

/-- A program that draws a glyph at a random place. -/
def scatter : List UInt8 :=
  [0xC0, 0x0F, 0xD0, 0x05]

theorem restart_forgets_worn :
    worn.stopped = true ∧ worn.machine.random.drawn = 1 ∧
      worn.machine.keypad.awaited = some 5 ∧
      ∃ frames log t,
        (ofMachine (Machine.fitted (RandomSource.ofWords []) worn.machine.settings
          worn.machine.random.remaining) worn.interval).Session 0
          [.operate (.load scatter 0x200), .run none (stopAtFrame 1)]
          [(.replied (.ok (.loaded 4)), false), (.ran (.ok 2) frames log, false)] t 1 := by
  have hworn : worn.stopped = true ∧ worn.machine.random.drawn = 1 ∧
      worn.machine.keypad.awaited = some 5 := by
    decide +kernel
  let loaded := worn.restart.perform (.load scatter 0x200)
  let report := loaded.runFor 2 (stopAtFrame 1) 0
  have hreturns : loaded.Returns none (stopAtFrame 1) 0 report :=
    returns_runFor (by decide +kernel)
  have hsession := Session.cons (.operate _) (.cons (.run hreturns) (.nil report.runner _))
  have hserved : (worn.restart.machine.perform (.load scatter 0x200)).answer =
        .ok (.loaded 4) ∧
      loaded.machine.screen.dirty = false ∧ report.answer = .ok 2 ∧
      report.runner.machine.screen.dirty = false ∧ report.observer = 1 := by
    decide +kernel
  obtain ⟨hloaded, hclean, hanswer, hshown, hcounted⟩ := hserved
  rw [hloaded, hclean, hanswer, hshown, hcounted] at hsession
  obtain ⟨-, -, -, hnew, -⟩ := restart_forgets worn (RandomSource.ofWords [])
    worn.machine.random.remaining (RandomSource.upcoming_remaining _) 0 1
  obtain ⟨t, -, hsame⟩ := hnew _ _ _ hsession
  exact ⟨hworn.1, hworn.2.1, hworn.2.2, _, _, t, hsame⟩

end Runner

end ChipEight
