import ChipEight.Proofs.Runner.Course

/-!
A run is nothing but ticks.  Handing frames over, looking for a request to stop and
skipping over undefined words leave no trace in the machine but the flag of its screen:
it is the machine that as many bare ticks make, and a run that fails does so at the
first of them that is fatal.
-/

namespace ChipEight.Runner

variable {σ : Type}

/-- A run that returns a number of ticks has made as many bare ticks, none of them
fatal, and is short of its limit only on request.  A run that returns a fault has made
the bare ticks up to the first fatal one, which answered with that fault.  Neither
depends on how the frames are observed or how long the ticks are apart, and undefined
words count as ticks like other words. -/
theorem machine_of_returns (r : Runner) (limit : Option Nat) (observe : Observer σ)
    (observer : σ) (report : Report σ) (h : r.Returns limit observe observer report) :
    (∀ k, report.answer = .ok k →
      report.runner.machine.shown = (r.machine.afterTicks k).shown ∧
        r.machine.Survives k ∧ (∀ n ∈ limit, k ≤ n) ∧
        (limit ≠ some k → report.runner.stopped = true)) ∧
    ∀ f, report.answer = .error f →
      (∀ word a, f ≠ .undefinedWord word a) ∧
        ∃ k, (∀ n ∈ limit, k < n) ∧ r.machine.Survives k ∧ r.machine.FailsAt k f ∧
          report.runner.machine.shown = (r.machine.afterTicks (k + 1)).shown := by
  cases h.finish with
  | ended k within completes ends =>
    constructor
    · intro ticks hticks
      have hcount : ((r.begin observer).after observe k).ticks = ticks := Except.ok.inj hticks
      rw [completes.ticks] at hcount
      obtain rfl : k = ticks := (Nat.zero_add k).symm.trans hcount
      exact ⟨completes.machine, completes.survives, within, ends.resolve_left⟩
    · intro f hf
      cases hf
  | failed k within completes f fails =>
    constructor
    · intro ticks hticks
      cases hticks
    · intro g hg
      obtain rfl := Except.error.inj hg
      have hfails : r.machine.FailsAt k f := completes.failsAt fails
      refine ⟨?_, k, within, completes.survives, hfails, ?_⟩
      · rintro word a rfl
        cases hfails.2
      · change (((r.begin observer).after observe k).advance observe).1.runner.machine.shown = _
        rw [Run.advance_of_fatal fails]
        exact (Machine.tick_congr completes.machine).2

/-- A runner of a program that has an undefined word, draws a glyph and returns from
no call. -/
def crashing : Runner :=
  ofMachine ((Machine.fresh (RandomSource.ofWords [])).load
    [0xFF, 0xFF, 0xD0, 0x05, 0x00, 0xEE] 0x200).machine 1000

theorem machine_of_returns_crashing :
    crashing.Returns none (stopAtFrame 2) 0 (crashing.runFor 5 (stopAtFrame 2) 0) ∧
      (crashing.runFor 5 (stopAtFrame 2) 0).answer = .error (.stackUnderflow 0x204) ∧
      ∃ k, crashing.machine.Survives k ∧
        crashing.machine.FailsAt k (.stackUnderflow 0x204) ∧
        (crashing.runFor 5 (stopAtFrame 2) 0).runner.machine.shown =
          (crashing.machine.afterTicks (k + 1)).shown := by
  have hreturns : crashing.Returns none (stopAtFrame 2) 0 (crashing.runFor 5 (stopAtFrame 2) 0) :=
    returns_runFor (by decide +kernel)
  have hanswer : (crashing.runFor 5 (stopAtFrame 2) 0).answer =
      .error (.stackUnderflow 0x204) := by
    decide +kernel
  obtain ⟨-, k, -, hsurvives, hfails, hmachine⟩ :=
    (machine_of_returns crashing none (stopAtFrame 2) 0 _ hreturns).2 _ hanswer
  exact ⟨hreturns, hanswer, k, hsurvives, hfails, hmachine⟩

end ChipEight.Runner
