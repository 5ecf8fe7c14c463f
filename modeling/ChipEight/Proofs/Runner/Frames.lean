import ChipEight.Proofs.Runner.Course

/-!
Which frames a run hands over.  The observer is called behind a tick that touched the
screen, and behind the first tick if the screen had not been shown when the run began;
it gets the frame of that tick.  So a host that keeps the last frame it was handed has
what is on the screen when the run returns, unless nothing was to be shown.
-/

namespace ChipEight

/-- Whether a run on this machine shows the screen behind tick `j`, counted from zero. -/
def Machine.presentsAt (m : Machine) (j : Nat) : Bool :=
  (m.afterTicks j).touches || (j == 0 && m.screen.dirty)

namespace Run

variable {σ : Type} {observe : Observer σ} {r : Run σ} {j k : Nat}

/-- Between one state of a run and the next the observer was called once, with this
frame. -/
structure HandsOver (observe : Observer σ) (r next : Run σ) (grid : Grid) : Prop where
  frames : next.frames = r.frames.push grid
  observer : next.observer = (observe r.observer grid).1
  stopped : next.runner.stopped = (r.runner.stopped || (observe r.observer grid).2)

/-- Between one state of a run and the next the observer was not called. -/
structure Silent (r next : Run σ) : Prop where
  frames : next.frames = r.frames
  observer : next.observer = r.observer
  stopped : next.runner.stopped = r.runner.stopped

theorem handsOver_advance (h : r.runner.machine.fatal? = none)
    (hdirty : r.runner.machine.tick.machine.screen.dirty = true) :
    HandsOver observe r (r.advance observe).1 r.runner.machine.tick.machine.frame := by
  rw [advance_of_none h, complete, present]
  dsimp only
  rw [if_pos hdirty]
  exact ⟨rfl, rfl, rfl⟩

theorem silent_advance (h : r.runner.machine.fatal? = none)
    (hclean : r.runner.machine.tick.machine.screen.dirty = false) :
    Silent r (r.advance observe).1 := by
  rw [advance_of_none h, complete, present]
  dsimp only
  rw [if_neg (Bool.eq_false_iff.1 hclean)]
  exact ⟨rfl, rfl, rfl⟩

theorem silent_advance_of_fatal {f : Fault} (h : r.runner.machine.fatal? = some f) :
    Silent r (r.advance observe).1 := by
  rw [advance_of_fatal h]
  exact ⟨rfl, rfl, rfl⟩

theorem Completes.dirty (h : r.Completes observe k) :
    (r.after observe k).runner.machine.screen.dirty =
      (k == 0 && r.runner.machine.screen.dirty) := by
  cases k with
  | zero => rfl
  | succ k =>
    rw [after, machine_advance (h k (Nat.lt_succ_self k)).2]
    rfl

theorem Completes.dirty_tick (h : r.Completes observe k) :
    (r.after observe k).runner.machine.tick.machine.screen.dirty =
      r.runner.machine.presentsAt k := by
  rw [Machine.dirty_tick, h.dirty, Machine.touches_congr h.machine, Machine.presentsAt,
    Bool.or_comm]

/-- The observer is called behind a completed tick exactly if the run shows the screen
there, and it gets the frame that the bare tick leaves. -/
theorem Completes.handsOver (h : r.Completes observe k) (hj : j < k) :
    (r.runner.machine.presentsAt j = true →
      HandsOver observe (r.after observe j) (r.after observe (j + 1))
        (r.runner.machine.afterTicks (j + 1)).frame) ∧
    (r.runner.machine.presentsAt j = false →
      Silent (r.after observe j) (r.after observe (j + 1))) := by
  have hearlier := h.mono (Nat.le_of_lt hj)
  have hsurvived := (h j hj).2
  rw [← hearlier.dirty_tick]
  constructor
  · intro hdirty
    have hframe : (r.runner.machine.afterTicks (j + 1)).frame =
        (r.after observe j).runner.machine.tick.machine.frame :=
      Machine.frame_congr (Machine.tick_congr hearlier.machine.symm).2
    rw [hframe]
    exact handsOver_advance hsurvived hdirty
  · exact silent_advance hsurvived

/-- What a run has on the screen is the frame it handed over last, or what was there
when it began. -/
theorem Completes.frame (hbegin : r.frames = #[]) (h : r.Completes observe k) :
    (r.after observe k).runner.machine.frame =
      (r.after observe k).frames.back?.getD r.runner.machine.frame := by
  -- a tick behind which nothing is handed over has left the screen as it was
  induction k with
  | zero => rw [after, hbegin]; rfl
  | succ k ih =>
    have hearlier := h.mono (Nat.le_succ k)
    have hsurvived := (h k (Nat.lt_succ_self k)).2
    have hmachine : ((r.after observe k).advance observe).1.runner.machine =
        (r.after observe k).runner.machine.tick.machine.shown := machine_advance hsurvived
    rw [after, hmachine]
    cases hdirty : (r.after observe k).runner.machine.tick.machine.screen.dirty with
    | true =>
      rw [(handsOver_advance hsurvived hdirty).frames, Array.back?_push]
      rfl
    | false =>
      have hgrid := congrArg Screen.grid (Machine.screen_tick_of_clean hdirty)
      rw [(silent_advance hsurvived hdirty).frames, ← ih hearlier]
      exact hgrid

end Run

/-- The run that gave this report on this machine has completed `k` ticks. -/
structure Report.Completed {σ : Type} (report : Report σ) (m : Machine) (k : Nat) : Prop where
  of_ok : ∀ ticks, report.answer = .ok ticks → ticks = k
  of_error : ∀ f, report.answer = .error f → m.Survives k ∧ m.FailsAt k f

namespace Runner

variable {σ : Type} {r : Runner} {limit : Option Nat} {observe : Observer σ} {observer : σ}
  {report : Report σ}

theorem Finish.screen (h : r.Finish limit observe observer report) :
    ∃ k, report.Completed r.machine k ∧ (r.begin observer).Completes observe k ∧
      report.frames = ((r.begin observer).after observe k).frames ∧
      report.observer = ((r.begin observer).after observe k).observer ∧
      report.runner.machine.screen =
        ((r.begin observer).after observe k).runner.machine.screen := by
  cases h with
  | ended k within completes ends =>
    have hcount : ((r.begin observer).after observe k).ticks = k :=
      completes.ticks.trans (Nat.zero_add k)
    refine ⟨k, ⟨fun ticks hticks => ?_, fun f hf => ?_⟩, completes, rfl, rfl, rfl⟩
    · exact (Except.ok.inj hticks).symm.trans hcount
    · cases hf
  | failed k within completes f fails =>
    have hsilent : Run.Silent ((r.begin observer).after observe k)
        ((r.begin observer).after observe (k + 1)) := Run.silent_advance_of_fatal fails
    have hscreen : ((r.begin observer).after observe (k + 1)).runner.machine.screen =
        ((r.begin observer).after observe k).runner.machine.screen := by
      rw [Run.after, Run.advance_of_fatal fails]
      exact Machine.screen_tick_of_fatal fails
    refine ⟨k, ⟨fun ticks hticks => ?_, fun g hg => ?_⟩, completes, hsilent.frames,
      hsilent.observer, hscreen⟩
    · cases hticks
    · obtain rfl := Except.error.inj hg
      exact ⟨completes.survives, completes.failsAt fails⟩

/-- Behind a completed tick, whether or not the run ever returns, the observer is called
exactly if that tick cleared the screen or drew a sprite with a bit set, or if it was the first
and the screen was to be shown when the run began; the observer gets the frame of that tick.
When a run returns, nothing is left to be shown and the screen is the frame handed over last,
or what it was at the beginning; if no tick was completed it is as it was at the beginning, and
so is its flag. -/
theorem frames_of_returns (r : Runner) (limit : Option Nat) (observe : Observer σ)
    (observer : σ) :
    (∀ k, (r.begin observer).Completes observe k → ∀ j < k,
      (r.machine.presentsAt j = true →
        Run.HandsOver observe ((r.begin observer).after observe j)
          ((r.begin observer).after observe (j + 1)) (r.machine.afterTicks (j + 1)).frame) ∧
      (r.machine.presentsAt j = false →
        Run.Silent ((r.begin observer).after observe j)
          ((r.begin observer).after observe (j + 1)))) ∧
    ∀ report : Report σ, r.Returns limit observe observer report →
      ∃ k, report.Completed r.machine k ∧ (r.begin observer).Completes observe k ∧
        report.frames = ((r.begin observer).after observe k).frames ∧
        report.observer = ((r.begin observer).after observe k).observer ∧
        (0 < k → report.runner.machine.screen.dirty = false ∧
          report.runner.machine.frame = report.frames.back?.getD r.machine.frame) ∧
        (k = 0 → report.runner.machine.screen = r.machine.screen) := by
  refine ⟨fun k completes j hj => completes.handsOver hj, fun report h => ?_⟩
  obtain ⟨k, hcompleted, completes, hframes, hobserver, hscreen⟩ := h.finish.screen
  refine ⟨k, hcompleted, completes, hframes, hobserver, ?_, ?_⟩
  · intro hpos
    have hdirty := completes.dirty
    rw [← hscreen, beq_eq_false_iff_ne.2 (Nat.ne_of_gt hpos), Bool.false_and] at hdirty
    have hframe : report.runner.machine.frame =
        ((r.begin observer).after observe k).runner.machine.frame :=
      congrArg Screen.grid hscreen
    refine ⟨hdirty, ?_⟩
    rw [hframe, hframes]
    exact completes.frame rfl
  · rintro rfl
    exact hscreen

/-- A runner whose machine has just drawn a glyph, and clears and draws it in turn from
now on. -/
def blinking : Runner :=
  ofMachine (((Machine.fresh (RandomSource.ofWords [])).load
    [0x60, 0x01, 0xD0, 0x05, 0x00, 0xE0, 0x12, 0x02] 0x200).machine.afterTicks 2) 0

theorem frames_of_returns_blinking :
    blinking.Returns none (stopAtFrame 2) 0 (blinking.runFor 9 (stopAtFrame 2) 0) ∧
      (blinking.runFor 9 (stopAtFrame 2) 0).answer = .ok 3 ∧
      Run.HandsOver (stopAtFrame 2) (blinking.begin 0) ((blinking.begin 0).after (stopAtFrame 2) 1)
        (blinking.machine.afterTicks 1).frame ∧
      (blinking.runFor 9 (stopAtFrame 2) 0).runner.machine.screen.dirty = false ∧
      (blinking.runFor 9 (stopAtFrame 2) 0).runner.machine.frame =
        (blinking.runFor 9 (stopAtFrame 2) 0).frames.back?.getD blinking.machine.frame := by
  have hreturns : blinking.Returns none (stopAtFrame 2) 0 (blinking.runFor 9 (stopAtFrame 2) 0) :=
    returns_runFor (by decide +kernel)
  have hanswer : (blinking.runFor 9 (stopAtFrame 2) 0).answer = .ok 3 := by decide +kernel
  have hpresents : blinking.machine.presentsAt 0 = true := by decide +kernel
  obtain ⟨hticks, hreports⟩ := frames_of_returns blinking none (stopAtFrame 2) 0
  obtain ⟨k, hcompleted, completes, -, -, hshown, -⟩ := hreports _ hreturns
  obtain rfl := hcompleted.of_ok 3 hanswer
  obtain ⟨hclean, hframe⟩ := hshown (by decide)
  exact ⟨hreturns, hanswer, (hticks 3 completes 0 (by decide)).1 hpresents, hclean, hframe⟩

end Runner

end ChipEight
