import ChipEight.Proofs.Runner.Course

/-!
Runs in parts.  Where a run is cut makes no difference: what it leaves for the next one
is the runner and the state of the observer, and the ticks and frames of the parts add
up to those of the whole.  In particular a request to stop that ends one part leaves
nothing to the later ones, until the runner is restarted.
-/

namespace ChipEight

namespace Run

variable {σ : Type} {observe : Observer σ}

/-- The run with the ticks, frames and log of an earlier one before its own. -/
def behind (r past : Run σ) : Run σ :=
  { r with
    ticks := past.ticks + r.ticks
    frames := past.frames ++ r.frames
    log := past.log ++ r.log }

theorem begin_behind (r : Run σ) : (r.runner.begin r.observer).behind r = r := by
  simp [behind, Runner.begin]

theorem note_behind (r past : Run σ) (events : List Event) :
    (r.behind past).note events = (r.note events).behind past := by
  have hlog : past.log ++ r.log ++ events = past.log ++ (r.log ++ events) := by
    apply Array.toList_inj.1
    simp
  simp only [behind, note, hlog]

theorem complete_behind (r past : Run σ) (machine : Machine) :
    (r.behind past).complete observe machine = (r.complete observe machine).behind past := by
  rw [complete, complete, present, present]
  dsimp only [behind]
  split
  · simp [Nat.add_assoc]
  · simp [Nat.add_assoc]

theorem advance_behind (r past : Run σ) :
    (r.behind past).advance observe =
      ((r.advance observe).1.behind past, (r.advance observe).2) := by
  have hmachine : (r.behind past).runner.machine = r.runner.machine := rfl
  cases h : r.runner.machine.fatal? with
  | none =>
    rw [advance_of_none h, advance_of_none (hmachine ▸ h), hmachine, note_behind, complete_behind]
  | some f =>
    rw [advance_of_fatal h, advance_of_fatal (hmachine ▸ h), ← note_behind]
    rfl

theorem continueFor_behind (r past : Run σ) (n : Nat) :
    (r.behind past).continueFor observe n =
      ((r.continueFor observe n).1.behind past, (r.continueFor observe n).2) := by
  induction n generalizing r with
  | zero => rfl
  | succ n ih =>
    have hstopped : (r.behind past).runner.stopped = r.runner.stopped := rfl
    rw [continueFor, continueFor, hstopped, advance_behind]
    split
    · rfl
    · rcases r.advance observe with ⟨next, _ | f⟩
      · exact ih next
      · rfl

end Run

/-- One report is another with these frames and this number of ticks before its own. -/
structure Report.Prepends {σ : Type} (frames : Array Grid) (ticks : Nat)
    (second whole : Report σ) : Prop where
  runner : whole.runner = second.runner
  observer : whole.observer = second.observer
  frames : whole.frames = frames ++ second.frames
  answer : whole.answer = second.answer.map (ticks + ·)

/-- A run that goes on reports what a new run from there would, behind what it has. -/
theorem Run.prepends_continueFor {σ : Type} (r : Run σ) (observe : Observer σ) (n : Nat) :
    Report.Prepends r.frames r.ticks (r.runner.runFor n observe r.observer)
      ((r.continueFor observe n).1.report (r.continueFor observe n).2) := by
  have hbehind : r.continueFor observe n =
      (((r.runner.begin r.observer).continueFor observe n).1.behind r,
        ((r.runner.begin r.observer).continueFor observe n).2) := by
    rw [← continueFor_behind, r.begin_behind]
  rw [hbehind, Runner.runFor]
  generalize (r.runner.begin r.observer).continueFor observe n = ended
  obtain ⟨last, ending⟩ := ended
  cases ending with
  | exhausted => exact ⟨rfl, rfl, rfl, rfl⟩
  | stopped => exact ⟨rfl, rfl, rfl, rfl⟩
  | failed f => exact ⟨rfl, rfl, rfl, rfl⟩

namespace Runner

variable {σ : Type} {r s : Runner} {observe : Observer σ} {observer : σ}

/-! ### Two runs in a row -/

theorem runFor_add_of_error {a : Nat} {f : Fault}
    (h : (r.runFor a observe observer).answer = .error f) (b : Nat) :
    r.runFor (a + b) observe observer = r.runFor a observe observer := by
  simp only [runFor, Run.continueFor_add] at h ⊢
  generalize (r.begin observer).continueFor observe a = ended at h ⊢
  obtain ⟨next, ending⟩ := ended
  cases ending with
  | failed g => rfl
  | exhausted => cases h
  | stopped => cases h

theorem runFor_add_of_ok {a ticks : Nat}
    (h : (r.runFor a observe observer).answer = .ok ticks) (b : Nat) :
    Report.Prepends (r.runFor a observe observer).frames ticks
      ((r.runFor a observe observer).runner.runFor b observe
        (r.runFor a observe observer).observer)
      (r.runFor (a + b) observe observer) := by
  have hwhole : r.runFor (a + b) observe observer =
      (((r.begin observer).continueFor observe (a + b)).1.report
        ((r.begin observer).continueFor observe (a + b)).2) := rfl
  have hfirst : r.runFor a observe observer =
      (((r.begin observer).continueFor observe a).1.report
        ((r.begin observer).continueFor observe a).2) := rfl
  rw [hfirst] at h ⊢
  rw [hwhole, Run.continueFor_add]
  generalize (r.begin observer).continueFor observe a = ended at h ⊢
  obtain ⟨next, ending⟩ := ended
  cases ending with
  | failed g => cases h
  | exhausted =>
    obtain rfl : next.ticks = ticks := Except.ok.inj h
    exact next.prepends_continueFor observe b
  | stopped =>
    obtain rfl : next.ticks = ticks := Except.ok.inj h
    exact next.prepends_continueFor observe b

/-! ### Requests to stop -/

/-- What a host can make of a runner without restarting it: it may do anything to the
machine, ask to stop, and run it, whoever observes the runs. -/
inductive LeadsTo : Runner → Runner → Prop
  | refl (r : Runner) : LeadsTo r r
  | perform {r s : Runner} (o : Operation) : LeadsTo r s → LeadsTo r (s.perform o)
  | stop {r s : Runner} : LeadsTo r s → LeadsTo r s.stop
  | run {r s : Runner} {σ : Type} (limit : Option Nat) (observe : Observer σ) (observer : σ)
      (report : Report σ) :
      LeadsTo r s → s.Returns limit observe observer report → LeadsTo r report.runner

/-- A runner that was asked to stop returns at once from every run and has done
nothing. -/
theorem returns_iff_of_stopped (h : r.stopped = true) (limit : Option Nat)
    (report : Report σ) :
    r.Returns limit observe observer report ↔
      report = ⟨r, observer, .ok 0, #[], #[.runEnded 0]⟩ := by
  have hat_once (n : Nat) :
      (r.begin observer).continueFor observe n = (r.begin observer, .stopped) :=
    Run.continueFor_of_stopped observe n _ h
  cases limit with
  | some n =>
    rw [Returns, runFor, hat_once]
    exact eq_comm
  | none =>
    simp only [Returns, run?, hat_once, Option.some.injEq, exists_const]
    exact eq_comm

theorem LeadsTo.stopped (h : r.LeadsTo s) (hr : r.stopped = true) : s.stopped = true := by
  induction h with
  | refl => exact hr
  | perform o _ ih => exact ih
  | stop _ _ => rfl
  | run limit observe observer report _ hreturns ih =>
    rw [(returns_iff_of_stopped ih limit report).1 hreturns]
    exact ih

/-- A run of `a` ticks and one of `b` ticks in a row, with the observer going on where it
was, are a run of `a + b` ticks: they end with the same runner and observer, the frames
of both come one after the other, and the ticks add up.  If the first one fails, so does
the whole in the same way.  A runner that was asked to stop, be it by an observer or by
its host, has nothing but empty runs until it is restarted. -/
theorem runFor_add (r : Runner) (a b : Nat) (observe : Observer σ) (observer : σ) :
    (∀ ticks, (r.runFor a observe observer).answer = .ok ticks →
      Report.Prepends (r.runFor a observe observer).frames ticks
        ((r.runFor a observe observer).runner.runFor b observe
          (r.runFor a observe observer).observer)
        (r.runFor (a + b) observe observer)) ∧
    (∀ f, (r.runFor a observe observer).answer = .error f →
      r.runFor (a + b) observe observer = r.runFor a observe observer) ∧
    (r.stopped = true → ∀ s, r.LeadsTo s → s.stopped = true ∧
      ∀ (limit : Option Nat) (later : Observer σ) (state : σ) (report : Report σ),
        s.Returns limit later state report ↔
          report = ⟨s, state, .ok 0, #[], #[.runEnded 0]⟩) ∧
    r.stop.stopped = true ∧ r.restart.stopped = false := by
  refine ⟨fun ticks h => runFor_add_of_ok h b, fun f h => runFor_add_of_error h b, ?_, rfl, rfl⟩
  intro hstopped s hleads
  have hstill := hleads.stopped hstopped
  exact ⟨hstill, fun limit later state report => returns_iff_of_stopped hstill limit report⟩

/-- A runner of a program that draws a glyph, clears the screen and returns from no
call. -/
def flashing : Runner :=
  ofMachine ((Machine.fresh (RandomSource.ofWords [])).load
    [0xD0, 0x05, 0x00, 0xE0, 0x00, 0xEE] 0x200).machine 0

theorem runFor_add_flashing :
    (flashing.runFor 1 (stopAtFrame 9) 0).answer = .ok 1 ∧
      Report.Prepends (flashing.runFor 1 (stopAtFrame 9) 0).frames 1
        ((flashing.runFor 1 (stopAtFrame 9) 0).runner.runFor 4 (stopAtFrame 9)
          (flashing.runFor 1 (stopAtFrame 9) 0).observer)
        (flashing.runFor (1 + 4) (stopAtFrame 9) 0) ∧
      (flashing.runFor 3 (stopAtFrame 9) 0).answer = .error (.stackUnderflow 0x204) ∧
      flashing.runFor (3 + 4) (stopAtFrame 9) 0 = flashing.runFor 3 (stopAtFrame 9) 0 ∧
      flashing.stop.Returns none (stopAtFrame 9) 0
        ⟨flashing.stop, 0, .ok 0, #[], #[.runEnded 0]⟩ := by
  have hfirst : (flashing.runFor 1 (stopAtFrame 9) 0).answer = .ok 1 := by decide +kernel
  have hfails : (flashing.runFor 3 (stopAtFrame 9) 0).answer =
      .error (.stackUnderflow 0x204) := by
    decide +kernel
  have hstill := (runFor_add flashing.stop 0 0 (stopAtFrame 9) 0).2.2.1 rfl _ (.refl _)
  exact ⟨hfirst, (runFor_add flashing 1 4 (stopAtFrame 9) 0).1 1 hfirst, hfails,
    (runFor_add flashing 3 4 (stopAtFrame 9) 0).2.1 _ hfails,
    (hstill.2 none (stopAtFrame 9) 0 _).2 rfl⟩

end Runner

end ChipEight
