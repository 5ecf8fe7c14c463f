import ChipEight.Proofs.Ticks
import ChipEight.Runner

/-!
The course of a run.  A run that goes on for a number of ticks makes one after the
other until a limit, a request to stop or a fatal tick ends it; `course_continueFor`
says how it has ended, by the number of ticks it has completed.  What a completed tick
does to a run is said field by field, so facts about whole runs go by induction on
that number and never open the loop again.
-/

namespace ChipEight

/-- What a tick tells the log of a run. -/
def Machine.tickEvents (m : Machine) : List Event :=
  m.stepEvents ++
    match m.tick.answer with
    | .ok _ => []
    | .error f => [if f.isFatal then .failed f else .skipped f]

namespace Run

variable {σ : Type} {observe : Observer σ} {r : Run σ}

/-! ### One tick -/

theorem advance_of_fatal {f : Fault} (h : r.runner.machine.fatal? = some f) :
    r.advance observe =
      ({ r with
        runner := { r.runner with machine := r.runner.machine.tick.machine } }.note
        r.runner.machine.tickEvents, some f) := by
  obtain ⟨hanswer, hfatal⟩ := Machine.fatal?_eq_some_iff.1 h
  simp only [advance, Machine.tickEvents, hanswer, hfatal, if_true]

theorem advance_of_none (h : r.runner.machine.fatal? = none) :
    r.advance observe =
      ((r.note r.runner.machine.tickEvents).complete observe r.runner.machine.tick.machine,
        none) := by
  rw [Machine.fatal?] at h
  simp only [advance, Machine.tickEvents]
  cases hanswer : r.runner.machine.tick.answer with
  | ok _ => simp only [List.append_nil]
  | error f =>
    rw [hanswer] at h
    cases hfatal : f.isFatal with
    | true => simp [hfatal] at h
    | false => simp [hfatal]

theorem advance_snd (r : Run σ) (observe : Observer σ) :
    (r.advance observe).2 = r.runner.machine.fatal? := by
  cases h : r.runner.machine.fatal? with
  | none => rw [advance_of_none h]
  | some f => rw [advance_of_fatal h]

/-- Behind a completed tick the screen counts as shown, whether or not its frame was
handed over. -/
theorem machine_advance (h : r.runner.machine.fatal? = none) :
    (r.advance observe).1.runner.machine = r.runner.machine.tick.machine.shown := by
  rw [advance_of_none h, complete, present]
  dsimp only
  split
  · rfl
  · rename_i hclean
    exact (Machine.shown_of_clean (Bool.eq_false_iff.2 hclean)).symm

theorem ticks_advance (h : r.runner.machine.fatal? = none) :
    (r.advance observe).1.ticks = r.ticks + 1 := by
  rw [advance_of_none h, complete, present]
  dsimp only
  split <;> rfl

/-! ### Several ticks -/

def after (r : Run σ) (observe : Observer σ) : Nat → Run σ
  | 0 => r
  | k + 1 => ((r.after observe k).advance observe).1

/-- The run makes and completes its next `k` ticks: before none of them it was asked
to stop, and none of them is fatal. -/
def Completes (r : Run σ) (observe : Observer σ) (k : Nat) : Prop :=
  ∀ j < k, (r.after observe j).runner.stopped = false ∧
    (r.after observe j).runner.machine.fatal? = none

theorem after_advance (r : Run σ) (observe : Observer σ) (k : Nat) :
    (r.advance observe).1.after observe k = r.after observe (k + 1) := by
  induction k with
  | zero => rfl
  | succ k ih =>
    rw [after, ih]
    rfl

theorem completes_zero (r : Run σ) (observe : Observer σ) : r.Completes observe 0 :=
  fun j hj => absurd hj (Nat.not_lt_zero j)

theorem Completes.mono {k n : Nat} (h : r.Completes observe n) (hkn : k ≤ n) :
    r.Completes observe k :=
  fun j hj => h j (Nat.lt_of_lt_of_le hj hkn)

theorem Completes.first {k : Nat} (hrunning : r.runner.stopped = false)
    (hsurvived : r.runner.machine.fatal? = none)
    (h : (r.advance observe).1.Completes observe k) : r.Completes observe (k + 1) := by
  intro j hj
  cases j with
  | zero => exact ⟨hrunning, hsurvived⟩
  | succ j =>
    rw [← after_advance]
    exact h j (Nat.lt_of_succ_lt_succ hj)

theorem Completes.ticks {k : Nat} (h : r.Completes observe k) :
    (r.after observe k).ticks = r.ticks + k := by
  induction k with
  | zero => rfl
  | succ k ih =>
    rw [after, ticks_advance (h k (Nat.lt_succ_self k)).2, ih (h.mono (Nat.le_succ k)),
      Nat.add_assoc]

/-- A run ticks its machine as it would be ticked alone, but for the flag of the
screen. -/
theorem Completes.machine {k : Nat} (h : r.Completes observe k) :
    (r.after observe k).runner.machine.shown = (r.runner.machine.afterTicks k).shown := by
  induction k with
  | zero => rfl
  | succ k ih =>
    rw [after, machine_advance (h k (Nat.lt_succ_self k)).2]
    exact (Machine.tick_congr (ih (h.mono (Nat.le_succ k)))).2

theorem Completes.survives {k : Nat} (h : r.Completes observe k) :
    r.runner.machine.Survives k := by
  rw [Machine.survives_iff]
  intro j hj
  rw [← Machine.fatal?_congr (h.mono (Nat.le_of_lt hj)).machine]
  exact (h j hj).2

theorem Completes.failsAt {k : Nat} {f : Fault} (h : r.Completes observe k)
    (hfails : (r.after observe k).runner.machine.fatal? = some f) :
    r.runner.machine.FailsAt k f := by
  rw [Machine.failsAt_iff, ← Machine.fatal?_congr h.machine]
  exact hfails

/-! ### How a run ends -/

/-- How a run that goes on for `n` ticks at most can end. -/
inductive Course (r : Run σ) (observe : Observer σ) (n : Nat) : Run σ → Ending → Prop
  | exhausted (completes : r.Completes observe n)
      (running : (r.after observe n).runner.stopped = false) :
      Course r observe n (r.after observe n) .exhausted
  | stopped (k : Nat) (within : k ≤ n) (completes : r.Completes observe k)
      (stops : (r.after observe k).runner.stopped = true) :
      Course r observe n (r.after observe k) .stopped
  | failed (k : Nat) (within : k < n) (completes : r.Completes observe k)
      (running : (r.after observe k).runner.stopped = false) (f : Fault)
      (fails : (r.after observe k).runner.machine.fatal? = some f) :
      Course r observe n (r.after observe (k + 1)) (.failed f)

theorem Course.first {n : Nat} {last : Run σ} {ending : Ending}
    (hrunning : r.runner.stopped = false) (hsurvived : r.runner.machine.fatal? = none)
    (h : (r.advance observe).1.Course observe n last ending) :
    r.Course observe (n + 1) last ending := by
  cases h with
  | exhausted hcompletes hrunning' =>
    rw [after_advance] at hrunning' ⊢
    exact .exhausted (hcompletes.first hrunning hsurvived) hrunning'
  | stopped k hk hcompletes hstops =>
    rw [after_advance] at hstops ⊢
    exact .stopped (k + 1) (Nat.succ_le_succ hk) (hcompletes.first hrunning hsurvived) hstops
  | failed k hk hcompletes hrunning' f hfails =>
    rw [after_advance] at hrunning' hfails ⊢
    exact .failed (k + 1) (Nat.succ_lt_succ hk) (hcompletes.first hrunning hsurvived)
      hrunning' f hfails

theorem continueFor_of_none {n : Nat} (hrunning : r.runner.stopped = false)
    (h : r.runner.machine.fatal? = none) :
    r.continueFor observe (n + 1) = (r.advance observe).1.continueFor observe n := by
  rw [← advance_snd r observe] at h
  simp only [continueFor, hrunning, Bool.false_eq_true, if_false]
  rcases hadvance : r.advance observe with ⟨next, _ | f⟩
  · rfl
  · rw [hadvance] at h
    cases h

theorem continueFor_of_fatal {n : Nat} {f : Fault} (hrunning : r.runner.stopped = false)
    (h : r.runner.machine.fatal? = some f) :
    r.continueFor observe (n + 1) = ((r.advance observe).1, .failed f) := by
  rw [← advance_snd r observe] at h
  simp only [continueFor, hrunning, Bool.false_eq_true, if_false]
  rcases hadvance : r.advance observe with ⟨next, _ | g⟩
  · rw [hadvance] at h
    cases h
  · rw [hadvance] at h
    obtain rfl := Option.some.inj h
    rfl

theorem course_continueFor (r : Run σ) (observe : Observer σ) (n : Nat) :
    r.Course observe n (r.continueFor observe n).1 (r.continueFor observe n).2 := by
  -- along the loop, which goes on from the first tick: `Course.first` puts that tick in front
  induction n generalizing r with
  | zero =>
    cases hstopped : r.runner.stopped with
    | true =>
      rw [continueFor_of_stopped _ _ _ hstopped]
      exact .stopped 0 (Nat.le_refl 0) (completes_zero r observe) hstopped
    | false =>
      simp only [continueFor, hstopped, Bool.false_eq_true, if_false]
      exact .exhausted (completes_zero r observe) hstopped
  | succ n ih =>
    cases hstopped : r.runner.stopped with
    | true =>
      rw [continueFor_of_stopped _ _ _ hstopped]
      exact .stopped 0 (Nat.zero_le _) (completes_zero r observe) hstopped
    | false =>
      cases hfatal : r.runner.machine.fatal? with
      | none =>
        rw [continueFor_of_none hstopped hfatal]
        exact (ih _).first hstopped hfatal
      | some f =>
        rw [continueFor_of_fatal hstopped hfatal]
        exact .failed 0 (Nat.succ_pos n) (completes_zero r observe) hstopped f hfatal

end Run

namespace Runner

variable {σ : Type} {r : Runner} {observe : Observer σ} {observer : σ} {limit : Option Nat}

/-- A run under a limit of ticks, or under none, returns with a report.  Without a limit
it may also go on for ever. -/
def Returns (r : Runner) (limit : Option Nat) (observe : Observer σ) (observer : σ)
    (report : Report σ) : Prop :=
  match limit with
  | some n => r.runFor n observe observer = report
  | none => ∃ fuel, r.run? fuel observe observer = some report

theorem run?_eq_some_iff {n : Nat} {report : Report σ} :
    r.run? n observe observer = some report ↔
      ((r.begin observer).continueFor observe n).2 ≠ .exhausted ∧
        r.runFor n observe observer = report := by
  rw [run?, runFor]
  generalize (r.begin observer).continueFor observe n = ended
  obtain ⟨last, ending⟩ := ended
  cases ending with
  | exhausted => simp
  | stopped => simp
  | failed f => simp

theorem returns_runFor {n : Nat}
    (h : ((r.begin observer).continueFor observe n).2 ≠ .exhausted) :
    r.Returns none observe observer (r.runFor n observe observer) :=
  ⟨n, run?_eq_some_iff.2 ⟨h, rfl⟩⟩

/-- An observer that counts the frames and asks to stop at one of them. -/
def stopAtFrame (last : Nat) : Observer Nat :=
  fun count _ => (count + 1, count + 1 == last)

/-- How a run that returns has ended: it has completed `k` ticks and reached its limit or
was asked to stop, or the tick after those was fatal. -/
inductive Finish (r : Runner) (limit : Option Nat) (observe : Observer σ) (observer : σ) :
    Report σ → Prop
  | ended (k : Nat) (within : ∀ n ∈ limit, k ≤ n)
      (completes : (r.begin observer).Completes observe k)
      (ends : limit = some k ∨ ((r.begin observer).after observe k).runner.stopped = true) :
      Finish r limit observe observer (((r.begin observer).after observe k).report .stopped)
  | failed (k : Nat) (within : ∀ n ∈ limit, k < n)
      (completes : (r.begin observer).Completes observe k) (f : Fault)
      (fails : ((r.begin observer).after observe k).runner.machine.fatal? = some f) :
      Finish r limit observe observer
        (((r.begin observer).after observe (k + 1)).report (.failed f))

theorem finish_runFor (r : Runner) (n : Nat) (observe : Observer σ) (observer : σ) :
    r.Finish (some n) observe observer (r.runFor n observe observer) := by
  rw [runFor]
  have hcourse := (r.begin observer).course_continueFor observe n
  generalize (r.begin observer).continueFor observe n = ended at hcourse
  obtain ⟨last, ending⟩ := ended
  cases hcourse with
  | exhausted completes _ => exact .ended n (by simp) completes (.inl rfl)
  | stopped k within completes stops =>
    exact .ended k (by simpa using within) completes (.inr stops)
  | failed k within completes _ f fails =>
    exact .failed k (by simpa using within) completes f fails

theorem finish_run? {fuel : Nat} {report : Report σ}
    (h : r.run? fuel observe observer = some report) :
    r.Finish none observe observer report := by
  obtain ⟨hends, rfl⟩ := run?_eq_some_iff.1 h
  rw [runFor]
  have hcourse := (r.begin observer).course_continueFor observe fuel
  generalize (r.begin observer).continueFor observe fuel = ended at hends hcourse
  obtain ⟨last, ending⟩ := ended
  cases hcourse with
  | exhausted _ _ => exact absurd rfl hends
  | stopped k _ completes stops => exact .ended k (by simp) completes (.inr stops)
  | failed k _ completes _ f fails => exact .failed k (by simp) completes f fails

theorem Returns.finish {report : Report σ} (h : r.Returns limit observe observer report) :
    r.Finish limit observe observer report := by
  cases limit with
  | some n =>
    obtain rfl : r.runFor n observe observer = report := h
    exact finish_runFor r n observe observer
  | none =>
    obtain ⟨fuel, hfuel⟩ := h
    exact finish_run? hfuel

end Runner

end ChipEight
