import ChipEight.Proofs.FaultAtomicity
import ChipEight.Proofs.ScreenFlag

/-!
Bare ticks: a machine that is ticked again and again, whatever the ticks answer.  This
is what a run is measured by.
-/

namespace ChipEight.Machine

/-- The machine behind `k` ticks, failed ones included. -/
def afterTicks (m : Machine) : Nat → Machine
  | 0 => m
  | k + 1 => (m.afterTicks k).tick.machine

/-- Tick `k`, counted from zero, fails fatally. -/
def FailsAt (m : Machine) (k : Nat) (f : Fault) : Prop :=
  (m.afterTicks k).tick.answer = .error f ∧ f.isFatal = true

/-- None of the first `k` ticks fails fatally. -/
def Survives (m : Machine) (k : Nat) : Prop :=
  ∀ j < k, ∀ f, ¬ m.FailsAt j f

def fatal? (m : Machine) : Option Fault :=
  match m.tick.answer with
  | .ok _ => none
  | .error f => if f.isFatal then some f else none

theorem fatal?_eq_some_iff {m : Machine} {f : Fault} :
    m.fatal? = some f ↔ m.tick.answer = .error f ∧ f.isFatal = true := by
  rw [fatal?]
  cases m.tick.answer with
  | ok _ => simp
  | error g =>
    dsimp only
    constructor
    · intro h
      split at h
      · rename_i hfatal
        obtain rfl := Option.some.inj h
        exact ⟨rfl, hfatal⟩
      · cases h
    · rintro ⟨h, hfatal⟩
      obtain rfl := Except.error.inj h
      exact if_pos hfatal

theorem failsAt_iff {m : Machine} {k : Nat} {f : Fault} :
    m.FailsAt k f ↔ (m.afterTicks k).fatal? = some f :=
  fatal?_eq_some_iff.symm

theorem survives_iff {m : Machine} {k : Nat} :
    m.Survives k ↔ ∀ j < k, (m.afterTicks j).fatal? = none := by
  simp only [Survives, failsAt_iff, Option.eq_none_iff_forall_ne_some]

theorem shown_of_clean {m : Machine} (h : m.screen.dirty = false) : m.shown = m := by
  rw [shown, Screen.shown, ← h]

theorem tick_congr {m n : Machine} (h : m.shown = n.shown) :
    m.tick.answer = n.tick.answer ∧ m.tick.machine.shown = n.tick.machine.shown := by
  obtain ⟨hm, hm'⟩ := tick_shown m
  obtain ⟨hn, hn'⟩ := tick_shown n
  rw [h] at hm hm'
  exact ⟨hm.symm.trans hn, hm'.symm.trans hn'⟩

theorem fatal?_congr {m n : Machine} (h : m.shown = n.shown) : m.fatal? = n.fatal? := by
  rw [fatal?, fatal?, (tick_congr h).1]

theorem touches_congr {m n : Machine} (h : m.shown = n.shown) : m.touches = n.touches := by
  have hshown (m : Machine) : m.shown.touches = m.touches := rfl
  rw [← hshown m, h, hshown n]

theorem frame_congr {m n : Machine} (h : m.shown = n.shown) : m.frame = n.frame := by
  change m.shown.frame = n.shown.frame
  rw [h]

theorem dirty_tick (m : Machine) :
    m.tick.machine.screen.dirty = (m.screen.dirty || m.touches) := by
  change m.step.machine.countDown.screen.dirty = _
  rw [screen_countDown, dirty_step]

theorem screen_tick_of_fatal {m : Machine} {f : Fault} (h : m.fatal? = some f) :
    m.tick.machine.screen = m.screen := by
  rw [keepsOnFault_tick m f (fatal?_eq_some_iff.1 h).1, screen_countDown]
  unfold pastFetch
  split <;> rfl

end ChipEight.Machine
