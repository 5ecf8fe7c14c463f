import ChipEight.Proofs.FaultAtomicity
import Mathlib.Algebra.BigOperators.Group.Finset.Piecewise
import Mathlib.Algebra.BigOperators.Intervals

/-!
What a timer shows.  Between two instructions that set it a timer only counts down: once
for each tick that finds the timers running, whether the tick goes through or fails, and
not below zero.  So its value is known from the last instruction that set it and the
number of such ticks since, the one that ran that instruction among them.
-/

namespace ChipEight

inductive Timer
  | delay
  | sound

namespace Timer

def value (m : Machine) : Timer → UInt8
  | .delay => m.delay
  | .sound => m.sound

def setter (x : RegisterName) : Timer → Instruction
  | .delay => .setDelay x
  | .sound => .setSound x

end Timer

def Operation.isTick : Operation → Bool
  | .tick => true
  | _ => false

namespace Machine

variable {m : Machine} {timer : Timer} {x : RegisterName}

/-! ### One operation -/

theorem paused_step (m : Machine) : m.step.machine.paused = m.paused := by
  rcases m.machine_step_cases with heq | ⟨i, -, heq⟩
  · rw [heq]
  · rw [heq, machine_execute]
    rfl

theorem value_step_of_setter (h : m.current? = some (timer.setter x)) :
    timer.value m.step.machine = m.registers.get x := by
  rw [step_of_current? h, machine_execute]
  cases timer <;> rfl

theorem value_step_of_not_setter (h : ∀ x, m.current? ≠ some (timer.setter x)) :
    timer.value m.step.machine = timer.value m := by
  rcases m.machine_step_cases with heq | ⟨i, hcurrent, heq⟩
  · rw [heq]
  · rw [hcurrent] at h
    rw [heq, machine_execute]
    cases timer with
    | delay =>
      cases i with
      | setDelay x => exact absurd rfl (h x)
      | _ => rfl
    | sound =>
      cases i with
      | setSound x => exact absurd rfl (h x)
      | _ => rfl

theorem toNat_timerAfterTick (t : UInt8) : (timerAfterTick t).toNat = t.toNat - 1 := by
  have hlt := t.toNat_lt
  rw [timerAfterTick_eq, UInt8.toNat_ofNat']
  omega

theorem value_countDown (m : Machine) (timer : Timer) :
    (timer.value m.countDown).toNat =
      (timer.value m).toNat - if m.paused then 0 else 1 := by
  rw [countDown_eq]
  cases hpaused : m.paused with
  | true => cases timer <;> rfl
  | false => cases timer <;> exact toNat_timerAfterTick _

theorem value_perform_of_executes (m : Machine) (timer : Timer) {o : Operation}
    (h : o.executes = true) :
    (timer.value (m.perform o).machine).toNat =
      (timer.value m.step.machine).toNat - if o.isTick && !m.paused then 1 else 0 := by
  cases o with
  | step => rfl
  | tick =>
    change (timer.value m.step.machine.countDown).toNat = _
    rw [value_countDown, paused_step]
    cases m.paused <;> rfl
  | _ => cases h

theorem value_perform_of_host (m : Machine) (timer : Timer) {o : Operation}
    (hexecutes : o.executes = false) (hreset : o ≠ .reset) :
    timer.value (m.perform o).machine = timer.value m := by
  cases o with
  | step => cases hexecutes
  | tick => cases hexecutes
  | reset => exact absurd rfl hreset
  | load image offset =>
    obtain ⟨memory, pc, hload⟩ := m.machine_load image offset
    change timer.value (m.load image offset).machine = timer.value m
    rw [hload]
    cases timer <;> rfl
  | _ => cases timer <;> rfl

/-! ### Positions of a run -/

/-- The operation at position `t` is a tick that finds the timers running. -/
def CountsAt (m : Machine) (operations : List Operation) (t : Nat) : Prop :=
  operations[t]?.any Operation.isTick = true ∧ (m.before operations t).paused = false

instance (m : Machine) (operations : List Operation) (t : Nat) :
    Decidable (m.CountsAt operations t) :=
  inferInstanceAs (Decidable (_ ∧ _))

/-- The number of ticks from position `s` up to position `t` that find the timers
running. -/
def countsBetween (m : Machine) (operations : List Operation) (s t : Nat) : Nat :=
  ((Finset.Ico s t).filter fun u => m.CountsAt operations u).card

variable {operations : List Operation} {s t : Nat}

theorem countsBetween_succ (m : Machine) (operations : List Operation) (h : s ≤ t) :
    m.countsBetween operations s (t + 1) =
      m.countsBetween operations s t + if m.CountsAt operations t then 1 else 0 := by
  simp only [countsBetween, Finset.card_filter]
  exact Finset.sum_Ico_succ_top h _

theorem countsBetween_add (m : Machine) (operations : List Operation) {r : Nat} (hrs : r ≤ s)
    (hst : s ≤ t) :
    m.countsBetween operations r s + m.countsBetween operations s t =
      m.countsBetween operations r t := by
  simp only [countsBetween, Finset.card_filter]
  exact Finset.sum_Ico_consecutive _ hrs hst

theorem RunsAt.lt_length {i : Instruction} (h : m.RunsAt operations t i) :
    t < operations.length := by
  by_contra hbehind
  have hexecutes := h.1
  rw [List.getElem?_eq_none (Nat.le_of_not_lt hbehind)] at hexecutes
  cases hexecutes

theorem value_before_succ_of_executes (m : Machine) (timer : Timer)
    (h : operations[t]?.any Operation.executes = true) :
    (timer.value (m.before operations (t + 1))).toNat =
      (timer.value (m.before operations t).step.machine).toNat -
        if m.CountsAt operations t then 1 else 0 := by
  obtain ⟨o, ho, hexecutes⟩ := (Option.any_eq_true _ _).1 h
  have hcounts : m.CountsAt operations t ↔
      (o.isTick && !(m.before operations t).paused) = true := by
    rw [CountsAt, ho, Option.any_some, Bool.and_eq_true, Bool.not_eq_true']
  rw [before_succ m ho, value_perform_of_executes _ timer hexecutes]
  simp only [hcounts]

theorem value_before_succ_of_setter (h : m.RunsAt operations t (timer.setter x)) :
    (timer.value (m.before operations (t + 1))).toNat =
      ((m.before operations t).registers.get x).toNat - m.countsBetween operations t (t + 1) := by
  rw [value_before_succ_of_executes m timer h.1, value_step_of_setter h.2,
    countsBetween_succ m operations (Nat.le_refl t)]
  simp [countsBetween]

theorem value_before_succ_of_not_setter (hreset : operations[t]? ≠ some .reset)
    (h : ∀ x, ¬ m.RunsAt operations t (timer.setter x)) :
    (timer.value (m.before operations (t + 1))).toNat =
      (timer.value (m.before operations t)).toNat -
        if m.CountsAt operations t then 1 else 0 := by
  by_cases hexecutes : operations[t]?.any Operation.executes = true
  · rw [value_before_succ_of_executes m timer hexecutes,
      value_step_of_not_setter fun y hy => h y ⟨hexecutes, hy⟩]
  · have hcounts : ¬ m.CountsAt operations t := by
      rintro ⟨htick, -⟩
      obtain ⟨o, ho, htick⟩ := (Option.any_eq_true _ _).1 htick
      cases o with
      | tick => exact hexecutes (by rw [ho]; rfl)
      | _ => cases htick
    rw [if_neg hcounts, Nat.sub_zero]
    cases ho : operations[t]? with
    | none => rw [before_succ_of_none m ho]
    | some o =>
      rw [ho, Option.any_some, Bool.not_eq_true] at hexecutes
      rw [ho] at hreset
      rw [before_succ m ho,
        value_perform_of_host _ timer hexecutes fun heq => hreset (congrArg some heq)]

/-! ### Whole runs -/

/-- From position `s` to position `t` no operation sets the timer. -/
def LeavesTimer (m : Machine) (operations : List Operation) (timer : Timer) (s t : Nat) :
    Prop :=
  ∀ u, s ≤ u → u < t → ∀ x, ¬ m.RunsAt operations u (timer.setter x)

theorem value_before_of_leavesTimer (hreset : .reset ∉ operations) (hst : s ≤ t)
    (h : m.LeavesTimer operations timer s t) :
    (timer.value (m.before operations t)).toNat =
      (timer.value (m.before operations s)).toNat - m.countsBetween operations s t := by
  induction hst with
  | refl => simp [countsBetween]
  | @step t hst ih =>
    have hearlier : m.LeavesTimer operations timer s t :=
      fun u hsu hut => h u hsu (Nat.lt_succ_of_lt hut)
    have hnone : operations[t]? ≠ some .reset := fun ho => hreset (List.mem_of_getElem? ho)
    rw [value_before_succ_of_not_setter hnone (h t hst (Nat.lt_succ_self t)), ih hearlier,
      countsBetween_succ m operations hst, Nat.sub_sub]

/-- What a timer was last set to in a run, and at which position: the VX of the last
instruction that sets it, or what it showed at the start if there is none. -/
inductive LastSet (m : Machine) (operations : List Operation) (timer : Timer) :
    Nat → UInt8 → Prop
  | atStart (untouched : m.LeavesTimer operations timer 0 operations.length) :
      LastSet m operations timer 0 (timer.value m)
  | behind (t : Nat) (x : RegisterName) (sets : m.RunsAt operations t (timer.setter x))
      (last : m.LeavesTimer operations timer (t + 1) operations.length) :
      LastSet m operations timer t ((m.before operations t).registers.get x)

theorem exists_lastSet (m : Machine) (operations : List Operation) (timer : Timer) :
    ∃ t w, m.LastSet operations timer t w := by
  -- from the end of the run to its start, until an instruction sets the timer
  have hfrom (t : Nat) (ht : t ≤ operations.length)
      (h : m.LeavesTimer operations timer t operations.length) :
      ∃ t w, m.LastSet operations timer t w := by
    induction t with
    | zero => exact ⟨0, _, .atStart h⟩
    | succ t ih =>
      by_cases hsets : ∃ x, m.RunsAt operations t (timer.setter x)
      · obtain ⟨x, hsets⟩ := hsets
        exact ⟨t, _, .behind t x hsets h⟩
      · refine ih (Nat.le_of_succ_le ht) fun u htu hu x hruns => ?_
        rcases Nat.eq_or_lt_of_le htu with rfl | hlt
        · exact hsets ⟨x, hruns⟩
        · exact h u hlt hu x hruns
  exact hfrom operations.length (Nat.le_refl _) fun u hle hlt => absurd hle (Nat.not_le.2 hlt)

/-- In every run there is something a timer was last set to, be it at the start, and at
the end the timer shows that less the ticks made since then while the timers were running,
or zero if there were more of them.  The tick that ran the setting instruction is one of
them; ticks that fail count, and steps do not.  Only a reset is excluded, whatever else a
host and a program do. -/
theorem value_of_lastSet (m : Machine) (operations : List Operation)
    (hreset : .reset ∉ operations) (timer : Timer) :
    (∃ t w, m.LastSet operations timer t w) ∧
    ∀ t w, m.LastSet operations timer t w →
      (timer.value (m.performAll operations)).toNat =
        w.toNat - m.countsBetween operations t operations.length := by
  refine ⟨exists_lastSet m operations timer, ?_⟩
  intro t w h
  rw [← before_length]
  cases h with
  | atStart untouched =>
    exact value_before_of_leavesTimer hreset (Nat.zero_le _) untouched
  | behind t x sets last =>
    have hinside := sets.lt_length
    rw [value_before_of_leavesTimer hreset hinside last, value_before_succ_of_setter sets,
      Nat.sub_sub, countsBetween_add m operations (Nat.le_succ t) hinside]

/-- A program that sets both timers to two, runs an undefined word and returns from no
call.  The tick that sets the sound timer finds the timers paused. -/
def timedRun : List Operation :=
  [.load [0x60, 0x02, 0xF0, 0x15, 0xF0, 0x18, 0xFF, 0xFF, 0x00, 0xEE] 0x200, .tick, .tick,
    .pause, .tick, .resume, .tick, .step, .tick]

/-- The delay timer has been at zero for a tick; the sound timer gets there with the last
one. -/
theorem value_of_lastSet_timedRun :
    (fresh (RandomSource.ofWords [])).LastSet timedRun .delay 2 2 ∧
      (fresh (RandomSource.ofWords [])).countsBetween timedRun 2 9 = 3 ∧
      ((fresh (RandomSource.ofWords [])).performAll timedRun).delay.toNat = 2 - 3 ∧
      (fresh (RandomSource.ofWords [])).LastSet timedRun .sound 4 2 ∧
      (fresh (RandomSource.ofWords [])).countsBetween timedRun 4 9 = 2 ∧
      ((fresh (RandomSource.ofWords [])).performAll timedRun).sound.toNat = 2 - 2 := by
  obtain ⟨hdelay, hsound, hlater, htwo, htwo', hcounts, hcounts'⟩ :
      (fresh (RandomSource.ofWords [])).RunsAt timedRun 2 (.setDelay 0) ∧
        (fresh (RandomSource.ofWords [])).RunsAt timedRun 4 (.setSound 0) ∧
        (∀ u < 9, ∀ x,
          (3 ≤ u → ¬ (fresh (RandomSource.ofWords [])).RunsAt timedRun u (.setDelay x)) ∧
            (5 ≤ u → ¬ (fresh (RandomSource.ofWords [])).RunsAt timedRun u (.setSound x))) ∧
        ((fresh (RandomSource.ofWords [])).before timedRun 2).registers.get 0 = 2 ∧
        ((fresh (RandomSource.ofWords [])).before timedRun 4).registers.get 0 = 2 ∧
        (fresh (RandomSource.ofWords [])).countsBetween timedRun 2 9 = 3 ∧
        (fresh (RandomSource.ofWords [])).countsBetween timedRun 4 9 = 2 := by
    unfold RunsAt
    decide +kernel
  have hset : (fresh (RandomSource.ofWords [])).LastSet timedRun .delay 2 2 := by
    rw [← htwo]
    exact .behind 2 0 hdelay fun u hle hlt x => (hlater u hlt x).1 hle
  have hset' : (fresh (RandomSource.ofWords [])).LastSet timedRun .sound 4 2 := by
    rw [← htwo']
    exact .behind 4 0 hsound fun u hle hlt x => (hlater u hlt x).2 hle
  have hnever : .reset ∉ timedRun := by simp [timedRun]
  have hvalue := (value_of_lastSet _ timedRun hnever .delay).2 2 2 hset
  have hvalue' := (value_of_lastSet _ timedRun hnever .sound).2 4 2 hset'
  have hlength : timedRun.length = 9 := rfl
  rw [hlength, hcounts] at hvalue
  rw [hlength, hcounts'] at hvalue'
  exact ⟨hset, hcounts, hvalue, hset', hcounts', hvalue'⟩

end Machine

end ChipEight
