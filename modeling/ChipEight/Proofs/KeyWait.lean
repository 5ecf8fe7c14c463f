import ChipEight.Proofs.Runs

/-!
Whose key a wait delivers.  A wait that finds a key held notes it and runs again
until the key is let go.  The machine keeps the noted key until a wait delivers
it or the machine is reset, and stays at the wait meanwhile, unless a load takes
it elsewhere: then the next wait that runs, whichever it is, takes the old key
for its own.  `pressedDuringWait_iff` says that a wait delivers a key that was not
pressed during it in this case only.
-/

namespace ChipEight.Machine

/-! ### One wait -/

theorem deliverable?_eq_some {m : Machine} {k : Key} :
    m.deliverable? = some k ↔ m.keypad.awaited = some k ∧ m.keypad.held ≠ some k := by
  unfold deliverable?
  rw [Option.filter_eq_some_iff]
  simp [Keypad.isUp, Keypad.isDown]

theorem held_of_awaited_wait {m : Machine} {x : RegisterName} {k : Key}
    (h : (m.keypadAfter (.waitKey x)).awaited = some k) : m.keypad.held = some k := by
  rw [keypadAfter] at h
  split at h
  · cases h
  · rename_i hnone
    change m.keypad.awaited.or m.keypad.held = some k at h
    cases hawaited : m.keypad.awaited with
    | none => rwa [hawaited, Option.none_or] at h
    | some j =>
      rw [hawaited, Option.some_or] at h
      obtain rfl := Option.some.inj h
      by_cases hheld : m.keypad.held = some j
      · exact hheld
      · have hdeliver : m.deliverable? = some j := deliverable?_eq_some.2 ⟨hawaited, hheld⟩
        exact absurd (Option.isSome_iff_exists.2 ⟨j, hdeliver⟩) hnone

theorem pcAfter_of_awaited_wait {m : Machine} {x : RegisterName} {k : Key}
    (h : (m.keypadAfter (.waitKey x)).awaited = some k) :
    m.pcAfter (.waitKey x) = m.currentAddress := by
  rw [keypadAfter] at h
  split at h
  · cases h
  · rename_i hnone
    rw [pcAfter, if_neg hnone]

theorem deliverable?_of_pcAfter {m : Machine} {x : RegisterName}
    (h : m.passed.pcAfter (.waitKey x) = m.pc + 2) :
    ∃ k, m.deliverable? = some k ∧
      (m.passed.registersAfter (.waitKey x)).get x = UInt8.ofNat k := by
  have hsame : m.passed.deliverable? = m.deliverable? := rfl
  cases hdeliver : m.deliverable? with
  | none =>
    rw [pcAfter, hsame, hdeliver] at h
    have hstay : m.pc + 2 - 2 = m.pc + 2 := h
    omega
  | some k =>
    refine ⟨k, rfl, ?_⟩
    rw [registersAfter, hsame, hdeliver]
    exact Registers.get_set_self _ x _

/-! ### Other operations leave a wait alone -/

theorem keypad_step_of_ne_wait {m : Machine} (h : ∀ x, m.current? ≠ some (.waitKey x)) :
    m.step.machine.keypad = m.keypad := by
  cases hcurrent : m.current? with
  | none =>
    obtain ⟨f, hf⟩ := step_of_current?_none hcurrent
    rw [hf]
    rfl
  | some i =>
    rw [step_of_current? hcurrent, machine_execute]
    cases i with
    | waitKey x => exact absurd hcurrent (h x)
    | _ => rfl

theorem awaited_perform_of_host (m : Machine) {o : Operation} (hexecutes : o.executes = false)
    (hreset : o ≠ .reset) : (m.perform o).machine.keypad.awaited = m.keypad.awaited := by
  cases o with
  | reset => exact absurd rfl hreset
  | step => cases hexecutes
  | tick => cases hexecutes
  | load image offset =>
    change (m.load image offset).machine.keypad.awaited = m.keypad.awaited
    unfold load
    split <;> rfl
  | press key => cases key <;> rfl
  | _ => rfl

theorem place_perform_of_host (m : Machine) {o : Operation} (hexecutes : o.executes = false)
    (hreset : o ≠ .reset)
    (hload : ∀ image offset length, o = .load image offset →
      (m.load image offset).answer ≠ .ok length) :
    (m.perform o).machine.pc = m.pc ∧ (m.perform o).machine.memory = m.memory := by
  cases o with
  | reset => exact absurd rfl hreset
  | step => cases hexecutes
  | tick => cases hexecutes
  | load image offset =>
    change (m.load image offset).machine.pc = m.pc ∧
      (m.load image offset).machine.memory = m.memory
    have hfails := hload image offset image.length rfl
    unfold load at hfails ⊢
    split
    · exact ⟨rfl, rfl⟩
    · rename_i memory hmemory
      rw [hmemory] at hfails
      exact absurd rfl hfails
  | _ => exact ⟨rfl, rfl⟩

variable {m : Machine} {operations : List Operation} {k : Key} {s t : Nat} {x : RegisterName}

theorem awaited_before_succ (hreset : operations[t]? ≠ some .reset)
    (hwait : ∀ y, ¬ m.RunsAt operations t (.waitKey y)) :
    (m.before operations (t + 1)).keypad.awaited =
      (m.before operations t).keypad.awaited := by
  cases ho : operations[t]? with
  | none => rw [before_succ_of_none m ho]
  | some o =>
    rw [before_succ m ho]
    cases hexecutes : o.executes with
    | true =>
      have hcurrent : ∀ y, (m.before operations t).current? ≠ some (.waitKey y) :=
        fun y hy => hwait y ⟨by rw [ho]; exact hexecutes, hy⟩
      obtain ⟨_, _, heq⟩ := machine_perform_of_executes (m.before operations t) hexecutes
      rw [heq, keypad_step_of_ne_wait hcurrent]
    | false =>
      have hne : o ≠ .reset := fun h => hreset (h ▸ ho)
      exact awaited_perform_of_host _ hexecutes hne

/-- A machine at a wait that does not run stays there, unless it is reset or
loaded, and runs nothing else. -/
theorem place_before_succ (hcurrent : (m.before operations t).current? = some (.waitKey x))
    (hreset : operations[t]? ≠ some .reset) (hload : ¬ m.LoadsAt operations t)
    (hwait : ¬ m.RunsAt operations t (.waitKey x)) :
    (m.before operations (t + 1)).pc = (m.before operations t).pc ∧
      (m.before operations (t + 1)).memory = (m.before operations t).memory ∧
      ∀ i, ¬ m.RunsAt operations t i := by
  have hnothing : ∀ i, ¬ m.RunsAt operations t i :=
    fun i hruns => hwait ⟨hruns.1, hcurrent⟩
  cases ho : operations[t]? with
  | none =>
    rw [before_succ_of_none m ho]
    exact ⟨rfl, rfl, hnothing⟩
  | some o =>
    have hexecutes : o.executes = false := by
      rw [Bool.eq_false_iff]
      intro hexecutes
      exact hwait ⟨by rw [ho]; exact hexecutes, hcurrent⟩
    have hne : o ≠ .reset := fun h => hreset (h ▸ ho)
    have hfails : ∀ image offset length, o = .load image offset →
        ((m.before operations t).load image offset).answer ≠ .ok length :=
      fun image offset length heq hok => hload ⟨image, offset, length, heq ▸ ho, hok⟩
    obtain ⟨hpc, hmemory⟩ := place_perform_of_host _ hexecutes hne hfails
    rw [before_succ m ho]
    exact ⟨hpc, hmemory, hnothing⟩

/-! ### The history of an awaited key -/

/-- What is known before position `t` of a key that is awaited there: the wait at
position `s` saw it held, no other wait has run since and nothing was reset; and
unless a load went through, the machine is still where it was. -/
structure NotedAt (m : Machine) (operations : List Operation) (k : Key) (s t : Nat)
    (x : RegisterName) : Prop where
  earlier : s < t
  runs : m.RunsAt operations s (.waitKey x)
  held : (m.before operations s).keypad.held = some k
  quiet : ∀ u, s < u → u < t →
    operations[u]? ≠ some .reset ∧ ∀ y, ¬ m.RunsAt operations u (.waitKey y)
  stays : (∀ u, s < u → u < t → ¬ m.LoadsAt operations u) →
    (m.before operations t).pc = (m.before operations s).pc ∧
      (m.before operations t).memory = (m.before operations s).memory ∧
      ∀ u, s < u → u < t → ∀ i, ¬ m.RunsAt operations u i

theorem notedAt_of_wait (hruns : m.RunsAt operations t (.waitKey x))
    (h : (m.before operations (t + 1)).keypad.awaited = some k) :
    m.NotedAt operations k t (t + 1) x := by
  rw [hruns.keypad_succ] at h
  have hheld := held_of_awaited_wait h
  refine ⟨Nat.lt_succ_self t, hruns, hheld, fun u _ _ => by omega, fun _ => ?_⟩
  refine ⟨?_, hruns.memory_succ, fun u _ _ => by omega⟩
  rw [hruns.pc_succ, pcAfter_of_awaited_wait h]
  exact Nat.add_sub_cancel _ 2

theorem NotedAt.succ (h : m.NotedAt operations k s t x)
    (hreset : operations[t]? ≠ some .reset)
    (hwait : ∀ y, ¬ m.RunsAt operations t (.waitKey y)) :
    m.NotedAt operations k s (t + 1) x := by
  refine ⟨Nat.lt_succ_of_lt h.earlier, h.runs, h.held, ?_, ?_⟩
  · intro u hsu hut
    rcases Nat.lt_succ_iff_lt_or_eq.1 hut with hlt | rfl
    · exact h.quiet u hsu hlt
    · exact ⟨hreset, hwait⟩
  · intro hloads
    obtain ⟨hpc, hmemory, hnone⟩ :=
      h.stays fun u hsu hut => hloads u hsu (Nat.lt_succ_of_lt hut)
    have hcurrent : (m.before operations t).current? = some (.waitKey x) :=
      (current?_congr hpc hmemory).trans h.runs.2
    have hload := hloads t h.earlier (Nat.lt_succ_self t)
    obtain ⟨hpc', hmemory', hnone'⟩ := place_before_succ hcurrent hreset hload (hwait x)
    refine ⟨hpc'.trans hpc, hmemory'.trans hmemory, ?_⟩
    intro u hsu hut
    rcases Nat.lt_succ_iff_lt_or_eq.1 hut with hlt | rfl
    · exact hnone u hsu hlt
    · exact hnone'

/-- A key that is awaited was noted, on a machine that awaited none at the start. -/
theorem notedAt_of_awaited (hstart : m.keypad.awaited = none)
    (h : (m.before operations t).keypad.awaited = some k) :
    ∃ s x, m.NotedAt operations k s t x := by
  induction t with
  | zero =>
    rw [before_zero, hstart] at h
    cases h
  | succ t ih =>
    by_cases hwait : ∃ y, m.RunsAt operations t (.waitKey y)
    · obtain ⟨y, hruns⟩ := hwait
      exact ⟨t, y, notedAt_of_wait hruns h⟩
    · have hnowait : ∀ y, ¬ m.RunsAt operations t (.waitKey y) := fun y hy => hwait ⟨y, hy⟩
      have hreset : operations[t]? ≠ some .reset := by
        intro ho
        rw [before_succ m ho] at h
        cases h
      rw [awaited_before_succ hreset hnowait] at h
      obtain ⟨s, x, hnoted⟩ := ih h
      exact ⟨s, x, hnoted.succ hreset hnowait⟩

/-! ### What a wait delivers -/

/-- The operation at position `t` runs a wait for VX that is over: the machine
moves past it, with the key in VX. -/
structure DeliversAt (m : Machine) (operations : List Operation) (t : Nat)
    (x : RegisterName) (k : Key) : Prop where
  runs : m.RunsAt operations t (.waitKey x)
  passes : (m.before operations (t + 1)).pc = (m.before operations t).pc + 2
  delivers : (m.before operations (t + 1)).registers.get x = UInt8.ofNat k

/-- Before position `t` the same wait at the same address has run while the key was
held, and since then nothing else has run and there was no reset and no load. -/
def PressedDuringWait (m : Machine) (operations : List Operation) (t : Nat)
    (x : RegisterName) (k : Key) : Prop :=
  ∃ s, s < t ∧ m.RunsAt operations s (.waitKey x) ∧
    (m.before operations s).pc = (m.before operations t).pc ∧
    (m.before operations s).keypad.held = some k ∧
    ∀ u, s < u → u < t → operations[u]? ≠ some .reset ∧ ¬ m.LoadsAt operations u ∧
      ∀ i, m.RunsAt operations u i →
        i = .waitKey x ∧ (m.before operations u).pc = (m.before operations t).pc

/-- The last wait that has run before position `t` found the key held, and was
abandoned for a load; there was no reset since. -/
def LeftByAbandonedWait (m : Machine) (operations : List Operation) (t : Nat) (k : Key) :
    Prop :=
  ∃ s, s < t ∧ (∃ y, m.RunsAt operations s (.waitKey y)) ∧
    (m.before operations s).keypad.held = some k ∧
    (∃ u, s < u ∧ u < t ∧ m.LoadsAt operations u) ∧
    ∀ u, s < u → u < t →
      operations[u]? ≠ some .reset ∧ ∀ y, ¬ m.RunsAt operations u (.waitKey y)

theorem ofNat_key_inj {j k : Key} (h : UInt8.ofNat j = UInt8.ofNat k) : j = k := by
  have hnat := congrArg UInt8.toNat h
  rw [UInt8.toNat_ofNat', UInt8.toNat_ofNat'] at hnat
  apply Fin.ext
  omega

theorem DeliversAt.awaited (h : m.DeliversAt operations t x k) :
    (m.before operations t).keypad.awaited = some k := by
  have hpasses := h.passes
  have hdelivers := h.delivers
  rw [h.runs.pc_succ] at hpasses
  rw [h.runs.registers_succ] at hdelivers
  obtain ⟨j, hdeliverable, hregister⟩ := deliverable?_of_pcAfter hpasses
  obtain rfl := ofNat_key_inj (hregister.symm.trans hdelivers)
  exact (deliverable?_eq_some.1 hdeliverable).1

/-- A wait delivers a key that was pressed during it, except in one case: the last
wait before it saw the key held and was abandoned for a load.  Then the key was
not pressed during the wait that delivers it. -/
theorem pressedDuringWait_iff (random : RandomSource) (operations : List Operation) (t : Nat)
    (x : RegisterName) (k : Key) (h : (fresh random).DeliversAt operations t x k) :
    (fresh random).PressedDuringWait operations t x k ↔
      ¬ (fresh random).LeftByAbandonedWait operations t k := by
  obtain ⟨s, y, hnoted⟩ := notedAt_of_awaited (m := fresh random) rfl h.awaited
  constructor
  · rintro ⟨s', hs't, hruns', -, -, hsince⟩ ⟨r, hrt, hwait, -, ⟨u, hru, hut, hload⟩, hquiet⟩
    -- the load lies behind both waits
    have hs'r : s' ≤ r := by
      by_cases hlt : r < s'
      · exact absurd hruns' ((hquiet s' hlt hs't).2 x)
      · omega
    exact (hsince u (by omega) hut).2.1 hload
  · intro hleft
    have hloads : ∀ u, s < u → u < t → ¬ (fresh random).LoadsAt operations u :=
      fun u hsu hut hload => hleft
        ⟨s, hnoted.earlier, ⟨y, hnoted.runs⟩, hnoted.held, ⟨u, hsu, hut, hload⟩, hnoted.quiet⟩
    obtain ⟨hpc, hmemory, hnothing⟩ := hnoted.stays hloads
    have hcurrent := (current?_congr hpc hmemory).trans hnoted.runs.2
    rw [h.runs.2] at hcurrent
    cases hcurrent
    exact ⟨s, hnoted.earlier, hnoted.runs, hpc.symm, hnoted.held, fun u hsu hut =>
      ⟨(hnoted.quiet u hsu hut).1, hloads u hsu hut,
        fun i hruns => absurd hruns (hnothing u hsu hut i)⟩⟩

/-- Key five is pressed during the wait; a load that fails and key six, which lets
go of key five, come before the wait is over. -/
def patientRun : List Operation :=
  [.load [0xF0, 0x0A] 0x200, .press (some 5), .step, .load [] 0, .press (some 6), .tick]

theorem pressedDuringWait_patientRun :
    (fresh (RandomSource.ofWords [])).DeliversAt patientRun 5 0 5 ∧
      ((fresh (RandomSource.ofWords [])).PressedDuringWait patientRun 5 0 5 ↔
        ¬ (fresh (RandomSource.ofWords [])).LeftByAbandonedWait patientRun 5 5) := by
  have hdelivers : (fresh (RandomSource.ofWords [])).DeliversAt patientRun 5 0 5 :=
    ⟨by unfold RunsAt; decide +kernel, by decide +kernel, by decide +kernel⟩
  exact ⟨hdelivers, pressedDuringWait_iff _ _ _ _ _ hdelivers⟩

/-- Key five is held during a wait, which is abandoned for a load of another
program. -/
def abandonedRun : List Operation :=
  [.load [0xF0, 0x0A] 0x200, .press (some 5), .step, .load [0xF1, 0x0A] 0x300, .release, .step]

/-- The wait of the other program delivers key five at once, although no key was
held since it was loaded. -/
theorem delivers_key_of_abandoned_wait :
    (fresh (RandomSource.ofWords [])).DeliversAt abandonedRun 5 1 5 ∧
      ¬ (fresh (RandomSource.ofWords [])).PressedDuringWait abandonedRun 5 1 5 := by
  refine ⟨⟨by unfold RunsAt; decide +kernel, by decide +kernel, by decide +kernel⟩, ?_⟩
  have hnone : ∀ s < 5, ¬ (fresh (RandomSource.ofWords [])).RunsAt abandonedRun s (.waitKey 1) := by
    unfold RunsAt
    decide +kernel
  rintro ⟨s, hs, hruns, -⟩
  exact hnone s hs hruns

end ChipEight.Machine
