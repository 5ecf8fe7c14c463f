import ChipEight.Proofs.Runs
import ChipEight.Proofs.Pixels

/-!
The flag of the screen.  Clearing the screen sets it, and so does drawing a sprite
with a bit in it; an instruction that leaves it clear leaves the screen as it is.
Nothing reads it: machines that differ in the flag alone run alike and answer alike.
-/

namespace ChipEight

/-! ### What changes the screen sets the flag -/

namespace Screen

theorem drawByte_of_clean {s : Screen} {x y : Nat} {b : UInt8}
    (h : (s.drawByte x y b).1.dirty = false) : (s.drawByte x y b).1 = s := by
  have hmask : mask x b = 0 := by
    have hflag : (s.dirty || mask x b != 0) = false := h
    simpa using (Bool.or_eq_false_iff.1 hflag).2
  rw [drawByte_eq_turn, hmask, turn_zero]

theorem draw_of_clean {s : Screen} {x y : Nat} {sprite : List UInt8}
    (h : (s.draw x y sprite).1.dirty = false) : (s.draw x y sprite).1 = s := by
  induction sprite generalizing s y with
  | nil => rfl
  | cons b rest ih =>
    have hrest : ((s.drawByte x y b).1.draw x (y + 1) rest).1 = (s.drawByte x y b).1 := ih h
    have hfirst : (s.drawByte x y b).1.dirty = false := by
      rw [← hrest]
      exact h
    exact hrest.trans (drawByte_of_clean hfirst)

theorem mask_eq_zero_iff (x : Nat) (b : UInt8) : mask x b = 0 ↔ b = 0 := by
  constructor
  · intro h
    apply UInt8.toBitVec_inj.1
    apply BitVec.eq_of_getMsbD_eq
    intro c hc
    -- the pixel that bit `c` falls on
    have hpixel := getMsbD_mask x ((x + c) % 64) b (Nat.mod_lt _ (by decide))
    rw [h, show ((x + c) % 64 + 64 - x % 64) % 64 = c by omega] at hpixel
    rw [← hpixel]
    simp
  · rintro rfl
    apply BitVec.eq_of_getMsbD_eq
    intro k hk
    rw [getMsbD_mask x k 0 hk]
    simp

theorem dirty_drawByte (s : Screen) (x y : Nat) (b : UInt8) :
    (s.drawByte x y b).1.dirty = (s.dirty || b != 0) := by
  have hmask : (mask x b != 0) = (b != 0) := by
    rw [Bool.eq_iff_iff, bne_iff_ne, bne_iff_ne, ne_eq, ne_eq, mask_eq_zero_iff]
  rw [← hmask]
  rfl

theorem dirty_draw (s : Screen) (x y : Nat) (sprite : List UInt8) :
    (s.draw x y sprite).1.dirty = (s.dirty || sprite.any (· != 0)) := by
  induction sprite generalizing s y with
  | nil => simp [draw]
  | cons b rest ih =>
    rw [draw, ih, dirty_drawByte, List.any_cons, Bool.or_assoc]

theorem draw_congr {s t : Screen} (h : s.grid = t.grid) (x y : Nat) (sprite : List UInt8) :
    (s.draw x y sprite).1.grid = (t.draw x y sprite).1.grid ∧
      (s.draw x y sprite).2 = (t.draw x y sprite).2 := by
  induction sprite generalizing s t y with
  | nil => exact ⟨h, rfl⟩
  | cons b rest ih =>
    have hgrid : (s.drawByte x y b).1.grid = (t.drawByte x y b).1.grid := by
      simp only [drawByte, h]
    have hcollision : (s.drawByte x y b).2 = (t.drawByte x y b).2 := by
      simp only [drawByte, h]
    obtain ⟨hrest, hothers⟩ := ih hgrid (y + 1)
    refine ⟨hrest, ?_⟩
    simp only [draw, hcollision, hothers]

theorem shown_congr {s t : Screen} (h : s.grid = t.grid) : s.shown = t.shown := by
  rw [shown, shown, h]

end Screen

namespace Machine

theorem screenAfter_of_clean {m : Machine} {i : Instruction}
    (h : (m.screenAfter i).dirty = false) : m.screenAfter i = m.screen := by
  cases i with
  | clear => cases h
  | draw x y height =>
    rw [screenAfter] at h ⊢
    cases hsprite : m.sprite? height with
    | none => rfl
    | some sprite =>
      rw [hsprite] at h
      exact Screen.draw_of_clean h
  | _ => rfl

theorem screen_step_of_clean {m : Machine} (h : m.step.machine.screen.dirty = false) :
    m.step.machine.screen = m.screen := by
  cases hcurrent : m.current? with
  | none =>
    obtain ⟨f, hf⟩ := step_of_current?_none hcurrent
    rw [hf]
    rfl
  | some i =>
    rw [step_of_current? hcurrent, machine_execute] at h ⊢
    exact screenAfter_of_clean h

theorem screen_tick_of_clean {m : Machine} (h : m.tick.machine.screen.dirty = false) :
    m.tick.machine.screen = m.screen := by
  have htick : m.tick.machine.screen = m.step.machine.screen := screen_countDown _
  rw [htick] at h ⊢
  exact screen_step_of_clean h

/-- Whether an instruction touches the screen: it clears it, or draws a sprite that it
can read and that has a bit set. -/
def touchedBy (m : Machine) : Instruction → Bool
  | .clear => true
  | .draw _ _ height => (m.sprite? height).any fun sprite => sprite.any (· != 0)
  | _ => false

def touches (m : Machine) : Bool :=
  m.current?.any m.touchedBy

theorem dirty_screenAfter (m : Machine) (i : Instruction) :
    (m.screenAfter i).dirty = (m.screen.dirty || m.touchedBy i) := by
  cases i with
  | clear => simp [screenAfter, touchedBy, Screen.clear]
  | draw x y height =>
    rw [screenAfter, touchedBy]
    cases m.sprite? height with
    | none => simp
    | some sprite => exact Screen.dirty_draw _ _ _ sprite
  | _ => exact (Bool.or_false _).symm

theorem dirty_step (m : Machine) :
    m.step.machine.screen.dirty = (m.screen.dirty || m.touches) := by
  cases hcurrent : m.current? with
  | none =>
    obtain ⟨f, hf⟩ := step_of_current?_none hcurrent
    rw [hf, touches, hcurrent]
    exact (Bool.or_false _).symm
  | some i =>
    rw [step_of_current? hcurrent, machine_execute, touches, hcurrent]
    exact dirty_screenAfter m.passed i

/-! ### Nothing reads the flag -/

theorem answerAfter_shown (m : Machine) (i : Instruction) :
    m.shown.answerAfter i = m.answerAfter i := by
  cases i <;> rfl

theorem execute_shown (m : Machine) (i : Instruction) :
    (m.shown.execute i).machine.shown = (m.execute i).machine.shown := by
  rw [machine_execute, machine_execute]
  cases i with
  | arith op x y =>
    have hregisters : (m.shown.executeArith op x y).registers =
        (m.executeArith op x y).registers := registers_executeArith_congr rfl rfl
    simp only [registersAfter, hregisters]
    rfl
  | draw x y height =>
    have hsprite : m.shown.sprite? height = m.sprite? height := rfl
    simp only [registersAfter, screenAfter, hsprite]
    cases m.sprite? height with
    | none => rfl
    | some sprite =>
      obtain ⟨hgrid, hcollision⟩ := Screen.draw_congr (Screen.grid_shown m.screen)
        (m.registers.get x).toNat (m.registers.get y).toNat sprite
      -- the flag register and the screen are all that a drawing writes
      have hregisters := congrArg m.registers.setFlag hcollision
      have hscreen := Screen.shown_congr hgrid
      exact Machine.ext rfl rfl hregisters rfl rfl rfl rfl rfl rfl hscreen rfl rfl
  | _ => rfl

theorem step_shown (m : Machine) :
    m.shown.step.answer = m.step.answer ∧ m.shown.step.machine.shown = m.step.machine.shown := by
  apply step_lockstep (R := fun s t => s.shown = t.shown) (m := m.shown) (n := m) rfl rfl
  intro i _
  rw [answer_execute, answer_execute]
  exact ⟨answerAfter_shown m.passed i, execute_shown m.passed i⟩

theorem countDown_shown (m : Machine) : m.shown.countDown = m.countDown.shown := by
  rw [countDown_eq, countDown_eq]
  rfl

/-- A tick does not look at the flag. -/
theorem tick_shown (m : Machine) :
    m.shown.tick.answer = m.tick.answer ∧ m.shown.tick.machine.shown = m.tick.machine.shown := by
  obtain ⟨hanswer, hmachine⟩ := step_shown m
  refine ⟨hanswer, ?_⟩
  calc m.shown.step.machine.countDown.shown
      = m.shown.step.machine.shown.countDown := (countDown_shown _).symm
    _ = m.step.machine.shown.countDown := congrArg countDown hmachine
    _ = m.step.machine.countDown.shown := countDown_shown _

end Machine

end ChipEight
