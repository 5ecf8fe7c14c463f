import ChipEight.Proofs.ScreenFlag
import Mathlib.Data.List.Induction

/-!
When the screen of a host is out of date.  A host that shows the frame it was
handed last and looks at the flag to learn of a newer one is right as long as it
does not reset the machine: drawing and clearing set the flag whenever they
change a pixel.  A reset blanks the screen and clears the flag, so from a reset
to the next snapshot or touch of the screen a frame that was not blank stays on
the host's screen unnoticed.  `stale_iff` says that this is the only way.
-/

namespace ChipEight.Machine

/-! ### What keeps the flag keeps the screen -/

theorem screen_perform_of_clean {m : Machine} {o : Operation} (hsnapshot : o ≠ .snapshot)
    (hreset : o ≠ .reset) (h : (m.perform o).machine.screen.dirty = false) :
    (m.perform o).machine.screen = m.screen := by
  cases o with
  | step => exact screen_step_of_clean h
  | tick => exact screen_tick_of_clean h
  | load image offset =>
    change (m.load image offset).machine.screen = m.screen
    unfold load
    split <;> rfl
  | snapshot => exact absurd rfl hsnapshot
  | reset => exact absurd rfl hreset
  | _ => rfl

/-! ### What a host was handed -/

def answers (m : Machine) : List Operation → List (Except Fault Reply)
  | [] => []
  | o :: rest => (m.perform o).answer :: (m.perform o).machine.answers rest

def frameOf? : Except Fault Reply → Option Grid
  | .ok (.frame grid) => some grid
  | _ => none

/-- The frame that a run handed over last; blank, as the screen of a fresh machine
is, if there was none. -/
def lastFrame (m : Machine) (operations : List Operation) : Grid :=
  ((m.answers operations).filterMap frameOf?).getLast?.getD Grid.blank

theorem answers_concat (m : Machine) (operations : List Operation) (o : Operation) :
    m.answers (operations ++ [o]) =
      m.answers operations ++ [((m.performAll operations).perform o).answer] := by
  induction operations generalizing m with
  | nil => rfl
  | cons first rest ih =>
    rw [List.cons_append, answers, answers, ih]
    rfl

theorem lastFrame_snapshot (m : Machine) (operations : List Operation) :
    m.lastFrame (operations ++ [.snapshot]) = (m.performAll operations).frame := by
  simp [lastFrame, answers_concat, perform, frameOf?]

theorem frameOf?_perform (m : Machine) {o : Operation} (h : o ≠ .snapshot) :
    frameOf? (m.perform o).answer = none := by
  cases o with
  | snapshot => exact absurd rfl h
  | load image offset =>
    rw [perform]
    cases (m.load image offset).answer <;> rfl
  | step =>
    rw [perform]
    cases m.step.answer <;> rfl
  | tick =>
    rw [perform]
    cases m.tick.answer <;> rfl
  | _ => rfl

theorem lastFrame_concat (m : Machine) (operations : List Operation) {o : Operation}
    (h : o ≠ .snapshot) : m.lastFrame (operations ++ [o]) = m.lastFrame operations := by
  simp [lastFrame, answers_concat, frameOf?_perform _ h]

/-- A reset came after the last snapshot. -/
def ResetSinceFrame (operations : List Operation) : Prop :=
  ∃ earlier later, operations = earlier ++ Operation.reset :: later ∧
    Operation.snapshot ∉ later

theorem resetSinceFrame_concat (operations : List Operation) (o : Operation) :
    ResetSinceFrame (operations ++ [o]) ↔
      o = .reset ∨ (o ≠ .snapshot ∧ ResetSinceFrame operations) := by
  constructor
  · rintro ⟨earlier, later, heq, hnone⟩
    rcases List.eq_nil_or_concat later with rfl | ⟨init, last, rfl⟩
    · have hlast := (List.append_inj' heq rfl).2
      exact Or.inl (List.cons.inj hlast).1
    · rw [List.concat_eq_append, ← List.cons_append, ← List.append_assoc] at heq
      obtain ⟨hinit, hlast⟩ := List.append_inj' heq rfl
      obtain rfl := (List.cons.inj hlast).1
      refine Or.inr ⟨fun hsnapshot => hnone (by simp [hsnapshot]), earlier, init, hinit, ?_⟩
      exact fun hmem => hnone (by simp [hmem])
  · rintro (rfl | ⟨hsnapshot, earlier, later, rfl, hnone⟩)
    · exact ⟨operations, [], rfl, List.not_mem_nil⟩
    · refine ⟨earlier, later ++ [o], by simp, ?_⟩
      rw [List.mem_append, List.mem_singleton]
      rintro (hmem | heq)
      · exact hnone hmem
      · exact hsnapshot heq.symm

/-! ### Stale screens -/

theorem frame_of_clean (random : RandomSource) (operations : List Operation)
    (h : ((fresh random).performAll operations).screen.dirty = false) :
    (ResetSinceFrame operations →
      ((fresh random).performAll operations).frame = Grid.blank) ∧
    (¬ ResetSinceFrame operations →
      ((fresh random).performAll operations).frame = (fresh random).lastFrame operations) := by
  induction operations using List.reverseRecOn with
  | nil => exact ⟨fun _ => rfl, fun _ => rfl⟩
  | append_singleton operations o ih =>
    rw [performAll_concat] at h ⊢
    rw [resetSinceFrame_concat]
    by_cases hsnapshot : o = .snapshot
    · subst hsnapshot
      rw [lastFrame_snapshot]
      exact ⟨fun hsince => by simp at hsince, fun _ => rfl⟩
    · by_cases hreset : o = .reset
      · subst hreset
        exact ⟨fun _ => rfl, fun hnone => absurd (Or.inl rfl) hnone⟩
      · -- the flag was clear before, and the screen is the one from before
        have hscreen := screen_perform_of_clean hsnapshot hreset h
        rw [hscreen] at h
        simp only [hsnapshot, hreset, false_or, ne_eq, not_false_eq_true, true_and]
        rw [lastFrame_concat _ _ hsnapshot, frame, hscreen]
        exact ih h

/-- The flag is clear, and yet the screen is not the frame handed over last. -/
def Stale (m : Machine) (operations : List Operation) : Prop :=
  (m.performAll operations).screen.dirty = false ∧
    (m.performAll operations).frame ≠ m.lastFrame operations

/-- A host that waits for the flag shows a stale screen exactly if the machine was
reset after it had handed over a frame that is not blank, and the screen was not
touched since. -/
theorem stale_iff (random : RandomSource) (operations : List Operation) :
    (fresh random).Stale operations ↔
      ((fresh random).performAll operations).screen.dirty = false ∧
        ResetSinceFrame operations ∧ (fresh random).lastFrame operations ≠ Grid.blank := by
  constructor
  · rintro ⟨hclean, hstale⟩
    obtain ⟨hblank, hlast⟩ := frame_of_clean random operations hclean
    by_cases hsince : ResetSinceFrame operations
    · rw [hblank hsince] at hstale
      exact ⟨hclean, hsince, hstale.symm⟩
    · exact absurd (hlast hsince) hstale
  · rintro ⟨hclean, hsince, hlit⟩
    obtain ⟨hblank, -⟩ := frame_of_clean random operations hclean
    refine ⟨hclean, ?_⟩
    rw [hblank hsince]
    exact hlit.symm

/-- Draw the digit zero, hand the frame over, reset: the digit stays on. -/
theorem stale_after_reset :
    (fresh (RandomSource.ofWords [])).Stale
      [.load [0xD0, 0x05] 0x200, .step, .snapshot, .reset] := by
  unfold Stale
  decide +kernel

end ChipEight.Machine
