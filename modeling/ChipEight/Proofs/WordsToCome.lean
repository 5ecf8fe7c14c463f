import ChipEight.Proofs.Runs

/-!
What a machine knows of its random source.  It sees the words that the source has still to
give, one at each random instruction, and not how many were drawn before or what they were.
So two machines that differ in nothing else, and whose sources have the same words to give,
answer alike under the same operations and remain so.
-/

namespace ChipEight

namespace RandomSource

/-- The words that a source has still to give. -/
def upcoming (r : RandomSource) (k : Nat) : UInt32 :=
  r.stream (r.drawn + k)

theorem upcoming_advance (r : RandomSource) (k : Nat) :
    r.advance.upcoming k = r.upcoming (k + 1) := by
  show r.stream (r.drawn + 1 + k) = r.stream (r.drawn + (k + 1))
  rw [Nat.add_assoc, Nat.add_comm 1 k]

def remaining (r : RandomSource) : RandomSource :=
  ⟨r.upcoming, 0⟩

theorem upcoming_remaining (r : RandomSource) : r.remaining.upcoming = r.upcoming := by
  funext k
  show r.stream (r.drawn + (0 + k)) = r.stream (r.drawn + k)
  rw [Nat.zero_add]

variable {r s : RandomSource}

theorem byte_of_upcoming (h : s.upcoming = r.upcoming) : s.byte = r.byte :=
  congrArg UInt32.toUInt8 (congrFun h 0)

theorem advance_of_upcoming (h : s.upcoming = r.upcoming) :
    s.advance.upcoming = r.advance.upcoming := by
  funext k
  rw [upcoming_advance, upcoming_advance, h]

end RandomSource

namespace Machine

/-- Two machines are the same but for the past of their random sources: the words still to
come are the same. -/
def SameButDrawn (m n : Machine) : Prop :=
  ∃ source, source.upcoming = m.random.upcoming ∧ n = m.drawFrom source

variable {m n : Machine}

theorem SameButDrawn.symm (h : SameButDrawn m n) : SameButDrawn n m := by
  obtain ⟨source, hwords, rfl⟩ := h
  exact ⟨m.random, hwords.symm, rfl⟩

/-- An instruction draws the same word from sources that have the same words to give. -/
theorem execute_drawFrom {source : RandomSource} (h : source.upcoming = m.random.upcoming)
    (i : Instruction) :
    ((m.drawFrom source).execute i).answer = (m.execute i).answer ∧
      ((m.drawFrom source).execute i).machine =
        (m.execute i).machine.drawFrom ((m.drawFrom source).randomAfter i) := by
  rw [answer_execute, answer_execute, machine_execute, machine_execute]
  cases i with
  | arith op x y =>
    have hregisters : ((m.drawFrom source).executeArith op x y).registers =
        (m.executeArith op x y).registers := registers_executeArith_congr rfl rfl
    simp only [registersAfter, hregisters]
    exact ⟨rfl, rfl⟩
  | random x mask =>
    have hbyte : (m.drawFrom source).random.byte = m.random.byte :=
      RandomSource.byte_of_upcoming h
    simp only [registersAfter, hbyte]
    exact ⟨rfl, rfl⟩
  | _ => exact ⟨rfl, rfl⟩

theorem upcoming_randomAfter {source : RandomSource} (h : source.upcoming = m.random.upcoming)
    (i : Instruction) :
    ((m.drawFrom source).randomAfter i).upcoming = (m.randomAfter i).upcoming := by
  cases i with
  | random x mask => exact RandomSource.advance_of_upcoming h
  | _ => exact h

theorem SameButDrawn.step (h : SameButDrawn m n) :
    m.step.answer = n.step.answer ∧ SameButDrawn m.step.machine n.step.machine := by
  obtain ⟨source, hwords, rfl⟩ := h
  apply step_lockstep (R := SameButDrawn) (m := m) (n := m.drawFrom source) rfl
    ⟨source, hwords, rfl⟩
  intro i _
  obtain ⟨hanswer, hmachine⟩ := execute_drawFrom (m := m.passed) hwords i
  refine ⟨hanswer.symm, _, ?_, hmachine⟩
  rw [upcoming_randomAfter (m := m.passed) hwords, machine_execute]

theorem SameButDrawn.countDown (h : SameButDrawn m n) : SameButDrawn m.countDown n.countDown := by
  obtain ⟨source, hwords, rfl⟩ := h
  rw [countDown_eq, countDown_eq]
  exact ⟨source, hwords, rfl⟩

theorem SameButDrawn.tick (h : SameButDrawn m n) :
    m.tick.answer = n.tick.answer ∧ SameButDrawn m.tick.machine n.tick.machine :=
  ⟨h.step.1, h.step.2.countDown⟩

theorem SameButDrawn.load (h : SameButDrawn m n) (image : List UInt8) (offset : Nat) :
    (m.load image offset).answer = (n.load image offset).answer ∧
      SameButDrawn (m.load image offset).machine (n.load image offset).machine := by
  obtain ⟨source, hwords, rfl⟩ := h
  apply load_lockstep (R := SameButDrawn) (m := m) (n := m.drawFrom source) rfl
    ⟨source, hwords, rfl⟩
  intro memory
  exact ⟨source, hwords, rfl⟩

theorem sameButDrawn_powerOn (settings : Settings) {r s : RandomSource}
    (h : s.upcoming = r.upcoming) : SameButDrawn (powerOn settings r) (powerOn settings s) := by
  refine ⟨s, ?_, ?_⟩
  · simpa only [powerOn] using h
  · simp only [powerOn, drawFrom]

/-- No operation of a host looks at the past of the random source. -/
theorem SameButDrawn.perform (h : SameButDrawn m n) (o : Operation) :
    (m.perform o).answer = (n.perform o).answer ∧
      SameButDrawn (m.perform o).machine (n.perform o).machine := by
  cases o with
  | load image offset =>
    obtain ⟨hanswer, hmachine⟩ := h.load image offset
    exact ⟨congrArg (Except.map Reply.loaded) hanswer, hmachine⟩
  | step =>
    obtain ⟨hanswer, hmachine⟩ := h.step
    exact ⟨congrArg (Except.map fun _ => Reply.nothing) hanswer, hmachine⟩
  | tick =>
    obtain ⟨hanswer, hmachine⟩ := h.tick
    exact ⟨congrArg (Except.map fun _ => Reply.nothing) hanswer, hmachine⟩
  | reset =>
    obtain ⟨source, hwords, rfl⟩ := h
    exact ⟨rfl, sameButDrawn_powerOn m.settings hwords⟩
  | drawFrom source =>
    obtain ⟨_, _, rfl⟩ := h
    exact ⟨rfl, source, rfl, rfl⟩
  | _ =>
    obtain ⟨source, hwords, rfl⟩ := h
    exact ⟨rfl, source, hwords, rfl⟩

theorem SameButDrawn.before (h : SameButDrawn m n) (operations : List Operation) (t : Nat) :
    (∀ u < t, ∀ o, operations[u]? = some o →
      ((m.before operations u).perform o).answer =
        ((n.before operations u).perform o).answer) ∧
      SameButDrawn (m.before operations t) (n.before operations t) :=
  before_lockstep h fun _ _ o _ hrelated => hrelated.perform o

end Machine

end ChipEight
