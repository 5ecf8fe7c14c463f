import ChipEight.Proofs.Runs
import Mathlib.Control.Monad.Basic

/-!
Settings act through the instructions that follow them.  Two machines that differ in their
settings alone, under the same operations, answer alike and go on differing in the settings
alone until one of them runs an instruction that follows a setting on which they differ.
An operation of the host that does not set a setting leaves all of them as they are.
-/

namespace ChipEight

def Settings.get (s : Settings) : Setting → Bool
  | .shiftFromY => s.shiftFromY
  | .jumpFromX => s.jumpFromX
  | .advanceIndex => s.advanceIndex
  | .xorSetsFlag => s.xorSetsFlag

/-- The setting that an instruction follows, if it follows one. -/
def Instruction.setting? : Instruction → Option Setting
  | .arith .shiftRight .. | .arith .shiftLeft .. => some .shiftFromY
  | .jumpOffset .. => some .jumpFromX
  | .storeRegisters _ | .loadRegisters _ => some .advanceIndex
  | .arith .xor .. => some .xorSetsFlag
  | _ => none

namespace Machine

def under (m : Machine) (s : Settings) : Machine :=
  { m with settings := s }

def SameButSettings (m n : Machine) : Prop :=
  ∃ s, n = m.under s

def setting? (m : Machine) : Option Setting :=
  m.current?.bind Instruction.setting?

/-- Whether the next step follows a setting on which another machine differs. -/
def divergesFrom (m n : Machine) : Bool :=
  m.setting?.any fun q => m.settings.get q != n.settings.get q

/-! ### One operation -/

theorem eval_congr {s t : Settings} {op : ArithOp} {x y : RegisterName}
    (h : ∀ q, (Instruction.arith op x y).setting? = some q → s.get q = t.get q) (a b : UInt8) :
    op.eval s a b = op.eval t a b := by
  cases op with
  | xor =>
    have hflag : s.xorSetsFlag = t.xorSetsFlag := h .xorSetsFlag rfl
    simp only [ArithOp.eval, hflag]
  | shiftRight =>
    have hshift : s.shiftFromY = t.shiftFromY := h .shiftFromY rfl
    simp only [ArithOp.eval, hshift]
  | shiftLeft =>
    have hshift : s.shiftFromY = t.shiftFromY := h .shiftFromY rfl
    simp only [ArithOp.eval, hshift]
  | _ => rfl

theorem indexBehind_under {m : Machine} {s : Settings}
    (h : m.settings.get .advanceIndex = s.get .advanceIndex) (count : Nat) :
    (m.under s).indexBehind count = m.indexBehind count := by
  have hadvance : (m.under s).settings.advanceIndex = m.settings.advanceIndex := h.symm
  rw [indexBehind, indexBehind, hadvance]
  rfl

/-- An instruction looks at no setting but the one it follows. -/
theorem execute_under {m : Machine} {s : Settings} {i : Instruction}
    (h : ∀ q, i.setting? = some q → m.settings.get q = s.get q) :
    ((m.under s).execute i).answer = (m.execute i).answer ∧
      ((m.under s).execute i).machine = (m.execute i).machine.under s := by
  rw [answer_execute, answer_execute, machine_execute, machine_execute]
  cases i with
  | arith op x y =>
    have hregisters : ((m.under s).executeArith op x y).registers =
        (m.executeArith op x y).registers :=
      registers_executeArith_congr rfl (eval_congr h _ _).symm
    simp only [registersAfter, hregisters]
    exact ⟨rfl, rfl⟩
  | jumpOffset base x =>
    have hjump : (m.under s).settings.jumpFromX = m.settings.jumpFromX := (h .jumpFromX rfl).symm
    simp only [pcAfter, hjump]
    exact ⟨rfl, rfl⟩
  | storeRegisters x =>
    simp only [indexAfter, indexBehind_under (h .advanceIndex rfl)]
    exact ⟨rfl, rfl⟩
  | loadRegisters x =>
    simp only [indexAfter, indexBehind_under (h .advanceIndex rfl)]
    exact ⟨rfl, rfl⟩
  | _ => exact ⟨rfl, rfl⟩

theorem step_under {m : Machine} {s : Settings} (h : m.divergesFrom (m.under s) = false) :
    m.step.answer = (m.under s).step.answer ∧
      (m.under s).step.machine = m.step.machine.under s := by
  apply step_lockstep (R := fun m n => n = m.under s) (m := m) (n := m.under s) rfl rfl
  intro i hcurrent
  have hfollows : ∀ q, i.setting? = some q → m.settings.get q = s.get q := by
    intro q hq
    rw [divergesFrom, setting?, hcurrent, Option.bind_some, hq] at h
    exact bne_eq_false_iff_eq.1 h
  obtain ⟨hanswer, hmachine⟩ := execute_under (m := m.passed) hfollows
  exact ⟨hanswer.symm, hmachine⟩

theorem countDown_under (m : Machine) (s : Settings) :
    (m.under s).countDown = m.countDown.under s := by
  rw [countDown_eq, countDown_eq]
  rfl

theorem load_under (m : Machine) (s : Settings) (image : List UInt8) (offset : Nat) :
    (m.load image offset).answer = ((m.under s).load image offset).answer ∧
      ((m.under s).load image offset).machine = (m.load image offset).machine.under s := by
  apply load_lockstep (R := fun m n => n = m.under s) (m := m) (n := m.under s) rfl rfl
  intro memory
  rfl

theorem settings_perform (m : Machine) {o : Operation} (h : ∀ q on, o ≠ .configure q on) :
    (m.perform o).machine.settings = m.settings := by
  have hstep : m.step.machine.settings = m.settings := by
    rcases m.machine_step_cases with heq | ⟨i, -, heq⟩
    · rw [heq]
    · rw [heq, machine_execute]
      rfl
  cases o with
  | configure q on => exact absurd rfl (h q on)
  | load image offset =>
    show (m.load image offset).machine.settings = m.settings
    unfold load
    split <;> rfl
  | reset => simp only [perform, reset, powerOn]
  | step => exact hstep
  | tick =>
    show m.step.machine.countDown.settings = m.settings
    rw [countDown_eq]
    exact hstep
  | _ => rfl

/-- An operation does the same to machines that are the same but for their settings, unless
it runs an instruction that follows a setting on which they differ. -/
theorem SameButSettings.perform {m n : Machine} (h : SameButSettings m n) {o : Operation}
    (hquiet : o.executes = true → m.divergesFrom n = false) :
    (m.perform o).answer = (n.perform o).answer ∧
      SameButSettings (m.perform o).machine (n.perform o).machine := by
  obtain ⟨s, rfl⟩ := h
  cases o with
  | configure q on => exact ⟨rfl, s.set q on, rfl⟩
  | load image offset =>
    obtain ⟨hanswer, hmachine⟩ := m.load_under s image offset
    exact ⟨congrArg (Except.map Reply.loaded) hanswer, s, hmachine⟩
  | step =>
    obtain ⟨hanswer, hmachine⟩ := step_under (hquiet rfl)
    exact ⟨congrArg (Except.map fun _ => Reply.nothing) hanswer, s, hmachine⟩
  | tick =>
    obtain ⟨hanswer, hmachine⟩ := step_under (hquiet rfl)
    refine ⟨congrArg (Except.map fun _ => Reply.nothing) hanswer, s, ?_⟩
    show (m.under s).step.machine.countDown = m.step.machine.countDown.under s
    rw [hmachine, countDown_under]
  | _ => exact ⟨rfl, s, rfl⟩

/-! ### Two runs -/

/-- The operation at position `t` of a run runs an instruction that follows a setting on
which the machines differ by then. -/
def DivergesAt (m n : Machine) (operations : List Operation) (t : Nat) : Prop :=
  operations[t]?.any Operation.executes = true ∧
    (m.before operations t).divergesFrom (n.before operations t) = true

/-- Two machines that are the same but for their settings, under the same operations of a
host: as long as no instruction is run that follows a setting on which they differ, every
operation answers alike, faults included, and the machines stay the same but for their
settings.  The settings themselves change only where the host sets one: what runs, what is
loaded and a reset leave them alone. -/
theorem sameButSettings_until_divergesAt (m n : Machine) (operations : List Operation) :
    (∀ t, SameButSettings m n → (∀ u < t, ¬ m.DivergesAt n operations u) →
      (∀ u < t, ∀ o, operations[u]? = some o →
        ((m.before operations u).perform o).answer =
          ((n.before operations u).perform o).answer) ∧
        SameButSettings (m.before operations t) (n.before operations t)) ∧
    ∀ o, (∀ q on, o ≠ .configure q on) → (m.perform o).machine.settings = m.settings := by
  refine ⟨fun t hsame hquiet => ?_, fun o h => m.settings_perform h⟩
  apply before_lockstep hsame
  intro u hu o ho hrelated
  apply hrelated.perform
  intro hexecutes
  rw [Bool.eq_false_iff]
  intro hdiverges
  exact hquiet u hu ⟨by rw [ho]; exact hexecutes, hdiverges⟩

/-- An exclusive or, which sets the flag on both machines below, an undefined word, a load
that fails, and a shift. -/
def contestedRun : List Operation :=
  [.load [0x60, 0x03, 0x81, 0x03, 0xFF, 0xFF, 0x80, 0x16] 0x200, .tick, .press (some 3), .step,
    .tick, .load [1] 0x100, .step]

def peculiar (random : RandomSource) : Machine :=
  (fresh random).under ⟨true, true, true, true⟩

theorem sameButSettings_until_divergesAt_contestedRun :
    (∀ u < 6, ¬ (fresh (RandomSource.ofWords [])).DivergesAt
      (peculiar (RandomSource.ofWords [])) contestedRun u) ∧
    ((peculiar (RandomSource.ofWords [])).before contestedRun 4).tick.answer =
      .error (.undefinedWord 0xFFFF 0x204) ∧
    SameButSettings ((fresh (RandomSource.ofWords [])).before contestedRun 6)
      ((peculiar (RandomSource.ofWords [])).before contestedRun 6) ∧
    (fresh (RandomSource.ofWords [])).DivergesAt (peculiar (RandomSource.ofWords []))
      contestedRun 6 ∧
    ((peculiar (RandomSource.ofWords [])).perform .reset).machine.settings =
      ⟨true, true, true, true⟩ := by
  have hquiet : ∀ u < 6, ¬ (fresh (RandomSource.ofWords [])).DivergesAt
      (peculiar (RandomSource.ofWords [])) contestedRun u := by
    unfold DivergesAt
    decide +kernel
  have hsame : SameButSettings (fresh (RandomSource.ofWords []))
      (peculiar (RandomSource.ofWords [])) := ⟨⟨true, true, true, true⟩, rfl⟩
  have hagree := sameButSettings_until_divergesAt (fresh (RandomSource.ofWords []))
    (peculiar (RandomSource.ofWords [])) contestedRun
  have hkept := sameButSettings_until_divergesAt (peculiar (RandomSource.ofWords []))
    (fresh (RandomSource.ofWords [])) []
  refine ⟨hquiet, by decide +kernel, (hagree.1 6 hsame hquiet).2, ?_, ?_⟩
  · unfold DivergesAt
    decide +kernel
  · exact hkept.2 .reset nofun

end Machine

end ChipEight
