import ChipEight.Proofs.Bounds
import Mathlib.Data.List.DropRight
import Mathlib.Data.List.Induction

/-!
Calls and returns.  A call opens a level of the stack and notes the address it came
from there; while the level stays open, nothing writes to its slot, whatever calls,
returns, faults and loads happen above it.  So the return that closes the level goes
back behind the call that opened it, and the depth of the stack is the number of
calls that were opened and not yet closed.
-/

namespace ChipEight

/-! ### Open levels of a stack -/

namespace CallStack

/-- The call that is open at a level came from an address. -/
def OpenFrom (s : CallStack) (level a : Nat) : Prop :=
  level < s.depth ∧ s.slots[level]? = some a

variable {s t : CallStack} {level a b : Nat}

theorem depth_of_push? (h : s.push? a = some t) : t.depth = s.depth + 1 := by
  obtain ⟨-, rfl⟩ := push?_eq_some h
  rfl

theorem depth_of_pop? (h : s.pop? = some (a, t)) : t.depth + 1 = s.depth := by
  obtain ⟨hopen, -, rfl⟩ := pop?_eq_some h
  exact Nat.sub_add_cancel hopen

theorem openFrom_of_push? (h : s.push? a = some t) : t.OpenFrom s.depth a := by
  obtain ⟨hfree, rfl⟩ := push?_eq_some h
  refine ⟨Nat.lt_succ_self _, ?_⟩
  simp [hfree]

theorem OpenFrom.push (h : s.OpenFrom level a) (hpush : s.push? b = some t) :
    t.OpenFrom level a := by
  obtain ⟨-, rfl⟩ := push?_eq_some hpush
  obtain ⟨hlevel, hslot⟩ := h
  refine ⟨Nat.lt_succ_of_lt hlevel, ?_⟩
  rw [Vector.getElem?_setIfInBounds, if_neg (Nat.ne_of_gt hlevel)]
  exact hslot

theorem OpenFrom.pop (h : s.OpenFrom level a) (hpop : s.pop? = some (b, t))
    (hopen : level < t.depth) : t.OpenFrom level a := by
  obtain ⟨-, -, rfl⟩ := pop?_eq_some hpop
  exact ⟨hopen, h.2⟩

theorem OpenFrom.of_close (h : s.OpenFrom level a) (hpop : s.pop? = some (b, t))
    (hclose : t.depth = level) : b = a := by
  obtain ⟨-, rfl, rfl⟩ := pop?_eq_some hpop
  have hlevel : s.depth - 1 = level := hclose
  rw [hlevel, h.2]
  rfl

end CallStack

namespace Instruction

def isCall : Instruction → Bool
  | .call _ => true
  | _ => false

def isReturn : Instruction → Bool
  | .ret => true
  | _ => false

end Instruction

namespace Machine

/-! ### What an operation does to the stack -/

/-- Whether an operation runs a call that goes through. -/
def calls (m : Machine) (o : Operation) : Bool :=
  o.executes && m.current?.any Instruction.isCall && (m.perform o).answer.isOk

/-- Whether an operation runs a return that goes through. -/
def returns (m : Machine) (o : Operation) : Bool :=
  o.executes && m.current?.any Instruction.isReturn && (m.perform o).answer.isOk

/-- What an operation does to the stack, told by whether it calls or returns. -/
inductive StackChange (m : Machine) (o : Operation) : Prop
  | call (calls : m.calls o = true) (returns : m.returns o = false)
      (push : m.stack.push? m.pc = some (m.perform o).machine.stack)
  | ret (calls : m.calls o = false) (returns : m.returns o = true) (a : Nat)
      (pop : m.stack.pop? = some (a, (m.perform o).machine.stack))
      (pc : (m.perform o).machine.pc = a + 2)
  | none (calls : m.calls o = false) (returns : m.returns o = false)
      (stack : (m.perform o).machine.stack = m.stack)

section

variable {m : Machine} {o : Operation} {i : Instruction}

theorem calls_of_current? (h : o.executes = true) (hi : m.current? = some i) :
    m.calls o = (i.isCall && (m.passed.answerAfter i).isOk) := by
  rw [calls, h, hi, isOk_perform_of_current? h hi]
  rfl

theorem returns_of_current? (h : o.executes = true) (hi : m.current? = some i) :
    m.returns o = (i.isReturn && (m.passed.answerAfter i).isOk) := by
  rw [returns, h, hi, isOk_perform_of_current? h hi]
  rfl

theorem stackChange_of_current? (h : o.executes = true) (hi : m.current? = some i) :
    m.StackChange o := by
  have hcalls := calls_of_current? h hi
  have hreturns := returns_of_current? h hi
  have hstack := stack_perform_of_current? h hi
  have hpc := pc_perform_of_current? h hi
  have hunread : m.passed.stack = m.stack := rfl
  cases i with
  | call target =>
    rw [answerAfter, currentAddress_passed, hunread] at hcalls
    rw [stackAfter, currentAddress_passed, hunread] at hstack
    cases hpush : m.stack.push? m.pc with
    | none =>
      rw [hpush] at hcalls hstack
      exact .none hcalls hreturns hstack
    | some stack =>
      rw [hpush] at hcalls hstack
      exact .call hcalls hreturns (hpush.trans (congrArg some hstack.symm))
  | ret =>
    rw [answerAfter, hunread] at hreturns
    rw [stackAfter, hunread] at hstack
    rw [pcAfter, hunread] at hpc
    cases hpop : m.stack.pop? with
    | none =>
      rw [hpop] at hreturns hstack
      exact .none hcalls hreturns hstack
    | some top =>
      obtain ⟨a, stack⟩ := top
      rw [hpop] at hreturns hstack hpc
      exact .ret hcalls hreturns a (by rw [hpop, hstack]; rfl) hpc
  | _ => exact .none hcalls hreturns hstack

end

theorem stackChange_of_executes (m : Machine) {o : Operation} (h : o.executes = true) :
    m.StackChange o := by
  cases hcurrent : m.current? with
  | some i => exact stackChange_of_current? h hcurrent
  | none =>
    obtain ⟨_, _, hmachine⟩ := machine_perform_of_executes m h
    obtain ⟨f, hf⟩ := step_of_current?_none hcurrent
    refine .none (by simp [calls, hcurrent]) (by simp [returns, hcurrent]) ?_
    rw [hmachine, hf]
    rfl

/-- Only calls and returns that go through touch the stack, apart from a reset. -/
theorem stackChange (m : Machine) {o : Operation} (h : o.isReset = false) :
    m.StackChange o := by
  cases o with
  | reset => cases h
  | step => exact m.stackChange_of_executes rfl
  | tick => exact m.stackChange_of_executes rfl
  | load image offset =>
    refine .none rfl rfl ?_
    change (m.load image offset).machine.stack = m.stack
    unfold load
    split <;> rfl
  | _ => exact .none rfl rfl rfl

/-! ### Matching calls and returns -/

theorem openFrom_perform {m : Machine} {o : Operation} {level a : Nat}
    (h : m.stack.OpenFrom level a) (hopen : level < (m.perform o).machine.stack.depth) :
    (m.perform o).machine.stack.OpenFrom level a := by
  cases hreset : o.isReset with
  | true =>
    cases o with
    | reset => exact absurd hopen (Nat.not_lt_zero level)
    | _ => cases hreset
  | false =>
    cases m.stackChange hreset with
    | call _ _ hpush => exact h.push hpush
    | ret _ _ _ hpop _ => exact h.pop hpop hopen
    | none _ _ hstack => rwa [hstack]

/-- The operation at position `t` runs a call that goes through. -/
def CallsAt (m : Machine) (operations : List Operation) (t : Nat) : Prop :=
  ∃ o, operations[t]? = some o ∧ (m.before operations t).calls o = true

/-- The operation at position `t` runs a return that goes through. -/
def ReturnsAt (m : Machine) (operations : List Operation) (t : Nat) : Prop :=
  ∃ o, operations[t]? = some o ∧ (m.before operations t).returns o = true

/-- The return at position `t` closes the level that the call at position `s` has
opened.  There is no reset in between, since it would close all levels. -/
structure ClosesAt (m : Machine) (operations : List Operation) (s t : Nat) : Prop where
  earlier : s < t
  calls : m.CallsAt operations s
  returns : m.ReturnsAt operations t
  stays : ∀ u, s < u → u ≤ t →
    (m.before operations s).stack.depth < (m.before operations u).stack.depth
  closes : (m.before operations (t + 1)).stack.depth = (m.before operations s).stack.depth

variable {m : Machine} {operations : List Operation} {s t : Nat}

theorem isReset_of_calls {o : Operation} (h : m.calls o = true) : o.isReset = false := by
  cases o with
  | reset => cases h
  | _ => rfl

theorem isReset_of_returns {o : Operation} (h : m.returns o = true) : o.isReset = false := by
  cases o with
  | reset => cases h
  | _ => rfl

theorem CallsAt.openFrom (h : m.CallsAt operations s) :
    (m.before operations (s + 1)).stack.OpenFrom (m.before operations s).stack.depth
      (m.before operations s).pc := by
  obtain ⟨o, ho, hcalls⟩ := h
  rw [before_succ m ho]
  cases stackChange _ (isReset_of_calls hcalls) with
  | call _ _ hpush => exact CallStack.openFrom_of_push? hpush
  | ret hnot _ _ _ _ => cases hnot.symm.trans hcalls
  | none hnot _ _ => cases hnot.symm.trans hcalls

theorem CallsAt.openFrom_before (h : m.CallsAt operations s) (hst : s < t)
    (hstays : ∀ u, s < u → u ≤ t →
      (m.before operations s).stack.depth < (m.before operations u).stack.depth) :
    (m.before operations t).stack.OpenFrom (m.before operations s).stack.depth
      (m.before operations s).pc := by
  -- position by position: no operation writes to the slot of a level that it leaves open
  induction t with
  | zero => cases hst
  | succ t ih =>
    rcases Nat.lt_succ_iff_lt_or_eq.1 hst with hlt | rfl
    · have hopen := ih hlt fun u hsu hut => hstays u hsu (Nat.le_succ_of_le hut)
      have hstill := hstays (t + 1) hst (Nat.le_refl _)
      cases ho : operations[t]? with
      | none => rwa [before_succ_of_none m ho]
      | some o =>
        rw [before_succ m ho] at hstill ⊢
        exact openFrom_perform hopen hstill
    · exact h.openFrom

theorem ClosesAt.pc_succ (h : m.ClosesAt operations s t) :
    (m.before operations (t + 1)).pc = (m.before operations s).pc + 2 := by
  have hopen := h.calls.openFrom_before h.earlier h.stays
  have hcloses := h.closes
  obtain ⟨o, ho, hreturns⟩ := h.returns
  rw [before_succ m ho] at hcloses ⊢
  cases stackChange _ (isReset_of_returns hreturns) with
  | call _ hnot _ => cases hnot.symm.trans hreturns
  | ret _ _ a hpop hpc => rw [hpc, hopen.of_close hpop hcloses]
  | none _ hnot _ => cases hnot.symm.trans hreturns

/-! ### The depth counts the open calls -/

/-- The operations of a run behind its last reset, each with the machine it is
performed on. -/
def sinceReset (m : Machine) (operations : List Operation) : List (Machine × Operation) :=
  (m.trace operations).rtakeWhile fun e => !e.2.isReset

/-- How many calls have gone through since the last reset. -/
def callCount (m : Machine) (operations : List Operation) : Nat :=
  (m.sinceReset operations).countP fun e => e.1.calls e.2

/-- How many returns have gone through since the last reset. -/
def returnCount (m : Machine) (operations : List Operation) : Nat :=
  (m.sinceReset operations).countP fun e => e.1.returns e.2

theorem sinceReset_concat (m : Machine) (operations : List Operation) (o : Operation) :
    m.sinceReset (operations ++ [o]) =
      if o.isReset then [] else m.sinceReset operations ++ [(m.performAll operations, o)] := by
  rw [sinceReset, trace_concat, List.rtakeWhile_concat]
  cases o.isReset <;> rfl

theorem depth_add_returnCount (random : RandomSource) (operations : List Operation) :
    ((fresh random).performAll operations).stack.depth +
        (fresh random).returnCount operations = (fresh random).callCount operations := by
  -- from the end of the run: a reset empties both counts, anything else adds at most one to them
  induction operations using List.reverseRecOn with
  | nil => rfl
  | append_singleton operations o ih =>
    rw [callCount, returnCount] at ih ⊢
    rw [sinceReset_concat, performAll_concat]
    cases hreset : o.isReset with
    | true =>
      cases o with
      | reset => rfl
      | _ => cases hreset
    | false =>
      simp only [Bool.false_eq_true, if_false, List.countP_append, List.countP_singleton]
      cases stackChange _ hreset with
      | call hcalls hreturns hpush =>
        rw [hcalls, hreturns, CallStack.depth_of_push? hpush]
        simp only [Bool.false_eq_true, if_false, if_true]
        omega
      | ret hcalls hreturns _ hpop _ =>
        have hdepth := CallStack.depth_of_pop? hpop
        rw [hcalls, hreturns]
        simp only [Bool.false_eq_true, if_false, if_true]
        omega
      | none hcalls hreturns hstack =>
        rw [hcalls, hreturns, hstack]
        simp only [Bool.false_eq_true, if_false]
        omega

/-- A return that closes the level of a call goes to the address behind that call,
on any machine and whatever happens in between.  The depth of the stack is the
number of calls less that of returns that went through since the machine was
switched on or reset last, and never more than sixteen. -/
theorem pc_of_matching_return :
    (∀ (m : Machine) (operations : List Operation) (s t : Nat), m.ClosesAt operations s t →
      (m.before operations (t + 1)).pc = (m.before operations s).pc + 2) ∧
    ∀ (random : RandomSource) (operations : List Operation),
      ((fresh random).performAll operations).stack.depth +
          (fresh random).returnCount operations = (fresh random).callCount operations ∧
        ((fresh random).performAll operations).stack.depth ≤ 16 := by
  refine ⟨fun m operations s t h => h.pc_succ, fun random operations => ⟨?_, ?_⟩⟩
  · exact depth_add_returnCount random operations
  · exact (inBounds_performAll random operations).stack.depth_le

/-- A call of a routine that calls another one, runs an undefined word and is
interrupted by its host. -/
def nestedRun : List Operation :=
  [.load [0x22, 0x04, 0x00, 0xE0, 0x22, 0x08, 0x00, 0xEE, 0xFF, 0xFF, 0x00, 0xEE] 0x200,
   .step, .tick, .press (some 3), .step, .load [] 0, .tick, .snapshot, .step]

theorem pc_of_matching_return_nested :
    (fresh (RandomSource.ofWords [])).ClosesAt nestedRun 1 8 ∧
      ((fresh (RandomSource.ofWords [])).before nestedRun 9).pc = 0x202 ∧
      ((fresh (RandomSource.ofWords [])).performAll nestedRun).stack.depth +
          (fresh (RandomSource.ofWords [])).returnCount nestedRun =
        (fresh (RandomSource.ofWords [])).callCount nestedRun := by
  obtain ⟨hpc, hcalls, hreturns, hdepth, hdone⟩ :
      ((fresh (RandomSource.ofWords [])).before nestedRun 1).pc = 0x200 ∧
        ((fresh (RandomSource.ofWords [])).before nestedRun 1).calls .step = true ∧
        ((fresh (RandomSource.ofWords [])).before nestedRun 8).returns .step = true ∧
        (∀ u ≤ 8, 1 < u → ((fresh (RandomSource.ofWords [])).before nestedRun 1).stack.depth <
          ((fresh (RandomSource.ofWords [])).before nestedRun u).stack.depth) ∧
        ((fresh (RandomSource.ofWords [])).before nestedRun (8 + 1)).stack.depth =
          ((fresh (RandomSource.ofWords [])).before nestedRun 1).stack.depth := by
    decide +kernel
  have hcloses : (fresh (RandomSource.ofWords [])).ClosesAt nestedRun 1 8 :=
    ⟨by decide, ⟨.step, rfl, hcalls⟩, ⟨.step, rfl, hreturns⟩,
      fun u hsu hut => hdepth u hut hsu, hdone⟩
  refine ⟨hcloses, ?_, (pc_of_matching_return.2 _ _).1⟩
  rw [pc_of_matching_return.1 _ _ _ _ hcloses, hpc]

end Machine

end ChipEight
