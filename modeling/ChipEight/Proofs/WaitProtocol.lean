import ChipEight.Proofs.Faults
import ChipEight.Proofs.Footprints
import ChipEight.Proofs.KeyWait

/-!
The protocol of a wait for a key, told from what a host does.  A host strikes keys and takes
steps; which key is held at which step follows from that alone.  The first step that finds a
key held is the press, and the first after it that does not find that key held is the
release.  `wait_protocol` says that up to the release the machine stands still, and that the
release delivers the key of the press; what happens to the keys between two steps counts
only by the key that is held in the end.
-/

namespace ChipEight

namespace Operation

def heldAfter (held : Option Key) : Operation → Option Key
  | .press (some k) => some k
  | .release | .reset => none
  | _ => held

def strikes : Operation → Bool
  | .press _ | .release => true
  | _ => false

theorem executes_of_strikes {o : Operation} (h : o.strikes = true) : o.executes = false := by
  cases o with
  | press | release => rfl
  | _ => cases h

end Operation

namespace Schedule

def heldBehind (held : Option Key) (operations : List Operation) : Option Key :=
  operations.foldl Operation.heldAfter held

/-- The key that is held when the operation at position `t` comes. -/
def heldAt (held : Option Key) (operations : List Operation) (t : Nat) : Option Key :=
  heldBehind held (operations.take t)

/-- The operation at position `t` runs an instruction. -/
def StepAt (operations : List Operation) (t : Nat) : Prop :=
  operations[t]?.any Operation.executes = true

instance (operations : List Operation) (t : Nat) : Decidable (StepAt operations t) :=
  inferInstanceAs (Decidable (_ = true))

/-- The step at position `p` is the first that finds a key held. -/
structure PressStep (held : Option Key) (operations : List Operation) (p : Nat) (k : Key) :
    Prop where
  step : StepAt operations p
  found : heldAt held operations p = some k
  first : ∀ u < p, StepAt operations u → heldAt held operations u = none

/-- What the steps before position `t` have found: no key, or a key that has been held at
all of them from the press on. -/
inductive Noted (held : Option Key) (operations : List Operation) (t : Nat) :
    Option Key → Prop
  | unheard (none_held : ∀ u < t, StepAt operations u → heldAt held operations u = none) :
      Noted held operations t none
  | pressed {p : Nat} {k : Key} (earlier : p < t) (press : PressStep held operations p k)
      (since : ∀ u < t, p < u → StepAt operations u →
        heldAt held operations u = some k) :
      Noted held operations t (some k)

/-- The step at position `r` is the first behind the press that does not find the key of the
press held; it may find another one. -/
structure ReleaseStep (held : Option Key) (operations : List Operation) (r : Nat) (k : Key) :
    Prop where
  noted : Noted held operations r (some k)
  step : StepAt operations r
  released : heldAt held operations r ≠ some k

variable {held : Option Key} {operations : List Operation} {p r t : Nat} {k : Key}

theorem heldAt_succ {o : Operation} (ho : operations[t]? = some o) :
    heldAt held operations (t + 1) = o.heldAfter (heldAt held operations t) := by
  simp only [heldAt, heldBehind, List.take_add_one, ho, Option.toList_some, List.foldl_append,
    List.foldl_cons, List.foldl_nil]

theorem heldAt_succ_of_none (h : operations[t]? = none) :
    heldAt held operations (t + 1) = heldAt held operations t := by
  simp [heldAt, List.take_add_one, h]

theorem getElem?_of_stepAt (keys : ∀ o ∈ operations, o.strikes = true ∨ o = .step)
    (hstep : StepAt operations t) : operations[t]? = some .step := by
  cases ho : operations[t]? with
  | none => simp [StepAt, ho] at hstep
  | some o =>
    rcases keys o (List.mem_of_getElem? ho) with hstrikes | rfl
    · simp [StepAt, ho, Operation.executes_of_strikes hstrikes] at hstep
    · rfl

/-! ### There is one press and one release -/

theorem PressStep.not_unheard (h : PressStep held operations p k) (hp : p < t) :
    ¬ ∀ u < t, StepAt operations u → heldAt held operations u = none := by
  intro hnone
  have hp' := hnone p hp h.step
  rw [h.found] at hp'
  cases hp'

theorem PressStep.eq {p' : Nat} {k' : Key} (h : PressStep held operations p k)
    (h' : PressStep held operations p' k') : p = p' ∧ k = k' := by
  rcases Nat.lt_trichotomy p p' with hlt | rfl | hlt
  · exact absurd h'.first (h.not_unheard hlt)
  · exact ⟨rfl, Option.some.inj (h.found.symm.trans h'.found)⟩
  · exact absurd h.first (h'.not_unheard hlt)

theorem Noted.eq {a b : Option Key} (h : Noted held operations t a)
    (h' : Noted held operations t b) : a = b := by
  cases h with
  | unheard hnone =>
    cases h' with
    | unheard => rfl
    | pressed earlier press => exact absurd hnone (press.not_unheard earlier)
  | pressed earlier press =>
    cases h' with
    | unheard hnone => exact absurd hnone (press.not_unheard earlier)
    | pressed earlier' press' => rw [(press.eq press').2]

theorem ReleaseStep.not_noted (h : ReleaseStep held operations r k) (hrt : r < t)
    {a : Option Key} : ¬ Noted held operations t a := by
  intro hnoted
  obtain ⟨hr, step, released⟩ := h
  cases hr with
  | pressed earlier press since =>
    cases hnoted with
    | unheard hnone => exact press.not_unheard (Nat.lt_trans earlier hrt) hnone
    | pressed earlier' press' since' =>
      obtain ⟨rfl, rfl⟩ := press.eq press'
      exact released (since' r hrt earlier step)

/-! ### One position further -/

theorem Noted.succ_of_not_step {a : Option Key} (h : Noted held operations t a)
    (hstep : ¬ StepAt operations t) : Noted held operations (t + 1) a := by
  cases h with
  | unheard hnone =>
    exact .unheard (Nat.forall_lt_succ_right.2 ⟨hnone, fun hstept => absurd hstept hstep⟩)
  | pressed earlier press since =>
    exact .pressed (Nat.lt_succ_of_lt earlier) press
      (Nat.forall_lt_succ_right.2 ⟨since, fun _ hstept => absurd hstept hstep⟩)

theorem Noted.succ_of_step (h : Noted held operations t none) (hstep : StepAt operations t) :
    Noted held operations (t + 1) (heldAt held operations t) := by
  cases h with
  | unheard hnone =>
    cases hheld : heldAt held operations t with
    | none => exact .unheard (Nat.forall_lt_succ_right.2 ⟨hnone, fun _ => hheld⟩)
    | some k => exact .pressed (Nat.lt_succ_self t) ⟨hstep, hheld, hnone⟩ fun u _ htu => by omega

theorem Noted.succ_of_held (h : Noted held operations t (some k))
    (hheld : heldAt held operations t = some k) : Noted held operations (t + 1) (some k) := by
  cases h with
  | pressed earlier press since =>
    exact .pressed (Nat.lt_succ_of_lt earlier) press
      (Nat.forall_lt_succ_right.2 ⟨since, fun _ _ => hheld⟩)

end Schedule

namespace Machine

open Schedule

/-! ### The held key follows from the operations -/

theorem held_step (m : Machine) : m.step.machine.keypad.held = m.keypad.held := by
  rcases m.machine_step_cases with heq | ⟨i, -, heq⟩
  · rw [heq]
  · rw [heq]
    rcases part_execute m.passed i .held with hsame | hwritten
    · exact hsame.symm
    · cases i <;> exact False.elim hwritten

theorem held_perform (m : Machine) (o : Operation) :
    (m.perform o).machine.keypad.held = o.heldAfter m.keypad.held := by
  cases o with
  | step => exact held_step m
  | tick => exact (congrArg Keypad.held (keypad_countDown _)).trans (held_step m)
  | load image offset =>
    obtain ⟨_, _, heq⟩ := machine_load m image offset
    change (m.load image offset).machine.keypad.held = m.keypad.held
    rw [heq]
  | press key => cases key <;> rfl
  | _ => rfl

theorem held_performAll (m : Machine) (operations : List Operation) :
    (m.performAll operations).keypad.held = heldBehind m.keypad.held operations := by
  induction operations generalizing m with
  | nil => rfl
  | cons o rest ih => exact (ih _).trans (congrArg (heldBehind · rest) (held_perform m o))

theorem performAll_strikes (m : Machine) {events : List Operation}
    (h : ∀ o ∈ events, o.strikes = true) :
    m.performAll events =
      { m with keypad := { m.keypad with held := heldBehind m.keypad.held events } } := by
  induction events generalizing m with
  | nil => rfl
  | cons o rest ih =>
    have hrest : ∀ e ∈ rest, e.strikes = true := fun e he => h e (List.mem_cons_of_mem o he)
    have hfirst : (m.perform o).machine =
        { m with keypad := { m.keypad with held := o.heldAfter m.keypad.held } } := by
      have hstrikes := h o List.mem_cons_self
      cases o with
      | press key => cases key <;> rfl
      | release => rfl
      | _ => cases hstrikes
    change (m.perform o).machine.performAll rest = _
    rw [ih _ hrest, hfirst]
    rfl

/-- Keys struck between two steps may be replaced by others that leave the same key held. -/
theorem performAll_exchange (m : Machine) {first events others : List Operation}
    (rest : List Operation) (hevents : ∀ o ∈ events, o.strikes = true)
    (hothers : ∀ o ∈ others, o.strikes = true)
    (hheld : heldBehind m.keypad.held (first ++ events) =
      heldBehind m.keypad.held (first ++ others)) :
    m.performAll (first ++ events ++ rest) = m.performAll (first ++ others ++ rest) := by
  have happend (tail : List Operation) : heldBehind m.keypad.held (first ++ tail) =
      heldBehind (m.performAll first).keypad.held tail := by
    rw [held_performAll]
    exact List.foldl_append
  rw [happend, happend] at hheld
  rw [performAll_append, performAll_append, performAll_strikes _ hevents, performAll_append,
    performAll_append, performAll_strikes _ hothers, hheld]

/-! ### One step at a wait -/

section

variable {m : Machine} {x : RegisterName} {k : Key}

theorem answer_step_of_wait (h : m.current? = some (.waitKey x)) : m.step.answer = .ok () := by
  rw [step_of_current? h, answer_execute]
  rfl

theorem step_of_wait (h : m.current? = some (.waitKey x)) (hnone : m.deliverable? = none) :
    m.step.machine =
      { m with keypad := ⟨m.keypad.held, m.keypad.awaited.or m.keypad.held⟩ } := by
  have hpassed : m.passed.deliverable? = none := hnone
  rw [step_of_current? h, machine_execute]
  simp only [registersAfter, pcAfter, keypadAfter, hpassed]
  rfl

theorem step_of_wait_over (h : m.current? = some (.waitKey x)) (hkey : m.deliverable? = some k) :
    m.step.machine =
      { m with
        registers := m.registers.set x (UInt8.ofNat k)
        pc := m.pc + 2
        keypad := { m.keypad with awaited := none } } := by
  have hpassed : m.passed.deliverable? = some k := hkey
  rw [step_of_current? h, machine_execute]
  simp only [registersAfter, pcAfter, keypadAfter, hpassed]
  rfl

end

/-! ### The whole wait -/

/-- Before position `t` the machine has stood still and awaits the key that was noted. -/
def WaitsBefore (m : Machine) (operations : List Operation) (t : Nat) : Prop :=
  ∃ noted, Noted m.keypad.held operations t noted ∧
    m.before operations t =
      { m with keypad := ⟨heldAt m.keypad.held operations t, noted⟩ }

section

variable {m : Machine} {x : RegisterName} {operations : List Operation} {t : Nat}

theorem WaitsBefore.still (h : m.WaitsBefore operations t) :
    m.before operations t = { m with keypad := (m.before operations t).keypad } := by
  obtain ⟨noted, -, heq⟩ := h
  rw [heq]

theorem WaitsBefore.pc (h : m.WaitsBefore operations t) :
    (m.before operations t).pc = m.pc := by
  rw [h.still]

theorem WaitsBefore.current? (h : m.WaitsBefore operations t) :
    (m.before operations t).current? = m.current? := by
  rw [h.still]
  exact current?_congr rfl rfl

theorem WaitsBefore.standsAt {p : Nibbles} (h : m.WaitsBefore operations t)
    (here : m.StandsAt p) : (m.before operations t).StandsAt p := by
  rw [h.still]
  exact ⟨here.inside, here.word⟩

/-- Before the release the machine can deliver the key of the press. -/
theorem WaitsBefore.deliverable? {k : Key} (h : m.WaitsBefore operations t)
    (hrelease : ReleaseStep m.keypad.held operations t k) :
    (m.before operations t).deliverable? = some k := by
  obtain ⟨noted, hnoted, heq⟩ := h
  obtain rfl := hnoted.eq hrelease.noted
  rw [heq]
  exact deliverable?_eq_some.2 ⟨rfl, hrelease.released⟩

theorem WaitsBefore.succ_of_strikes (h : m.WaitsBefore operations t) {o : Operation}
    (ho : operations[t]? = some o) (hstrikes : o.strikes = true) :
    m.WaitsBefore operations (t + 1) := by
  obtain ⟨noted, hnoted, heq⟩ := h
  have hstep : ¬ StepAt operations t := by
    simp [StepAt, ho, Operation.executes_of_strikes hstrikes]
  have hone : ∀ e ∈ [o], e.strikes = true := fun e he => List.mem_singleton.1 he ▸ hstrikes
  refine ⟨noted, hnoted.succ_of_not_step hstep, ?_⟩
  rw [before_succ m ho, heldAt_succ ho, heq]
  exact performAll_strikes _ hone

theorem WaitsBefore.succ_of_step (h : m.WaitsBefore operations t)
    (hcurrent : m.current? = some (.waitKey x)) (ho : operations[t]? = some .step) :
    m.WaitsBefore operations (t + 1) ∨ ∃ k, ReleaseStep m.keypad.held operations t k := by
  have hwait := h.current?.trans hcurrent
  have hstep : StepAt operations t := by rw [StepAt, ho]; rfl
  have hsucc : m.before operations (t + 1) = (m.before operations t).step.machine :=
    before_succ m ho
  have hheld : heldAt m.keypad.held operations (t + 1) = heldAt m.keypad.held operations t :=
    heldAt_succ ho
  obtain ⟨noted, hnoted, heq⟩ := h
  cases noted with
  | none =>
    have hnone : (m.before operations t).deliverable? = none := by rw [heq]; rfl
    refine Or.inl ⟨_, hnoted.succ_of_step hstep, ?_⟩
    rw [hsucc, step_of_wait hwait hnone, hheld, heq]
    rfl
  | some k =>
    by_cases hkey : heldAt m.keypad.held operations t = some k
    · have hnone : (m.before operations t).deliverable? = none := by
        rw [Option.eq_none_iff_forall_ne_some]
        intro j hj
        rw [heq] at hj
        obtain ⟨hawaited, hreleased⟩ := deliverable?_eq_some.1 hj
        exact hreleased (hkey.trans hawaited)
      refine Or.inl ⟨_, hnoted.succ_of_held hkey, ?_⟩
      rw [hsucc, step_of_wait hwait hnone, hheld, heq]
      rfl
    · exact Or.inr ⟨k, hnoted, hstep, hkey⟩

theorem WaitsBefore.succ_of_none (h : m.WaitsBefore operations t)
    (ho : operations[t]? = none) : m.WaitsBefore operations (t + 1) := by
  obtain ⟨noted, hnoted, heq⟩ := h
  have hstep : ¬ StepAt operations t := by simp [StepAt, ho]
  refine ⟨noted, hnoted.succ_of_not_step hstep, ?_⟩
  rw [before_succ_of_none m ho, heldAt_succ_of_none ho, heq]

/-- At each position the wait goes on, or this is the release. -/
theorem WaitsBefore.succ (h : m.WaitsBefore operations t)
    (hcurrent : m.current? = some (.waitKey x))
    (keys : ∀ o ∈ operations, o.strikes = true ∨ o = .step) :
    m.WaitsBefore operations (t + 1) ∨ ∃ k, ReleaseStep m.keypad.held operations t k := by
  cases ho : operations[t]? with
  | none => exact Or.inl (h.succ_of_none ho)
  | some o =>
    rcases keys o (List.mem_of_getElem? ho) with hstrikes | rfl
    · exact Or.inl (h.succ_of_strikes ho hstrikes)
    · exact h.succ_of_step hcurrent ho

theorem waitsBefore (hcurrent : m.current? = some (.waitKey x))
    (idle : m.keypad.awaited = none) (keys : ∀ o ∈ operations, o.strikes = true ∨ o = .step)
    (ht : ∀ r k, ReleaseStep m.keypad.held operations r k → t ≤ r) :
    m.WaitsBefore operations t := by
  induction t with
  | zero =>
    refine ⟨none, .unheard fun u hu => absurd hu (Nat.not_lt_zero u), ?_⟩
    rw [before_zero, ← idle]
    rfl
  | succ t ih =>
    have hwaits := ih fun r k hr => Nat.le_of_succ_le (ht r k hr)
    rcases hwaits.succ hcurrent keys with hnext | ⟨k, hrelease⟩
    · exact hnext
    · exact absurd (ht t k hrelease) (Nat.not_succ_le_self t)

end

/-- A machine stands at a wait for a key into VX and awaits none.  Whatever keys are struck,
the machine is as it was, its keypad apart, until the release comes, and no step fails.
The step of the release puts the key of the press into VX, moves on and forgets the key, and
does nothing else, whichever key is held then.  Without a release the machine stands at the
wait in the end.  Keys struck in a row count only by the key that they leave held: a key
that is pressed and let go between two steps is not seen, and a key that is let go and
pressed again between two steps has been held all along. -/
theorem wait_protocol (m : Machine) {x : Nibble} {operations : List Operation}
    (here : m.StandsAt ⟨0xF, x, 0x0, 0xA⟩) (idle : m.keypad.awaited = none)
    (keys : ∀ o ∈ operations, o.strikes = true ∨ o = .step) :
    (∀ t, (m.before operations t).keypad.held = heldAt m.keypad.held operations t) ∧
    (∀ t, (∀ r k, ReleaseStep m.keypad.held operations r k → t ≤ r) →
      m.before operations t = { m with keypad := (m.before operations t).keypad } ∧
        (m.before operations t).step.answer = .ok ()) ∧
    (∀ r k, ReleaseStep m.keypad.held operations r k →
      m.before operations (r + 1) =
        { m.before operations r with
          registers := (m.before operations r).registers.set x (UInt8.ofNat k)
          pc := (m.before operations r).pc + 2
          keypad := { (m.before operations r).keypad with awaited := none } }) ∧
    ((∀ r k, ¬ ReleaseStep m.keypad.held operations r k) →
      (m.performAll operations).pc = m.pc ∧
        (m.performAll operations).StandsAt ⟨0xF, x, 0x0, 0xA⟩) ∧
    ∀ first events others rest, operations = first ++ events ++ rest →
      (∀ o ∈ events, o.strikes = true) → (∀ o ∈ others, o.strikes = true) →
      heldBehind m.keypad.held (first ++ events) = heldBehind m.keypad.held (first ++ others) →
      m.performAll operations = m.performAll (first ++ others ++ rest) := by
  have hcurrent : m.current? = some (.waitKey x) := here.current?
  refine ⟨fun t => held_performAll m (operations.take t), ?still, ?release, ?unreleased,
    ?exchange⟩
  case still =>
    intro t ht
    have hwaits := waitsBefore hcurrent idle keys ht
    exact ⟨hwaits.still, answer_step_of_wait (hwaits.current?.trans hcurrent)⟩
  case release =>
    intro r k hrelease
    have hwaits : m.WaitsBefore operations r := by
      refine waitsBefore hcurrent idle keys fun r' k' hrelease' => ?_
      by_contra hlt
      exact hrelease'.not_noted (Nat.lt_of_not_le hlt) hrelease.noted
    rw [before_succ m (getElem?_of_stepAt keys hrelease.step)]
    exact step_of_wait_over (hwaits.current?.trans hcurrent) (hwaits.deliverable? hrelease)
  case unreleased =>
    intro hnone
    have hwaits : m.WaitsBefore operations operations.length :=
      waitsBefore hcurrent idle keys fun r k hrelease => absurd hrelease (hnone r k)
    rw [← before_length]
    exact ⟨hwaits.pc, hwaits.standsAt here⟩
  case exchange =>
    rintro first events others rest rfl hevents hothers hheld
    exact performAll_exchange m rest hevents hothers hheld

def waiting : Machine :=
  { fresh (RandomSource.ofWords []) with
    memory := Memory.zero.overwrite Memory.programBase [0xF3, 0x0A] }

/-- Key five is let go before a step comes.  Key seven is let go and pressed again between
two steps, and then gives way to key two. -/
def strikingRun : List Operation :=
  [.step, .press (some 5), .release, .press none, .step, .press (some 7), .step, .release,
    .press (some 7), .step, .press (some 2), .step]

theorem wait_protocol_striking :
    waiting.StandsAt ⟨0xF, 0x3, 0x0, 0xA⟩ ∧ waiting.keypad.awaited = none ∧
      (∀ o ∈ strikingRun, o.strikes = true ∨ o = .step) ∧
      ReleaseStep waiting.keypad.held strikingRun 11 7 ∧
      (waiting.before strikingRun 11).pc = 0x200 ∧
      (waiting.before strikingRun 12).pc = 0x202 ∧
      (waiting.before strikingRun 12).registers.get 3 = 7 ∧
      (waiting.before strikingRun 12).keypad = ⟨some 2, none⟩ ∧
      waiting.performAll strikingRun =
        waiting.performAll (.step :: strikingRun.drop 4) := by
  have here : waiting.StandsAt ⟨0xF, 0x3, 0x0, 0xA⟩ := ⟨by decide, by decide +kernel⟩
  have idle : waiting.keypad.awaited = none := rfl
  have keys : ∀ o ∈ strikingRun, o.strikes = true ∨ o = .step := by
    simp [strikingRun, Operation.strikes]
  have hpress : PressStep waiting.keypad.held strikingRun 6 7 :=
    ⟨by decide, by decide, by decide⟩
  have hsince : ∀ u < 11, 6 < u → StepAt strikingRun u →
      heldAt waiting.keypad.held strikingRun u = some 7 := by decide
  have hrelease : ReleaseStep waiting.keypad.held strikingRun 11 7 :=
    ⟨.pressed (by decide) hpress hsince, by decide, by decide⟩
  obtain ⟨hheld, hstill, hreleased, -, hexchange⟩ := wait_protocol waiting here idle keys
  have hbefore := (hstill 11 fun r k hr => by
    by_contra hlt
    exact hr.not_noted (Nat.lt_of_not_le hlt) hrelease.noted).1
  have hpc : (waiting.before strikingRun 11).pc = 0x200 := by rw [hbefore]; rfl
  have hafter := hreleased 11 7 hrelease
  refine ⟨here, idle, keys, hrelease, hpc, ?_, ?_, ?_, ?_⟩
  · rw [hafter, hpc]
  · rw [hafter]
    exact Registers.get_set_self _ 3 _
  · apply Keypad.ext
    · rw [hheld]
      decide
    · rw [hafter]
  · exact hexchange [.step] [.press (some 5), .release, .press none] [] (strikingRun.drop 4) rfl
      (by decide) (by decide) (by decide)

end Machine

end ChipEight
