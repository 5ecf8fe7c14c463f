import ChipEight.Proofs.InstructionForms
import ChipEight.Proofs.Runs

/-!
When a step fails.  `Machine.StepFault` lists the cases by the word at the program
counter, the depth of the stack and the register I, each with the fault it gives;
`step_fails_iff` says that a step fails in these cases and no others.  The address in a
fault is that of the instruction, the start of a write that was refused, or the first
address the step wanted that is not in memory.
-/

namespace ChipEight

/-! ### When an access is refused -/

namespace Memory

variable {m : Memory} {a length : Nat} {bytes : List UInt8} {f : Fault}

theorem word_eq (m : Memory) (a : Nat) :
    m.word a =
      if size ≤ a + 1 then .error (.outOfBounds (max a size))
      else .ok (UInt16.ofNat (256 * (m.get a).toNat + (m.get (a + 1)).toNat)) := by
  unfold word byte
  by_cases hfirst : a < size
  · rw [if_pos hfirst]
    by_cases hsecond : a + 1 < size
    · simp only [if_pos hsecond, if_neg (Nat.not_le_of_lt hsecond)]
    · have hlast : max a size = a + 1 := by omega
      simp only [if_neg hsecond, if_pos (Nat.le_of_not_lt hsecond), hlast]
  · have hbehind : max a size = a := Nat.max_eq_left (Nat.le_of_not_lt hfirst)
    have hpast : size ≤ a + 1 := by omega
    simp only [if_neg hfirst, if_pos hpast, hbehind]

theorem store_eq_error_iff :
    m.store a bytes = .error f ↔
      (a < programBase ∧ f = .protectedWrite a) ∨
        (programBase ≤ a ∧ size < a + bytes.length ∧ f = .outOfBounds (max a size)) := by
  unfold store
  by_cases hbase : a < programBase
  · simp [hbase, Nat.not_le_of_lt hbase, eq_comm]
  · by_cases hend : size < a + bytes.length
    · simp [hbase, hend, Nat.le_of_not_lt hbase, eq_comm]
    · simp [hbase, hend]

theorem fetch_eq_error_iff :
    m.fetch a length = .error f ↔ size < a + length ∧ f = .outOfBounds (max a size) := by
  unfold fetch
  by_cases hend : size < a + length
  · simp [hend, eq_comm]
  · simp [hend]

theorem fetchClamped_eq_error_iff :
    m.fetchClamped a length = .error f ↔ size ≤ a ∧ f = .outOfBounds a := by
  unfold fetchClamped
  by_cases hinside : a < size
  · simp [hinside, Nat.not_le_of_lt hinside]
  · simp [hinside, Nat.le_of_not_lt hinside, eq_comm]

end Memory

namespace CallStack

theorem pop?_isSome_iff {s : CallStack} : s.pop?.isSome = true ↔ s.depth ≠ 0 := by
  unfold pop?
  split
  · simp [*]
  · simp [*]

theorem push?_isSome_iff {s : CallStack} {a : Nat} :
    (s.push? a).isSome = true ↔ s.depth < capacity := by
  unfold push?
  split
  · simp [*]
  · simp [*]

end CallStack

theorem map_eq_error_iff {α β : Type} {r : Except Fault α} {g : α → β} {f : Fault} :
    r.map g = .error f ↔ r = .error f := by
  cases r with
  | ok a => exact ⟨nofun, nofun⟩
  | error e => simp [Except.map]

/-- An instruction with these nibbles stores a number of bytes from I on. -/
inductive Nibbles.Stores : Nibbles → Nat → Prop
  | decimal (x : RegisterName) : Stores ⟨0xF, x, 0x3, 0x3⟩ 3
  | registers (x : RegisterName) : Stores ⟨0xF, x, 0x5, 0x5⟩ (x + 1)

theorem Nibbles.Stores.pos {p : Nibbles} {length : Nat} (h : p.Stores length) : 0 < length := by
  cases h <;> omega

namespace Machine

/-! ### The cases -/

/-- The two bytes at the program counter lie in memory and have these nibbles, the high
byte first. -/
structure StandsAt (m : Machine) (p : Nibbles) : Prop where
  inside : m.pc + 1 < Memory.size
  word : p.word.toNat = 256 * (m.memory.get m.pc).toNat + (m.memory.get (m.pc + 1)).toNat

instance (m : Machine) (p : Nibbles) : Decidable (m.StandsAt p) :=
  decidable_of_iff (_ ∧ _) ⟨fun h => ⟨h.1, h.2⟩, fun h => ⟨h.inside, h.word⟩⟩

inductive StepFault (m : Machine) : Fault → Prop
  | unread (past : Memory.size ≤ m.pc + 1) :
      StepFault m (.outOfBounds (max m.pc Memory.size))
  | undefined {p : Nibbles} (here : m.StandsAt p) (unknown : ∀ f ∈ Form.all, f.fits p = false) :
      StepFault m (.undefinedWord p.word m.pc)
  | ret (here : m.StandsAt ⟨0x0, 0x0, 0xE, 0xE⟩) (empty : m.stack.depth = 0) :
      StepFault m (.stackUnderflow m.pc)
  | call {a b c : Nibble} (here : m.StandsAt ⟨0x2, a, b, c⟩)
      (full : m.stack.depth = CallStack.capacity) :
      StepFault m (.stackOverflow m.pc)
  /-- Also if the sprite has no rows. -/
  | draw {x y n : Nibble} (here : m.StandsAt ⟨0xD, x, y, n⟩) (past : Memory.size ≤ m.index) :
      StepFault m (.outOfBounds m.index)
  | storeBelow {p : Nibbles} {length : Nat} (here : m.StandsAt p) (stores : p.Stores length)
      (below : m.index < Memory.programBase) :
      StepFault m (.protectedWrite m.index)
  | storeBehind {p : Nibbles} {length : Nat} (here : m.StandsAt p) (stores : p.Stores length)
      (above : Memory.programBase ≤ m.index) (past : Memory.size < m.index + length) :
      StepFault m (.outOfBounds (max m.index Memory.size))
  | loadBehind {x : Nibble} (here : m.StandsAt ⟨0xF, x, 0x6, 0x5⟩)
      (past : Memory.size < m.index + (x + 1)) :
      StepFault m (.outOfBounds (max m.index Memory.size))

variable {m : Machine} {p : Nibbles} {f : Fault}

theorem StandsAt.fetch (h : m.StandsAt p) : m.fetch = .ok p.word := by
  rw [Machine.fetch, Memory.word_eq, if_neg (Nat.not_le_of_lt h.inside), ← h.word,
    UInt16.ofNat_toNat]

theorem StandsAt.current? (h : m.StandsAt p) :
    m.current? = some (p.instruction?.getD (.undefined p.word)) := by
  rw [current?_of_fetch h.fetch, Instruction.decode_word]

theorem standsAt_of_fetch {w : UInt16} (h : m.fetch = .ok w) : m.StandsAt (Nibbles.ofWord w) := by
  have hinside := pc_lt_of_fetch h
  rw [fetch, Memory.word_eq, if_neg (Nat.not_le_of_lt hinside)] at h
  obtain rfl := Except.ok.inj h
  refine ⟨hinside, ?_⟩
  have hhigh := (m.memory.get m.pc).toNat_lt
  have hlow := (m.memory.get (m.pc + 1)).toNat_lt
  rw [Nibbles.word_ofWord, UInt16.toNat_ofNat']
  omega

theorem StandsAt.answer_step (h : m.StandsAt p) :
    m.step.answer = m.passed.answerAfter (Instruction.decode p.word) := by
  rw [step_of_fetch h.fetch, answer_execute]

/-! ### Which instructions fail, and when -/

theorem answerAfter_ret_iff :
    m.answerAfter .ret = .error f ↔
      m.stack.depth = 0 ∧ f = .stackUnderflow m.currentAddress := by
  rw [answerAfter]
  by_cases hdepth : m.stack.depth = 0
  · have hnone : ¬ m.stack.pop?.isSome = true := by simp [CallStack.pop?_isSome_iff, hdepth]
    simp [hnone, hdepth, eq_comm]
  · simp [CallStack.pop?_isSome_iff.2 hdepth, hdepth]

theorem answerAfter_call_iff {target : Address} :
    m.answerAfter (.call target) = .error f ↔
      CallStack.capacity ≤ m.stack.depth ∧ f = .stackOverflow m.currentAddress := by
  rw [answerAfter]
  by_cases hdepth : m.stack.depth < CallStack.capacity
  · simp [CallStack.push?_isSome_iff.2 hdepth, Nat.not_le_of_lt hdepth]
  · have hnone : ¬ (m.stack.push? m.currentAddress).isSome = true := by
      rwa [CallStack.push?_isSome_iff]
    simp [hnone, Nat.le_of_not_lt hdepth, eq_comm]

theorem answerAfter_draw_iff {x y : RegisterName} {height : Nibble} :
    m.answerAfter (.draw x y height) = .error f ↔
      Memory.size ≤ m.index ∧ f = .outOfBounds m.index := by
  rw [answerAfter, map_eq_error_iff, Memory.fetchClamped_eq_error_iff]

def RefusesStore (m : Machine) (length : Nat) (f : Fault) : Prop :=
  (m.index < Memory.programBase ∧ f = .protectedWrite m.index) ∨
    (Memory.programBase ≤ m.index ∧ Memory.size < m.index + length ∧
      f = .outOfBounds (max m.index Memory.size))

theorem answerAfter_storeDecimal_iff {x : RegisterName} :
    m.answerAfter (.storeDecimal x) = .error f ↔ m.RefusesStore 3 f := by
  rw [answerAfter, map_eq_error_iff, Memory.store_eq_error_iff]
  rfl

theorem answerAfter_storeRegisters_iff {x : RegisterName} :
    m.answerAfter (.storeRegisters x) = .error f ↔ m.RefusesStore (x + 1) f := by
  rw [answerAfter, map_eq_error_iff, Memory.store_eq_error_iff, Registers.length_upTo]
  rfl

theorem answerAfter_loadRegisters_iff {x : RegisterName} :
    m.answerAfter (.loadRegisters x) = .error f ↔
      Memory.size < m.index + (x + 1) ∧ f = .outOfBounds (max m.index Memory.size) := by
  rw [answerAfter, map_eq_error_iff, Memory.fetch_eq_error_iff]

/-! ### A step fails in these cases and no others -/

theorem StandsAt.answer_step_store_iff {length : Nat} (here : m.StandsAt p)
    (stores : p.Stores length) :
    m.step.answer = .error f ↔ m.RefusesStore length f := by
  rw [here.answer_step, Instruction.decode_word]
  cases stores with
  | decimal x => exact answerAfter_storeDecimal_iff
  | registers x => exact answerAfter_storeRegisters_iff

theorem StepFault.answer_step (h : m.StepFault f) : m.step.answer = .error f := by
  cases h with
  | unread past =>
    have hfetch : m.fetch = .error (.outOfBounds (max m.pc Memory.size)) := by
      rw [fetch, Memory.word_eq, if_pos past]
    rw [step_of_fetch_error hfetch]
    rfl
  | @undefined p here unknown =>
    have hdecode : Instruction.decode p.word = .undefined p.word :=
      Instruction.decode_eq_undefined_iff.2 ⟨rfl, by rwa [Nibbles.ofWord_word]⟩
    rw [here.answer_step, hdecode]
    rfl
  | ret here empty =>
    rw [here.answer_step, Instruction.decode_word]
    exact answerAfter_ret_iff.2 ⟨empty, rfl⟩
  | call here full =>
    rw [here.answer_step, Instruction.decode_word]
    exact answerAfter_call_iff.2 ⟨Nat.le_of_eq full.symm, rfl⟩
  | draw here past =>
    rw [here.answer_step, Instruction.decode_word]
    exact answerAfter_draw_iff.2 ⟨past, rfl⟩
  | storeBelow here stores below =>
    exact (here.answer_step_store_iff stores).2 (.inl ⟨below, rfl⟩)
  | storeBehind here stores above past =>
    exact (here.answer_step_store_iff stores).2 (.inr ⟨above, past, rfl⟩)
  | loadBehind here past =>
    rw [here.answer_step, Instruction.decode_word]
    exact answerAfter_loadRegisters_iff.2 ⟨past, rfl⟩

theorem stepFault_of_refusesStore {length : Nat} (here : m.StandsAt p)
    (stores : p.Stores length) (h : m.RefusesStore length f) : m.StepFault f := by
  rcases h with ⟨below, rfl⟩ | ⟨above, past, rfl⟩
  · exact .storeBelow here stores below
  · exact .storeBehind here stores above past

theorem stepFault_of_answer (hdepth : m.stack.depth ≤ CallStack.capacity)
    (h : m.step.answer = .error f) : m.StepFault f := by
  cases hfetch : m.fetch with
  | error g =>
    rw [step_of_fetch_error hfetch] at h
    obtain rfl := Except.error.inj h
    rw [fetch, Memory.word_eq] at hfetch
    split at hfetch
    · rename_i past
      obtain rfl := Except.error.inj hfetch
      exact .unread past
    · cases hfetch
  | ok w =>
    have here := standsAt_of_fetch hfetch
    rw [here.answer_step, Nibbles.word_ofWord] at h
    rw [← Instruction.nibbles_decode w] at here
    -- the nibbles follow from the instruction, and all but seven cannot fail
    cases hi : Instruction.decode w with
    | ret =>
      rw [hi] at h here
      obtain ⟨empty, rfl⟩ := answerAfter_ret_iff.1 h
      exact .ret here empty
    | call target =>
      rw [hi] at h here
      obtain ⟨full, rfl⟩ := answerAfter_call_iff.1 h
      exact .call here (Nat.le_antisymm hdepth full)
    | draw x y height =>
      rw [hi] at h here
      obtain ⟨past, rfl⟩ := answerAfter_draw_iff.1 h
      exact .draw here past
    | storeDecimal x =>
      rw [hi] at h here
      exact stepFault_of_refusesStore here (.decimal x) (answerAfter_storeDecimal_iff.1 h)
    | storeRegisters x =>
      rw [hi] at h here
      exact stepFault_of_refusesStore here (.registers x) (answerAfter_storeRegisters_iff.1 h)
    | loadRegisters x =>
      rw [hi] at h here
      obtain ⟨past, rfl⟩ := answerAfter_loadRegisters_iff.1 h
      exact .loadBehind here past
    | undefined v =>
      rw [hi] at h here
      obtain rfl := Except.error.inj h
      obtain ⟨rfl, unknown⟩ := Instruction.decode_eq_undefined_iff.1 hi
      have hundefined := StepFault.undefined here unknown
      rwa [Instruction.nibbles, Nibbles.word_ofWord] at hundefined
    | _ =>
      rw [hi] at h
      cases h

/-! ### What the address in a fault is -/

/-- The addresses that a step wants to reach. -/
inductive Accesses (m : Machine) : Nat → Prop
  | word {k : Nat} (within : k < 2) : Accesses m (m.pc + k)
  /-- The start of a sprite is wanted even if it has no rows, and rows past the end of
  memory are not. -/
  | sprite {x y n : Nibble} {r : Nat} (here : m.StandsAt ⟨0xD, x, y, n⟩)
      (within : r = 0 ∨ (r < n ∧ m.index + r < Memory.size)) : Accesses m (m.index + r)
  | stored {p : Nibbles} {length k : Nat} (here : m.StandsAt p) (stores : p.Stores length)
      (within : k < length) : Accesses m (m.index + k)
  | loaded {x : Nibble} {k : Nat} (here : m.StandsAt ⟨0xF, x, 0x6, 0x5⟩)
      (within : k < x + 1) : Accesses m (m.index + k)

/-- The first address a step wants that is not in memory. -/
structure FirstOutside (m : Machine) (a : Nat) : Prop where
  accessed : m.Accesses a
  outside : Memory.size ≤ a
  first : ∀ b, m.Accesses b → Memory.size ≤ b → a ≤ b

/-- The address in a fault is that of the instruction, the start of a write that would
begin below the program base, or the first address wanted that is not in memory. -/
inductive Locates (m : Machine) : Fault → Prop
  | undefined (w : UInt16) : Locates m (.undefinedWord w m.pc)
  | underflow : Locates m (.stackUnderflow m.pc)
  | overflow : Locates m (.stackOverflow m.pc)
  | refused {p : Nibbles} {length : Nat} (here : m.StandsAt p) (stores : p.Stores length)
      (below : m.index < Memory.programBase) : Locates m (.protectedWrite m.index)
  | outside {a : Nat} (first : m.FirstOutside a) : Locates m (.outOfBounds a)

theorem Accesses.le_of_outside {b : Nat} (here : m.StandsAt p) (h : m.Accesses b)
    (houtside : Memory.size ≤ b) : max m.index Memory.size ≤ b := by
  cases h with
  | word within =>
    have hinside := here.inside
    omega
  | sprite => exact Nat.max_le.2 ⟨Nat.le_add_right _ _, houtside⟩
  | stored => exact Nat.max_le.2 ⟨Nat.le_add_right _ _, houtside⟩
  | loaded => exact Nat.max_le.2 ⟨Nat.le_add_right _ _, houtside⟩

theorem firstOutside_unread (past : Memory.size ≤ m.pc + 1) :
    m.FirstOutside (max m.pc Memory.size) where
  accessed := by
    obtain ⟨k, hk, heq⟩ : ∃ k < 2, max m.pc Memory.size = m.pc + k :=
      ⟨max m.pc Memory.size - m.pc, by omega, by omega⟩
    rw [heq]
    exact .word hk
  outside := Nat.le_max_right _ _
  first b h houtside := by
    have hunread {q : Nibbles} : ¬ m.StandsAt q := fun here =>
      Nat.not_le_of_lt here.inside past
    cases h with
    | word => exact Nat.max_le.2 ⟨Nat.le_add_right _ _, houtside⟩
    | sprite here => exact absurd here hunread
    | stored here => exact absurd here hunread
    | loaded here => exact absurd here hunread

theorem firstOutside_behind {length : Nat} (here : m.StandsAt p)
    (accesses : ∀ k < length, m.Accesses (m.index + k))
    (past : Memory.size < m.index + length) (hlength : 0 < length) :
    m.FirstOutside (max m.index Memory.size) where
  accessed := by
    obtain ⟨k, hk, heq⟩ : ∃ k < length, max m.index Memory.size = m.index + k :=
      ⟨max m.index Memory.size - m.index, by omega, by omega⟩
    rw [heq]
    exact accesses k hk
  outside := Nat.le_max_right _ _
  first _ h houtside := h.le_of_outside here houtside

theorem StepFault.locates (h : m.StepFault f) : m.Locates f := by
  cases h with
  | unread past => exact .outside (firstOutside_unread past)
  | undefined here unknown => exact .undefined _
  | ret here empty => exact .underflow
  | call here full => exact .overflow
  | draw here past =>
    refine .outside ⟨.sprite (r := 0) here (.inl rfl), past, fun b h houtside => ?_⟩
    exact Nat.le_trans (Nat.le_max_left _ _) (h.le_of_outside here houtside)
  | storeBelow here stores below => exact .refused here stores below
  | storeBehind here stores above past =>
    exact .outside (firstOutside_behind here (fun _ => .stored here stores) past stores.pos)
  | loadBehind here past =>
    exact .outside (firstOutside_behind here (fun _ => .loaded here) past (Nat.succ_pos _))

/-- A step fails in the cases of `StepFault`, with the fault given there, and succeeds in
all others; the address in the fault tells what was wrong. -/
theorem step_fails_iff (m : Machine) (h : m.stack.depth ≤ CallStack.capacity) :
    (∀ f, m.step.answer = .error f ↔ m.StepFault f) ∧
      (m.step.answer = .ok () ↔ ∀ f, ¬ m.StepFault f) ∧
      ∀ f, m.step.answer = .error f → m.Locates f := by
  have hfails (f : Fault) : m.step.answer = .error f ↔ m.StepFault f :=
    ⟨stepFault_of_answer h, StepFault.answer_step⟩
  refine ⟨hfails, ?_, fun f hf => ((hfails f).1 hf).locates⟩
  constructor
  · intro hok f hf
    rw [(hfails f).2 hf] at hok
    cases hok
  · intro hnone
    cases hanswer : m.step.answer with
    | ok _ => rfl
    | error f => exact absurd ((hfails f).1 hanswer) (hnone f)

/-- An instruction that stores three digits two bytes before the end of memory. -/
def overrunning : Machine :=
  { fresh (RandomSource.ofWords []) with
    memory := Memory.zero.overwrite Memory.programBase [0xF5, 0x33]
    index := 0xFFE }

theorem step_fails_iff_overrunning :
    overrunning.stack.depth ≤ CallStack.capacity ∧
      overrunning.step.answer = .error (.outOfBounds 0x1000) ∧
      overrunning.StepFault (.outOfBounds 0x1000) ∧
      overrunning.Locates (.outOfBounds 0x1000) := by
  have hdepth : overrunning.stack.depth ≤ CallStack.capacity := by decide
  have hanswer : overrunning.step.answer = .error (.outOfBounds 0x1000) := by decide +kernel
  obtain ⟨hfails, -, hlocates⟩ := step_fails_iff overrunning hdepth
  exact ⟨hdepth, hanswer, (hfails _).1 hanswer, hlocates _ hanswer⟩

end Machine

end ChipEight
