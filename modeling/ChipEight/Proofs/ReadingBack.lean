import ChipEight.Proofs.FaultAtomicity
import ChipEight.Proofs.Footprints
import ChipEight.Proofs.Loading

/-!
What a program stores it can read back.  A byte of the memory keeps its value for as long as
nothing is written there: by a store of registers or of decimal digits, by a load of the host
or by a reset.  So registers that were stored are read back as they were, however long the run
in between and whatever else it does, and the digits of a number as that number.
-/

namespace ChipEight.Machine

variable {m : Machine} {operations : List Operation} {s t u a length q : Nat}
  {i : Instruction} {x y : RegisterName} {bytes : List UInt8}

/-- The operation at position `t` runs the instruction `i`, which goes through. -/
structure SucceedsAt (m : Machine) (operations : List Operation) (t : Nat) (i : Instruction) :
    Prop where
  runs : m.RunsAt operations t i
  answer : (m.before operations t).step.answer = .ok ()

/-- The operation at position `u` writes the byte at `q`. -/
inductive WritesAt (m : Machine) (operations : List Operation) (u q : Nat) : Prop
  | store (i : Instruction) (succeeds : m.SucceedsAt operations u i)
      (writes : (m.before operations u).WrittenBy (.byte q) i)
  | load (image : List UInt8) (offset : Nat) (here : operations[u]? = some (.load image offset))
      (fits : Memory.Fits offset image.length)
      (above : offset ≤ q) (below : q < offset + image.length)
  | reset (here : operations[u]? = some .reset)

/-! ### One byte over a run -/

theorem get_step_of_not_writtenBy
    (h : ∀ i, m.current? = some i → m.step.answer = .ok () → ¬ m.WrittenBy (.byte q) i) :
    m.step.machine.memory.get q = m.memory.get q := by
  cases hanswer : m.step.answer with
  | error f =>
    rw [keepsOnFault_step m f hanswer, pastFetch]
    split <;> rfl
  | ok _ =>
    rcases m.machine_step_cases with heq | ⟨i, hcurrent, heq⟩
    · rw [heq]
    · rw [heq, machine_execute]
      rcases byte_execute m.passed i q with hkept | hwritten
      · exact hkept.symm
      · exact absurd hwritten (h i hcurrent hanswer)

theorem get_load_of_not_covered {image : List UInt8} {offset : Nat}
    (h : Memory.Fits offset image.length → ¬ (offset ≤ q ∧ q < offset + image.length)) :
    (m.load image offset).machine.memory.get q = m.memory.get q := by
  by_cases hfits : Memory.Fits offset image.length
  · have houtside : q < offset ∨ offset + image.length ≤ q := by
      have := h hfits
      omega
    rw [load, Memory.load_of_fits hfits]
    exact (m.memory.takes_overwrite hfits.2).kept q houtside
  · rw [load, Memory.load_of_not_fits hfits]

theorem get_succ_of_not_writesAt (h : ¬ m.WritesAt operations u q) :
    (m.before operations (u + 1)).memory.get q = (m.before operations u).memory.get q := by
  cases ho : operations[u]? with
  | none => rw [before_succ_of_none m ho]
  | some o =>
    rw [before_succ m ho]
    have hexecutes (hruns : o.executes = true) :
        ((m.before operations u).perform o).machine.memory.get q =
          (m.before operations u).memory.get q := by
      obtain ⟨delay, sound, heq⟩ := machine_perform_of_executes (m.before operations u) hruns
      rw [heq]
      refine get_step_of_not_writtenBy fun i hcurrent hanswer hwritten => h ?_
      exact .store i ⟨⟨by rw [ho]; exact hruns, hcurrent⟩, hanswer⟩ hwritten
    cases o with
    | step => exact hexecutes rfl
    | tick => exact hexecutes rfl
    | load image offset =>
      exact get_load_of_not_covered fun hfits hcovered =>
        h (.load image offset ho hfits hcovered.1 hcovered.2)
    | reset => exact absurd (.reset ho) h
    | _ => rfl

theorem not_writesAt_of_quiet
    (hstore : ∀ x, ¬ m.RunsAt operations u (.storeDecimal x) ∧
      ¬ m.RunsAt operations u (.storeRegisters x))
    (hload : ∀ image offset, operations[u]? ≠ some (.load image offset))
    (hreset : operations[u]? ≠ some .reset) : ¬ m.WritesAt operations u q := by
  intro h
  cases h with
  | store i succeeds writes =>
    cases i with
    | storeDecimal x => exact (hstore x).1 succeeds.runs
    | storeRegisters x => exact (hstore x).2 succeeds.runs
    | _ => exact writes
  | load image offset here => exact hload image offset here
  | reset here => exact hreset here

theorem get_of_undisturbed (hst : s ≤ t)
    (h : ∀ u, s ≤ u → u < t → ¬ m.WritesAt operations u q) :
    (m.before operations t).memory.get q = (m.before operations s).memory.get q := by
  induction t, hst using Nat.le_induction with
  | base => rfl
  | succ t hst ih =>
    rw [get_succ_of_not_writesAt (h t hst (Nat.lt_succ_self t)),
      ih fun u hsu hut => h u hsu (Nat.lt_succ_of_lt hut)]

/-! ### A store and a load -/

theorem get_of_store {memory stored : Memory} {k : Nat} (h : memory.store a bytes = .ok stored)
    (hk : k < bytes.length) : stored.get (a + k) = bytes[k] := by
  have hinside := le_size_of_store h
  unfold Memory.store at h
  split at h
  · cases h
  · split at h
    · cases h
    · rw [← Except.ok.inj h]
      exact memory.get_overwrite_inside hk hinside

def storedBytes (m : Machine) : Instruction → List UInt8
  | .storeDecimal x => decimalDigits (m.registers.get x)
  | .storeRegisters x => m.registers.upTo x
  | _ => []

theorem get_memoryAfter_of_store {k : Nat} (hok : m.answerAfter i = .ok ())
    (hk : k < (m.storedBytes i).length) :
    m.index + (m.storedBytes i).length ≤ Memory.size ∧
      (m.memoryAfter i).get (m.index + k) = (m.storedBytes i)[k] := by
  have hstored {bytes : List UInt8} (hk : k < bytes.length)
      (hok : (m.memory.store m.index bytes).map (fun _ => ()) = .ok ()) :
      m.index + bytes.length ≤ Memory.size ∧
        ((m.memory.store m.index bytes).toOption.getD m.memory).get (m.index + k) = bytes[k] := by
    cases hstore : m.memory.store m.index bytes with
    | error f =>
      rw [hstore] at hok
      cases hok
    | ok stored => exact ⟨le_size_of_store hstore, get_of_store hstore hk⟩
  cases i with
  | storeDecimal x => exact hstored hk hok
  | storeRegisters x => exact hstored hk hok
  | _ => exact absurd hk (Nat.not_lt_zero k)

theorem answerAfter_load_iff :
    m.answerAfter (.loadRegisters y) = .ok () ↔ m.index + (y + 1) ≤ Memory.size := by
  rw [answerAfter, Memory.fetch]
  by_cases hpast : Memory.size < m.index + (y + 1)
  · rw [if_pos hpast]
    exact iff_of_false (fun h => by cases h) (Nat.not_le_of_lt hpast)
  · rw [if_neg hpast]
    exact iff_of_true rfl (Nat.le_of_not_lt hpast)

theorem get_registersAfter_of_load (hinside : m.index + (y + 1) ≤ Memory.size)
    (r : RegisterName) :
    (m.registersAfter (.loadRegisters y)).get r =
      if r ≤ y then m.memory.get (m.index + r) else m.registers.get r := by
  have hlength := m.memory.length_window m.index (y + 1)
  rw [registersAfter, Memory.fetch, if_neg (Nat.not_lt_of_le hinside)]
  change (m.registers.overwrite (m.memory.window m.index (y + 1))).get r = _
  rw [Registers.get_overwrite, List.getD_eq_getElem?_getD]
  by_cases hr : r ≤ y
  · have hcovered : (r : Nat) < (m.memory.window m.index (y + 1)).length := by
      rw [hlength]
      exact Nat.lt_succ_of_le hr
    rw [if_pos hr, List.getElem?_eq_getElem hcovered, Option.getD_some, Memory.getElem_window]
  · have hbehind : (m.memory.window m.index (y + 1)).length ≤ r := by
      rw [hlength]
      exact Fin.not_le.1 hr
    rw [if_neg hr, List.getElem?_eq_none hbehind, Option.getD_none]

theorem indexAfter_of_load (hinside : m.index + (y + 1) ≤ Memory.size) :
    m.indexAfter (.loadRegisters y) = m.indexBehind (y + 1) := by
  rw [indexAfter, Memory.fetch, if_neg (Nat.not_lt_of_le hinside)]
  rfl

theorem digits_make_up (b : UInt8) :
    (b / 100).toNat ≤ 9 ∧ (b / 10 % 10).toNat ≤ 9 ∧ (b % 10).toNat ≤ 9 ∧
      100 * (b / 100).toNat + 10 * (b / 10 % 10).toNat + (b % 10).toNat = b.toNat := by
  have hlt := b.toNat_lt
  have hhundreds : (b / 100).toNat = b.toNat / 100 := UInt8.toNat_div b 100
  have htens : (b / 10 % 10).toNat = b.toNat / 10 % 10 := by
    rw [UInt8.toNat_mod, UInt8.toNat_div]
    rfl
  have hones : (b % 10).toNat = b.toNat % 10 := UInt8.toNat_mod b 10
  omega

/-! ### From a store to a load -/

theorem RunsAt.answer_eq (h : m.RunsAt operations t i) :
    (m.before operations t).step.answer = (m.before operations t).passed.answerAfter i := by
  rw [step_of_current? h.2, answer_execute]

/-- The instruction at position `s` puts `length` bytes at `a`, nothing writes to them after
that, and at position `t` they are read back, those of V0 to VY. -/
structure ReadsBack (m : Machine) (operations : List Operation) (s t : Nat) (i : Instruction)
    (a length : Nat) (y : RegisterName) : Prop where
  stores : m.SucceedsAt operations s i
  place : (m.before operations s).index = a
  undisturbed : ∀ u, s < u → u < t → ∀ q, a ≤ q → q < a + length → ¬ m.WritesAt operations u q
  later : s < t
  loads : m.RunsAt operations t (.loadRegisters y)
  again : (m.before operations t).index = a

theorem ReadsBack.get {k : Nat} (h : m.ReadsBack operations s t i a length y)
    (hlength : ((m.before operations s).storedBytes i).length = length) (hk : k < length) :
    a + length ≤ Memory.size ∧
      (m.before operations t).memory.get (a + k) =
        ((m.before operations s).storedBytes i)[k] := by
  subst hlength
  have hok : (m.before operations s).passed.answerAfter i = .ok () := by
    rw [← h.stores.runs.answer_eq]
    exact h.stores.answer
  obtain ⟨hinside, hstored⟩ :=
    get_memoryAfter_of_store (m := (m.before operations s).passed) hok hk
  have hkept : (m.before operations t).memory.get (a + k) =
      (m.before operations (s + 1)).memory.get (a + k) :=
    get_of_undisturbed h.later fun u hsu hut =>
      h.undisturbed u hsu hut (a + k) (Nat.le_add_right a k) (Nat.add_lt_add_left hk a)
  obtain rfl := h.place
  refine ⟨hinside, ?_⟩
  rw [hkept, h.stores.runs.memory_succ]
  exact hstored

theorem ReadsBack.load (h : m.ReadsBack operations s t i a length y) :
    ((m.before operations t).step.answer = .ok () ↔ a + (y + 1) ≤ Memory.size) ∧
      (a + (y + 1) ≤ Memory.size →
        (∀ r, (m.before operations (t + 1)).registers.get r =
          if r ≤ y then (m.before operations t).memory.get (a + r)
          else (m.before operations t).registers.get r) ∧
        (m.before operations (t + 1)).index =
          if (m.before operations t).settings.advanceIndex then a + (y + 1) else a) := by
  obtain rfl := h.again
  rw [h.loads.answer_eq, h.loads.registers_succ, h.loads.index_succ]
  exact ⟨answerAfter_load_iff, fun hinside =>
    ⟨get_registersAfter_of_load (m := (m.before operations t).passed) hinside,
      indexAfter_of_load (m := (m.before operations t).passed) hinside⟩⟩

/-- Registers that were stored are read back as they were, and so are the digits of a number:
each is at most nine, and they make up the number.  Between the store and the load the run may
do what it likes, as long as it writes to none of the stored bytes.  A load of no more registers
than were stored goes through and moves I as the settings say; one that asks for more bytes than
the three digits goes through if they lie inside the memory. -/
theorem stored_reads_back (m : Machine) (operations : List Operation) (s t a : Nat)
    (x y : RegisterName) :
    (m.ReadsBack operations s t (.storeRegisters x) a (x + 1) y → y ≤ x →
      (m.before operations t).step.answer = .ok () ∧
        (∀ r, (m.before operations (t + 1)).registers.get r =
          if r ≤ y then (m.before operations s).registers.get r
          else (m.before operations t).registers.get r) ∧
        (m.before operations (t + 1)).index =
          if (m.before operations t).settings.advanceIndex then a + (y + 1) else a) ∧
    (m.ReadsBack operations s t (.storeDecimal x) a 3 y → 2 ≤ y →
      ((m.before operations t).step.answer = .ok () ↔ a + (y + 1) ≤ Memory.size) ∧
        ((m.before operations t).step.answer = .ok () →
          ((m.before operations (t + 1)).registers.get 0).toNat ≤ 9 ∧
            ((m.before operations (t + 1)).registers.get 1).toNat ≤ 9 ∧
            ((m.before operations (t + 1)).registers.get 2).toNat ≤ 9 ∧
            100 * ((m.before operations (t + 1)).registers.get 0).toNat +
                10 * ((m.before operations (t + 1)).registers.get 1).toNat +
                ((m.before operations (t + 1)).registers.get 2).toNat =
              ((m.before operations s).registers.get x).toNat)) := by
  constructor
  · intro h hyx
    have hlength : ((m.before operations s).storedBytes (.storeRegisters x)).length = x + 1 :=
      Registers.length_upTo _ x
    have hshorter : (y : Nat) + 1 ≤ x + 1 := Nat.succ_le_succ hyx
    have hinside : a + (y + 1) ≤ Memory.size :=
      Nat.le_trans (Nat.add_le_add_left hshorter a) (h.get hlength (Nat.zero_lt_succ _)).1
    obtain ⟨hregisters, hindex⟩ := h.load.2 hinside
    refine ⟨h.load.1.2 hinside, fun r => ?_, hindex⟩
    rw [hregisters r]
    by_cases hr : r ≤ y
    · have hcovered : (r : Nat) < x + 1 := Nat.lt_of_lt_of_le (Nat.lt_succ_of_le hr) hshorter
      rw [if_pos hr, if_pos hr, (h.get hlength hcovered).2]
      exact Registers.getElem_upTo _ x r _
    · rw [if_neg hr, if_neg hr]
  · intro h hy
    refine ⟨h.load.1, fun hok => ?_⟩
    obtain ⟨hregisters, -⟩ := h.load.2 (h.load.1.1 hok)
    have hdigit (r : RegisterName)
        (hr : (r : Nat) < ((m.before operations s).storedBytes (.storeDecimal x)).length) :
        (m.before operations (t + 1)).registers.get r =
          ((m.before operations s).storedBytes (.storeDecimal x))[(r : Nat)] := by
      have hlast : r ≤ 2 := Nat.le_of_lt_succ hr
      rw [hregisters r, if_pos (Fin.le_trans hlast hy), (h.get rfl hr).2]
    have hhundreds := hdigit 0 (show 0 < 3 by decide)
    have htens := hdigit 1 (show 1 < 3 by decide)
    have hones := hdigit 2 (show 2 < 3 by decide)
    rw [hhundreds, htens, hones]
    exact digits_make_up _

/-- A program that stores two registers, reads one of them back, and puts the digits of the
other where it then stands.  In between I is made to move on. -/
def recallingRun : List Operation :=
  [.load [0x60, 0x07, 0x61, 0xE9, 0xA3, 0x00, 0xF1, 0x55, 0x60, 0x00, 0xF0, 0x65, 0xF1, 0x33,
      0x61, 0x00, 0xF2, 0x65] 0x200,
    .tick, .tick, .tick, .step, .configure .advanceIndex true, .tick, .step, .tick, .tick, .tick]

theorem stored_reads_back_recallingRun :
    let m := fresh (RandomSource.ofWords [])
    m.ReadsBack recallingRun 4 7 (.storeRegisters 1) 0x300 2 0 ∧
      (m.before recallingRun 8).registers.get 0 = 7 ∧
      (m.before recallingRun 8).index = 0x301 ∧
      m.ReadsBack recallingRun 8 10 (.storeDecimal 1) 0x301 3 2 ∧
      100 * ((m.before recallingRun 11).registers.get 0).toNat +
        10 * ((m.before recallingRun 11).registers.get 1).toNat +
        ((m.before recallingRun 11).registers.get 2).toNat = 233 := by
  intro m
  obtain ⟨hstore, hload, hdigits, hload', hquiet⟩ :
      m.RunsAt recallingRun 4 (.storeRegisters 1) ∧ m.RunsAt recallingRun 7 (.loadRegisters 0) ∧
        m.RunsAt recallingRun 8 (.storeDecimal 1) ∧ m.RunsAt recallingRun 10 (.loadRegisters 2) ∧
        ∀ u ∈ [5, 6, 9], ∀ x, ¬ m.RunsAt recallingRun u (.storeDecimal x) ∧
          ¬ m.RunsAt recallingRun u (.storeRegisters x) := by
    unfold RunsAt
    decide +kernel
  obtain ⟨hanswer, hanswer', hplace, hagain, hplace', hagain', hseven, hnumber, hmoves⟩ :
      (m.before recallingRun 4).step.answer = .ok () ∧
        (m.before recallingRun 8).step.answer = .ok () ∧
        (m.before recallingRun 4).index = 0x300 ∧ (m.before recallingRun 7).index = 0x300 ∧
        (m.before recallingRun 8).index = 0x301 ∧ (m.before recallingRun 10).index = 0x301 ∧
        (m.before recallingRun 4).registers.get 0 = 7 ∧
        (m.before recallingRun 8).registers.get 1 = 233 ∧
        (m.before recallingRun 7).settings.advanceIndex = true := by
    decide +kernel
  have hkept : ∀ u ∈ [5, 6, 9], ∀ q, ¬ m.WritesAt recallingRun u q := by
    intro u hu q
    refine not_writesAt_of_quiet (hquiet u hu) ?_ ?_
    · revert u
      simp [recallingRun]
    · revert u
      simp [recallingRun]
  have hfirst : m.ReadsBack recallingRun 4 7 (.storeRegisters 1) 0x300 2 0 :=
    { stores := ⟨hstore, hanswer⟩
      place := hplace
      undisturbed := fun u hsu hut q _ _ => hkept u (by simp; omega) q
      later := by decide
      loads := hload
      again := hagain }
  have hsecond : m.ReadsBack recallingRun 8 10 (.storeDecimal 1) 0x301 3 2 :=
    { stores := ⟨hdigits, hanswer'⟩
      place := hplace'
      undisturbed := fun u hsu hut q _ _ => hkept u (by simp; omega) q
      later := by decide
      loads := hload'
      again := hagain' }
  obtain ⟨-, hregisters, hbehind⟩ :=
    (stored_reads_back m recallingRun 4 7 0x300 1 0).1 hfirst (by decide)
  obtain ⟨hgoes, hread⟩ := (stored_reads_back m recallingRun 8 10 0x301 1 2).2 hsecond (by decide)
  obtain ⟨-, -, -, hvalue⟩ := hread (hgoes.2 (by decide))
  rw [hmoves] at hbehind
  rw [hnumber] at hvalue
  exact ⟨hfirst, (hregisters 0).trans hseven, hbehind, hsecond, hvalue⟩

end ChipEight.Machine
