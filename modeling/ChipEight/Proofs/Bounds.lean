import ChipEight.Proofs.Runs

/-!
How far a machine can get.  Whatever a host does and whatever a program runs, the
program counter stays near the memory, the register I below `2 ^ 16`, and the
open calls came from addresses that hold a word.  `Machine.InBounds` is kept by
every operation, failed ones included; in the middle of a step, when the word is
read and its instruction still to run, `Machine.Underway` holds instead.
-/

namespace ChipEight

def lastWord : Nat := 0xFFE

/-- The largest sum of a twelve-bit address and a byte. -/
def farthest : Nat := 0x10FE

/-- No more calls are open than there are slots, and each of them came from an
address that holds a word.  Free slots may hold anything. -/
structure CallStack.InBounds (s : CallStack) : Prop where
  depth_le : s.depth ≤ CallStack.capacity
  slot_le : ∀ k, k < s.depth → s.slots[k]?.getD 0 ≤ lastWord

namespace CallStack

theorem inBounds_empty : empty.InBounds where
  depth_le := Nat.zero_le _
  slot_le := fun k hk => absurd hk (Nat.not_lt_zero k)

theorem InBounds.push {s t : CallStack} {a : Nat} (h : s.InBounds) (ha : a ≤ lastWord)
    (hpush : s.push? a = some t) : t.InBounds := by
  obtain ⟨hfree, rfl⟩ := push?_eq_some hpush
  refine ⟨hfree, fun k hk => ?_⟩
  simp only [Vector.getElem?_setIfInBounds]
  by_cases hlast : s.depth = k
  · have hslot : k < 16 := hlast ▸ hfree
    simpa [hlast, hslot] using ha
  · have hbelow : k < s.depth := by
      have : k < s.depth + 1 := hk
      omega
    rw [if_neg hlast]
    exact h.slot_le k hbelow

theorem InBounds.pop {s t : CallStack} {a : Nat} (h : s.InBounds)
    (hpop : s.pop? = some (a, t)) : a ≤ lastWord ∧ t.InBounds := by
  obtain ⟨hopen, rfl, rfl⟩ := pop?_eq_some hpop
  refine ⟨h.slot_le _ (by omega), ?_, fun k hk => ?_⟩
  · exact Nat.le_trans (Nat.sub_le _ _) h.depth_le
  · exact h.slot_le k (Nat.lt_of_lt_of_le hk (Nat.sub_le _ _))

end CallStack

namespace Machine

/-- What holds of a machine between two operations. -/
structure InBounds (m : Machine) : Prop where
  pc_le : m.pc ≤ farthest
  index_lt : m.index < 65536
  stack : m.stack.InBounds

/-- What holds of a machine that has read a word and not yet run it. -/
structure Underway (m : Machine) : Prop where
  two_le_pc : 2 ≤ m.pc
  pc_le : m.pc ≤ Memory.size
  index_lt : m.index < 65536
  stack : m.stack.InBounds

theorem Underway.currentAddress_le {m : Machine} (h : m.Underway) :
    m.currentAddress ≤ lastWord :=
  Nat.sub_le_sub_right h.pc_le 2

theorem InBounds.passed {m : Machine} (h : m.InBounds) (hword : m.pc + 1 < Memory.size) :
    m.passed.Underway where
  two_le_pc := Nat.le_add_left 2 m.pc
  pc_le := by
    change m.pc + 2 ≤ Memory.size
    omega
  index_lt := h.index_lt
  stack := h.stack

/-! ### One instruction -/

theorem Underway.pcAfter_le {m : Machine} (h : m.Underway) (i : Instruction) :
    m.pcAfter i ≤ farthest := by
  have hpc : m.pc + 2 ≤ farthest :=
    Nat.le_trans (Nat.add_le_add_right h.pc_le 2) (by decide)
  have htarget (a : Address) : (a : Nat) ≤ farthest :=
    Nat.le_trans (Nat.le_of_lt a.isLt) (by decide)
  cases i with
  | ret =>
    rw [pcAfter]
    cases hpop : m.stack.pop? with
    | none => exact Nat.le_trans (Nat.le_add_right _ _) hpc
    | some top =>
      have htop : top.1 ≤ lastWord := (h.stack.pop hpop).1
      exact Nat.le_trans (Nat.add_le_add_right htop 2) (by decide)
  | jump target => exact htarget target
  | call target =>
    rw [pcAfter]
    cases m.stack.push? m.currentAddress with
    | none => exact Nat.le_trans (Nat.le_add_right _ _) hpc
    | some stack => exact htarget target
  | jumpOffset base x =>
    have hbyte := (m.registers.get (if m.settings.jumpFromX then x else 0)).toNat_lt
    have hbase := base.isLt
    change _ + _ ≤ 0x10FE
    omega
  | waitKey x =>
    simp only [pcAfter, currentAddress]
    split
    · omega
    · omega
  | _ =>
    simp only [pcAfter]
    split
    · exact hpc
    · omega

theorem indexBehind_lt {m : Machine} (h : m.index < 65536) {count : Nat}
    (hinside : m.index + count ≤ Memory.size) : m.indexBehind count < 65536 := by
  rw [indexBehind]
  split
  · exact Nat.lt_of_le_of_lt hinside (by decide)
  · exact h

theorem le_size_of_store {memory stored : Memory} {a : Nat} {bytes : List UInt8}
    (h : memory.store a bytes = .ok stored) : a + bytes.length ≤ Memory.size := by
  unfold Memory.store at h
  split at h
  · cases h
  · split at h
    · cases h
    · omega

theorem le_size_of_fetch {memory : Memory} {a length : Nat} {bytes : List UInt8}
    (h : memory.fetch a length = .ok bytes) : a + length ≤ Memory.size := by
  unfold Memory.fetch at h
  split at h
  · cases h
  · omega

theorem length_of_fetch {memory : Memory} {a length : Nat} {bytes : List UInt8}
    (h : memory.fetch a length = .ok bytes) : bytes.length = length := by
  unfold Memory.fetch at h
  split at h
  · cases h
  · rw [← Except.ok.inj h, Memory.length_window]

theorem le_size_of_load {memory loaded : Memory} {image : List UInt8} {offset : Nat}
    (h : memory.load offset image = .ok loaded) : offset + image.length ≤ Memory.size := by
  unfold Memory.load at h
  split at h
  · cases h
  · split at h
    · cases h
    · omega

theorem indexAfter_lt {m : Machine} (h : m.index < 65536) (i : Instruction) :
    m.indexAfter i < 65536 := by
  cases i with
  | setIndex target => exact Nat.lt_trans target.isLt (by decide)
  | addIndex x => exact Nat.mod_lt _ (by decide)
  | pointGlyph x =>
    have hdigit := (Nibble.ofByte (m.registers.get x)).isLt
    change 5 * _ < _
    omega
  | storeRegisters x =>
    rw [indexAfter]
    cases hstore : m.memory.store m.index (m.registers.upTo x) with
    | error f => exact h
    | ok stored =>
      have hinside := le_size_of_store hstore
      rw [Registers.length_upTo] at hinside
      exact indexBehind_lt h hinside
  | loadRegisters x =>
    rw [indexAfter]
    cases hfetch : m.memory.fetch m.index (x + 1) with
    | error f => exact h
    | ok bytes => exact indexBehind_lt h (le_size_of_fetch hfetch)
  | _ => exact h

theorem Underway.stackAfter {m : Machine} (h : m.Underway) (i : Instruction) :
    (m.stackAfter i).InBounds := by
  cases i with
  | ret =>
    rw [Machine.stackAfter]
    cases hpop : m.stack.pop? with
    | none => exact h.stack
    | some top => exact (h.stack.pop hpop).2
  | call target =>
    rw [Machine.stackAfter]
    cases hpush : m.stack.push? m.currentAddress with
    | none => exact h.stack
    | some stack => exact h.stack.push h.currentAddress_le hpush
  | _ => exact h.stack

theorem Underway.execute {m : Machine} (h : m.Underway) (i : Instruction) :
    (m.execute i).machine.InBounds := by
  rw [machine_execute]
  exact ⟨h.pcAfter_le i, indexAfter_lt h.index_lt i, h.stackAfter i⟩

/-! ### Operations and runs -/

theorem InBounds.step {m : Machine} (h : m.InBounds) : m.step.machine.InBounds := by
  cases hword : m.fetch with
  | error f =>
    rw [step_of_fetch_error hword]
    exact h
  | ok w =>
    rw [step_of_fetch hword]
    exact (h.passed (pc_lt_of_fetch hword)).execute _

theorem InBounds.countDown {m : Machine} (h : m.InBounds) : m.countDown.InBounds where
  pc_le := by simpa using h.pc_le
  index_lt := by simpa using h.index_lt
  stack := by simpa using h.stack

theorem inBounds_powerOn (settings : Settings) (random : RandomSource) :
    (powerOn settings random).InBounds where
  pc_le := show 0x200 ≤ 0x10FE by decide
  index_lt := show 0 < 65536 by decide
  stack := CallStack.inBounds_empty

theorem InBounds.load {m : Machine} (h : m.InBounds) (image : List UInt8) (offset : Nat) :
    (m.load image offset).machine.InBounds := by
  unfold Machine.load
  cases hload : m.memory.load offset image with
  | error f => exact h
  | ok memory =>
    refine ⟨?_, h.index_lt, h.stack⟩
    have hoffset : offset ≤ Memory.size := Nat.le_of_add_right_le (le_size_of_load hload)
    exact Nat.le_trans hoffset (show Memory.size ≤ farthest by decide)

/-- Every operation of a host keeps a machine in bounds, also when it fails. -/
theorem InBounds.perform {m : Machine} (h : m.InBounds) (o : Operation) :
    (m.perform o).machine.InBounds := by
  cases o with
  | load image offset => exact h.load image offset
  | reset => exact inBounds_powerOn m.settings m.random
  | step => exact h.step
  | tick => exact h.step.countDown
  | _ => exact ⟨h.pc_le, h.index_lt, h.stack⟩

theorem inBounds_performAll (random : RandomSource) (operations : List Operation) :
    ((fresh random).performAll operations).InBounds :=
  performAll_preserves (fun _ o h => h.perform o) (inBounds_powerOn _ random) operations

theorem Reachable.inBounds {m : Machine} (h : m.Reachable) : m.InBounds := by
  induction h with
  | fresh random => exact inBounds_powerOn _ random
  | perform o _ ih => exact ih.perform o

end Machine

end ChipEight
