import ChipEight.Proofs.Bounds
import ChipEight.Proofs.Drawing

/-!
The reserved memory.  Loads and stores check that they begin at the program base or
above it, so the bytes below are those that a machine is switched on with, whatever is
loaded and whatever runs: the glyphs, and zeros behind them.  A program that points I at
a glyph and draws it therefore always draws the picture of its digit.
-/

namespace ChipEight

namespace Glyph

theorem get_bareMemory (a : Nat) : bareMemory.get a = font.getD a 0 := by
  by_cases h : a < font.length
  · have hinside : 0 + font.length ≤ Memory.size := by decide
    have hget := Memory.get_overwrite_inside Memory.zero h hinside
    rw [Nat.zero_add] at hget
    rw [bareMemory, hget, List.getD_eq_getElem?_getD, List.getElem?_eq_getElem h,
      Option.getD_some]
  · have hbehind : 0 + font.length ≤ a := by omega
    rw [bareMemory, Memory.get_overwrite_of_outside _ (Or.inr hbehind), Memory.get_zero,
      List.getD_eq_getElem?_getD, List.getElem?_eq_none (Nat.le_of_not_lt h),
      Option.getD_none]

theorem address_add_height_le (digit : Nibble) : address digit + height ≤ 0x50 := by
  have hdigit := digit.isLt
  change 5 * (digit : Nat) + 5 ≤ 0x50
  omega

theorem rows_eq_map (digit : Nibble) :
    rows digit = (List.range' (address digit) height).map fun a => font.getD a 0 := by
  revert digit
  decide

end Glyph

namespace Memory

/-- The bytes below the program base are as they were when the machine was switched
on. -/
def ReservedIntact (m : Memory) : Prop :=
  ∀ a < programBase, m.get a = Glyph.bareMemory.get a

variable {m n : Memory} {a : Nat} {bytes : List UInt8}

theorem reservedIntact_bareMemory : Glyph.bareMemory.ReservedIntact :=
  fun _ _ => rfl

theorem ReservedIntact.overwrite (h : m.ReservedIntact) (ha : programBase ≤ a) :
    (m.overwrite a bytes).ReservedIntact := by
  intro q hq
  have hbelow : q < a := Nat.lt_of_lt_of_le hq ha
  rw [get_overwrite_of_outside m (Or.inl hbelow)]
  exact h q hq

theorem ReservedIntact.store (h : m.ReservedIntact) (hstore : m.store a bytes = .ok n) :
    n.ReservedIntact := by
  unfold Memory.store at hstore
  split at hstore
  · cases hstore
  · rename_i hbase
    split at hstore
    · cases hstore
    · obtain rfl := Except.ok.inj hstore
      exact h.overwrite (Nat.le_of_not_lt hbase)

theorem ReservedIntact.load (h : m.ReservedIntact) (hload : m.load a bytes = .ok n) :
    n.ReservedIntact := by
  unfold Memory.load at hload
  split at hload
  · cases hload
  · rename_i hbase
    split at hload
    · cases hload
    · obtain rfl := Except.ok.inj hload
      exact h.overwrite (Nat.le_of_not_lt hbase)

theorem ReservedIntact.fetchClamped_glyph (h : m.ReservedIntact) (digit : Nibble) :
    m.fetchClamped (Glyph.address digit) Glyph.height = .ok (Glyph.rows digit) := by
  have hend : Glyph.address digit + Glyph.height ≤ 0x50 := Glyph.address_add_height_le digit
  have hinside : Glyph.address digit < size := by
    unfold Glyph.height at hend
    unfold size
    omega
  have hlength : min Glyph.height (size - Glyph.address digit) = Glyph.height := by
    unfold size
    omega
  rw [Memory.fetchClamped, if_pos hinside, hlength, window, Glyph.rows_eq_map]
  congr 1
  apply List.map_congr_left
  intro q hq
  have hq' : q < programBase := by
    have hbelow := (List.mem_range'_1.1 hq).2
    unfold programBase
    omega
  rw [h q hq', Glyph.get_bareMemory]

end Memory

namespace Machine

/-! ### No operation writes below the program base -/

theorem reservedIntact_memoryAfter {m : Machine} (h : m.memory.ReservedIntact)
    (i : Instruction) : (m.memoryAfter i).ReservedIntact := by
  have hstored (bytes : List UInt8) :
      ((m.memory.store m.index bytes).toOption.getD m.memory).ReservedIntact := by
    cases hstore : m.memory.store m.index bytes with
    | error f => exact h
    | ok stored => exact h.store hstore
  cases i with
  | storeDecimal x => exact hstored _
  | storeRegisters x => exact hstored _
  | _ => exact h

theorem reservedIntact_step {m : Machine} (h : m.memory.ReservedIntact) :
    m.step.machine.memory.ReservedIntact := by
  rcases m.machine_step_cases with heq | ⟨i, -, heq⟩
  · rwa [heq]
  · rw [heq, machine_execute]
    exact reservedIntact_memoryAfter (m := m.passed) h i

theorem reservedIntact_perform {m : Machine} (h : m.memory.ReservedIntact) (o : Operation) :
    (m.perform o).machine.memory.ReservedIntact := by
  cases o with
  | load image offset =>
    change (m.load image offset).machine.memory.ReservedIntact
    unfold load
    cases hload : m.memory.load offset image with
    | error f => exact h
    | ok loaded => exact h.load hload
  | reset => exact Memory.reservedIntact_bareMemory
  | step => exact reservedIntact_step h
  | tick =>
    change m.step.machine.countDown.memory.ReservedIntact
    rw [memory_countDown]
    exact reservedIntact_step h
  | _ => exact h

theorem reservedIntact_performAll (random : RandomSource) (operations : List Operation) :
    ((fresh random).performAll operations).memory.ReservedIntact := by
  have hfresh : (fresh random).memory.ReservedIntact := Memory.reservedIntact_bareMemory
  exact performAll_preserves (P := fun m => m.memory.ReservedIntact)
    (fun _ o h => reservedIntact_perform h o) hfresh operations

/-! ### Glyphs as they are drawn -/

variable {m : Machine} {operations : List Operation} {s t : Nat}

/-- Between two positions of a run no instruction runs and the machine is not reset. -/
def QuietBetween (m : Machine) (operations : List Operation) (s t : Nat) : Prop :=
  ∀ u, s < u → u < t →
    operations[u]? ≠ some .reset ∧ ∀ i, ¬ m.RunsAt operations u i

theorem index_before_succ (hreset : operations[t]? ≠ some .reset)
    (hnone : ∀ i, ¬ m.RunsAt operations t i) :
    (m.before operations (t + 1)).index = (m.before operations t).index := by
  cases ho : operations[t]? with
  | none => rw [before_succ_of_none m ho]
  | some o =>
    rw [before_succ m ho]
    cases hexecutes : o.executes with
    | true =>
      have hcurrent : (m.before operations t).current? = none := by
        rw [Option.eq_none_iff_forall_ne_some]
        exact fun i hi => hnone i ⟨by rw [ho]; exact hexecutes, hi⟩
      obtain ⟨_, _, heq⟩ := machine_perform_of_executes (m.before operations t) hexecutes
      obtain ⟨f, hf⟩ := step_of_current?_none hcurrent
      rw [heq, hf]
      rfl
    | false =>
      cases o with
      | reset => exact absurd ho hreset
      | step => cases hexecutes
      | tick => cases hexecutes
      | load image offset =>
        change ((m.before operations t).load image offset).machine.index = _
        unfold load
        split <;> rfl
      | _ => rfl

theorem QuietBetween.index (h : m.QuietBetween operations s t) (hst : s < t) :
    (m.before operations t).index = (m.before operations (s + 1)).index := by
  induction t with
  | zero => cases hst
  | succ t ih =>
    rcases Nat.lt_succ_iff_lt_or_eq.1 hst with hlt | rfl
    · obtain ⟨hreset, hnone⟩ := h t hlt (Nat.lt_succ_self t)
      rw [index_before_succ hreset hnone]
      exact ih (fun u hsu hut => h u hsu (Nat.lt_succ_of_lt hut)) hlt
    · rfl

theorem screenAfter_draw_glyph {m : Machine} {digit : Nibble}
    (hmemory : m.memory.ReservedIntact) (hindex : m.index = Glyph.address digit)
    (a b : RegisterName) :
    m.screenAfter (.draw a b 5) =
      (m.screen.draw (m.registers.get a).toNat (m.registers.get b).toNat
        (Glyph.rows digit)).1 := by
  have hsprite : m.sprite? 5 = some (Glyph.rows digit) := by
    rw [sprite?, hindex]
    exact congrArg Except.toOption (hmemory.fetchClamped_glyph digit)
  rw [screenAfter, hsprite]
  rfl

/-- The operation at position `s` points I at the glyph of VX, and the next instruction
that runs, at position `t`, draws five rows at column VA and row VB. -/
structure DrawsGlyphAt (m : Machine) (operations : List Operation) (s t : Nat)
    (x a b : RegisterName) : Prop where
  earlier : s < t
  points : m.RunsAt operations s (.pointGlyph x)
  draws : m.RunsAt operations t (.draw a b 5)
  quiet : m.QuietBetween operations s t

theorem DrawsGlyphAt.index {x a b : RegisterName} (h : m.DrawsGlyphAt operations s t x a b) :
    (m.before operations t).index =
      Glyph.address (Nibble.ofByte ((m.before operations s).registers.get x)) := by
  rw [h.quiet.index h.earlier, h.points.index_succ]
  rfl

/-- Whatever was loaded and whatever has run, failed operations included, the glyphs are
at the start of the memory and zeros between them and the program base.  So an instruction
that points I at a glyph and a drawing of five rows after it turn over the pixels of the
glyph's rows, and no others. -/
theorem reserved_memory_intact (random : RandomSource) (operations : List Operation) :
    (∀ a < 0x50, ((fresh random).performAll operations).memory.get a =
      Glyph.font.getD a 0) ∧
    (∀ a, 0x50 ≤ a → a < 0x200 →
      ((fresh random).performAll operations).memory.get a = 0) ∧
    ∀ s t x a b, (fresh random).DrawsGlyphAt operations s t x a b →
      ((fresh random).before operations t).step.answer = .ok () ∧
      ∀ cx < 64, ∀ cy < 32,
        ((fresh random).before operations (t + 1)).frame.pixel cx cy =
          (((fresh random).before operations t).frame.pixel cx cy ^^
            decide (Screen.Covers
              (((fresh random).before operations t).registers.get a).toNat
              (((fresh random).before operations t).registers.get b).toNat
              (Glyph.rows (Nibble.ofByte
                (((fresh random).before operations s).registers.get x))) cx cy)) := by
  have hintact := reservedIntact_performAll random operations
  refine ⟨?_, ?_, ?_⟩
  · intro a ha
    have hbase : a < Memory.programBase := Nat.lt_trans ha (by decide)
    rw [hintact a hbase, Glyph.get_bareMemory]
  · intro a hfont hbase
    rw [hintact a hbase, Glyph.get_bareMemory]
    rw [List.getD_eq_getElem?_getD, List.getElem?_eq_none hfont, Option.getD_none]
  · intro s t x a b h
    have hmemory : ((fresh random).before operations t).memory.ReservedIntact :=
      reservedIntact_performAll random _
    have hindex := h.index
    constructor
    · rw [step_of_current? h.draws.2, answer_execute, answerAfter]
      change Except.map _ (((fresh random).before operations t).memory.fetchClamped
        ((fresh random).before operations t).index Glyph.height) = _
      rw [hindex, hmemory.fetchClamped_glyph]
      rfl
    · intro cx hcx cy hcy
      have hscreen := screenAfter_draw_glyph (m := ((fresh random).before operations t).passed)
        hmemory hindex a b
      have hheight : (Glyph.rows (Nibble.ofByte
          (((fresh random).before operations s).registers.get x))).length ≤ 32 := by
        rw [Glyph.length_rows]
        decide
      rw [frame, h.draws.screen_succ, hscreen]
      exact Screen.pixel_draw _ hheight hcx hcy

/-- A program that fails to write to the first glyph and draws the glyph of the digit ten
with its corner at the origin; its host fails to load over the glyphs in between. -/
def defacingRun : List Operation :=
  [.load [0x60, 0x1A, 0xA0, 0x00, 0xF0, 0x55, 0xF0, 0x29, 0xD1, 0x25] 0x200,
   .step, .step, .step, .tick, .load [0xFF] 0x32, .press (some 3), .step]

theorem reserved_memory_intact_defacingRun :
    ((fresh (RandomSource.ofWords [])).performAll defacingRun).memory.get 0x32 =
        Glyph.font.getD 0x32 0 ∧
      ((fresh (RandomSource.ofWords [])).performAll defacingRun).memory.get 0x50 = 0 ∧
      (fresh (RandomSource.ofWords [])).DrawsGlyphAt defacingRun 4 7 0 1 2 ∧
      ∀ cx < 64, ∀ cy < 32,
        ((fresh (RandomSource.ofWords [])).before defacingRun 8).frame.pixel cx cy =
          (((fresh (RandomSource.ofWords [])).before defacingRun 7).frame.pixel cx cy ^^
            decide (Screen.Covers 0 0 (Glyph.rows 10) cx cy)) := by
  obtain ⟨hfont, hzero, hglyph⟩ :=
    reserved_memory_intact (RandomSource.ofWords []) defacingRun
  obtain ⟨hpoints, hfive, hcolumn, hrow, hdigit⟩ :
      (fresh (RandomSource.ofWords [])).RunsAt defacingRun 4 (.pointGlyph 0) ∧
        (fresh (RandomSource.ofWords [])).RunsAt defacingRun 7 (.draw 1 2 5) ∧
        (((fresh (RandomSource.ofWords [])).before defacingRun 7).registers.get 1).toNat = 0 ∧
        (((fresh (RandomSource.ofWords [])).before defacingRun 7).registers.get 2).toNat = 0 ∧
        Nibble.ofByte (((fresh (RandomSource.ofWords [])).before defacingRun 4).registers.get 0) =
          10 := by
    unfold RunsAt
    decide +kernel
  have hdraws : (fresh (RandomSource.ofWords [])).DrawsGlyphAt defacingRun 4 7 0 1 2 := by
    refine ⟨by decide, hpoints, hfive, ?_⟩
    intro u hsu hut
    -- at both positions between, the host acts
    obtain rfl | rfl : u = 5 ∨ u = 6 := by omega
    · exact ⟨nofun, fun i hruns => absurd hruns.1 (by decide)⟩
    · exact ⟨nofun, fun i hruns => absurd hruns.1 (by decide)⟩
  obtain ⟨-, hpixel⟩ := hglyph 4 7 0 1 2 hdraws
  rw [hcolumn, hrow, hdigit] at hpixel
  exact ⟨hfont 0x32 (by decide), hzero 0x50 (by decide) (by decide), hdraws, hpixel⟩

end Machine

end ChipEight
