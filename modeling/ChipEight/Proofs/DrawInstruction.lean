import ChipEight.Proofs.Faults
import ChipEight.Proofs.SpriteHits

/-!
The drawing instruction from the word to the pixels.  It reads as many rows as it asks for
and as lie in memory, at most fifteen, so its sprite never comes round to a row it has drawn
and no pixel is turned over twice.  That is why the flag, which is set when a drawing
switches a pixel off on its way, can be told from the screens before and behind it.  The
column and the row are those that VX and VY hold before the flag is written, whichever
registers they are.
-/

namespace ChipEight.Machine

open Screen

/-- An instruction that draws `height` rows from I on, the upper left corner at column VX
of row VY, has a set bit over a pixel.  Rows past the end of memory are not drawn. -/
def DrawsOver (m : Machine) (x y : RegisterName) (height : Nibble) (cx cy : Nat) : Prop :=
  ∃ r < min (height : Nat) (Memory.size - m.index), ∃ c < 8,
    (m.memory.get (m.index + r)).toBitVec.getMsbD c = true ∧
      ((m.registers.get x).toNat + c) % 64 = cx ∧ ((m.registers.get y).toNat + r) % 32 = cy

instance (m : Machine) (x y : RegisterName) (height : Nibble) (cx cy : Nat) :
    Decidable (m.DrawsOver x y height cx cy) :=
  inferInstanceAs (Decidable (∃ r < min (height : Nat) (Memory.size - m.index), _))

def drawnRows (m : Machine) (height : Nibble) : List UInt8 :=
  m.memory.window m.index (min height (Memory.size - m.index))

def drawing (m : Machine) (x y : RegisterName) (height : Nibble) : Screen × Bool :=
  m.screen.draw (m.registers.get x).toNat (m.registers.get y).toNat (m.drawnRows height)

variable {m : Machine} {x y n : Nibble} {cx cy : Nat}

theorem length_drawnRows_le (m : Machine) (height : Nibble) :
    (m.drawnRows height).length ≤ 32 := by
  have hheight := height.isLt
  rw [drawnRows, Memory.length_window]
  omega

theorem covers_drawnRows_iff :
    Covers (m.registers.get x).toNat (m.registers.get y).toNat (m.drawnRows n) cx cy ↔
      m.DrawsOver x y n cx cy := by
  unfold Covers DrawsOver CoversColumn drawnRows
  rw [Memory.length_window]
  refine exists_congr fun r => and_congr_right fun hr => ?_
  have hlength : r < (m.memory.window m.index (min n (Memory.size - m.index))).length := by
    rwa [Memory.length_window]
  rw [List.getD_eq_getElem?_getD, List.getElem?_eq_getElem hlength, Option.getD_some,
    Memory.getElem_window]
  constructor
  · rintro ⟨⟨c, hc, hbit, hcx⟩, hcy⟩
    exact ⟨c, hc, hbit, hcx, hcy⟩
  · rintro ⟨c, hc, hbit, hcx, hcy⟩
    exact ⟨⟨c, hc, hbit, hcx⟩, hcy⟩

/-- No pixel is hit twice. -/
theorem hits_drawnRows (m : Machine) (x y : RegisterName) (n : Nibble) (cx cy : Nat) :
    hits (m.registers.get x).toNat (m.registers.get y).toNat (m.drawnRows n) cx cy =
      if m.DrawsOver x y n cx cy then 1 else 0 := by
  rw [hits_of_height (m.length_drawnRows_le n)]
  exact if_congr covers_drawnRows_iff rfl rfl

theorem pixel_drawing (m : Machine) (x y : RegisterName) (n : Nibble) (hcx : cx < 64)
    (hcy : cy < 32) :
    (m.drawing x y n).1.grid.pixel cx cy =
      (m.frame.pixel cx cy ^^ decide (m.DrawsOver x y n cx cy)) := by
  rw [drawing, pixel_draw m.screen (m.length_drawnRows_le n) hcx hcy,
    decide_eq_decide.2 covers_drawnRows_iff]
  rfl

theorem step_of_draw (here : m.StandsAt ⟨0xD, x, y, n⟩) (inside : m.index < Memory.size) :
    m.step =
      ⟨{ m with
          pc := m.pc + 2
          screen := (m.drawing x y n).1
          registers := m.registers.setFlag (m.drawing x y n).2 }, .ok ()⟩ := by
  have hfetch : m.passed.memory.fetchClamped m.passed.index n = .ok (m.drawnRows n) :=
    if_pos inside
  have hcurrent : m.current? = some (.draw x y n) := here.current?
  rw [step_of_current? hcurrent, execute, executeDraw, hfetch]
  rfl

/-- A drawing that points into memory succeeds.  It turns over the pixels under the set bits
of its rows, each once, and no others; the flag is one if a pixel that was on is off now,
and zero otherwise; the other registers, I and the memory stay as they are. -/
theorem step_draws_over (m : Machine) {x y n : Nibble} (here : m.StandsAt ⟨0xD, x, y, n⟩)
    (inside : m.index < Memory.size) :
    m.step.answer = .ok () ∧
    (∀ cx < 64, ∀ cy < 32,
      m.step.machine.frame.pixel cx cy =
        (m.frame.pixel cx cy ^^ decide (m.DrawsOver x y n cx cy)) ∧
      hits (m.registers.get x).toNat (m.registers.get y).toNat (m.drawnRows n) cx cy =
        if m.DrawsOver x y n cx cy then 1 else 0) ∧
    (m.step.machine.registers.flag = 1 ↔
      ∃ cx < 64, ∃ cy < 32,
        m.frame.pixel cx cy = true ∧ m.step.machine.frame.pixel cx cy = false) ∧
    (m.step.machine.registers.flag = 0 ∨ m.step.machine.registers.flag = 1) ∧
    (∀ r, r ≠ Registers.flagName → m.step.machine.registers.get r = m.registers.get r) ∧
    m.step.machine.index = m.index ∧ m.step.machine.memory = m.memory := by
  have hstep := step_of_draw here inside
  have hframe : m.step.machine.frame = (m.drawing x y n).1.grid := by rw [hstep]; rfl
  have hregisters : m.step.machine.registers = m.registers.setFlag (m.drawing x y n).2 := by
    rw [hstep]
  refine ⟨by rw [hstep], ?_, ?_, ?_, ?_, by rw [hstep], by rw [hstep]⟩
  · intro cx hcx cy hcy
    rw [hframe]
    exact ⟨pixel_drawing m x y n hcx hcy, hits_drawnRows m x y n cx cy⟩
  · have hoff := draw_snd_iff_of_height m.screen (x := (m.registers.get x).toNat)
      (y := (m.registers.get y).toNat) (m.length_drawnRows_le n)
    rw [hframe, hregisters, Registers.flag_setFlag]
    refine Iff.trans ?_ hoff
    cases hanswer : (m.drawing x y n).2 <;> simp [← hanswer, drawing]
  · rw [hregisters, Registers.flag_setFlag]
    cases (m.drawing x y n).2 <;> simp
  · intro r hr
    rw [hregisters]
    exact Registers.get_setFlag_of_ne _ _ hr

/-- Fifteen rows from the last address but one, drawn in the lower right corner of a screen
with a pixel behind the right edge; the flag register holds both coordinates. -/
def cornering : Machine :=
  { fresh (RandomSource.ofWords []) with
    memory := (Memory.zero.overwrite Memory.programBase [0xDF, 0xFF]).overwrite 0xFFE [0xC0, 0x81]
    index := 0xFFE
    registers := Registers.zero.set Registers.flagName 63
    screen := (blank.draw 0 31 [0x80]).1 }

theorem step_draws_over_cornering :
    cornering.StandsAt ⟨0xD, 0xF, 0xF, 0xF⟩ ∧ cornering.index < Memory.size ∧
      cornering.step.answer = .ok () ∧
      cornering.step.machine.frame.pixel 63 31 = true ∧
      cornering.step.machine.frame.pixel 0 31 = false ∧
      cornering.step.machine.frame.pixel 6 0 = true ∧
      cornering.step.machine.frame.pixel 63 1 = false ∧
      cornering.step.machine.registers.flag = 1 := by
  have here : cornering.StandsAt ⟨0xD, 0xF, 0xF, 0xF⟩ := ⟨by decide, by decide +kernel⟩
  have inside : cornering.index < Memory.size := by decide
  obtain ⟨hanswer, hpixel, hflag, -⟩ := step_draws_over cornering here inside
  obtain ⟨hon, hcorner, hedge, hfoot, hbelow⟩ :
      cornering.frame.pixel 0 31 = true ∧
      (cornering.frame.pixel 63 31 ^^ decide (cornering.DrawsOver 0xF 0xF 0xF 63 31)) = true ∧
      (cornering.frame.pixel 0 31 ^^ decide (cornering.DrawsOver 0xF 0xF 0xF 0 31)) = false ∧
      (cornering.frame.pixel 6 0 ^^ decide (cornering.DrawsOver 0xF 0xF 0xF 6 0)) = true ∧
      (cornering.frame.pixel 63 1 ^^ decide (cornering.DrawsOver 0xF 0xF 0xF 63 1)) = false := by
    decide +kernel
  rw [← (hpixel _ (by decide) _ (by decide)).1] at hcorner hedge hfoot hbelow
  exact ⟨here, inside, hanswer, hcorner, hedge, hfoot, hbelow,
    hflag.2 ⟨0, by decide, 31, by decide, hon, hedge⟩⟩

end ChipEight.Machine
