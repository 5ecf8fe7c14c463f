import ChipEight.Proofs.Checked.Screen
import ChipEight.Proofs.Drawing
import ChipEight.Proofs.ScreenFlag
import Mathlib.Algebra.BigOperators.Group.Finset.Piecewise
import Mathlib.Algebra.BigOperators.Group.Finset.Sigma
import Mathlib.Algebra.Ring.Parity

/-!
How often a sprite hits a pixel.  A sprite that is taller than the screen comes round to
the rows it has drawn already, so it may turn the same pixel over again and again, and
what the later rows find depends on the earlier ones.  The screen behind it does not: a
pixel has changed if it was hit an odd number of times, and one was switched off if it was
on and hit, or was hit twice.
-/

namespace ChipEight.Screen

open Checked

/-- The number of set bits of a sprite, drawn with its upper left corner at column `x` of
row `y`, that fall on a pixel. -/
def hits (x y : Nat) (sprite : List UInt8) (cx cy : Nat) : Nat :=
  ((Finset.range sprite.length ×ˢ Finset.range 8).filter fun place =>
    (sprite.getD place.1 0).toBitVec.getMsbD place.2 = true ∧
      (x + place.2) % 64 = cx ∧ (y + place.1) % 32 = cy).card

/-! ### Row by row -/

theorem sum_columns (x cx : Nat) (b : UInt8) (onRow : Prop) [Decidable onRow] :
    (∑ c ∈ Finset.range 8,
        if b.toBitVec.getMsbD c = true ∧ (x + c) % 64 = cx ∧ onRow then 1 else 0) =
      if CoversColumn x b cx ∧ onRow then 1 else 0 := by
  by_cases h : CoversColumn x b cx ∧ onRow
  · obtain ⟨⟨c, hc, hbit, hcx⟩, hrow⟩ := h
    rw [if_pos ⟨⟨c, hc, hbit, hcx⟩, hrow⟩, Finset.sum_eq_single c]
    · simp [hbit, hcx, hrow]
    · intro d hd hdc
      rw [Finset.mem_range] at hd
      -- two columns less than a screen apart
      exact if_neg fun hhit => hdc (by omega)
    · intro hnone
      exact absurd (Finset.mem_range.2 hc) hnone
  · rw [if_neg h]
    refine Finset.sum_eq_zero fun c hc => if_neg ?_
    rintro ⟨hbit, hcx, hrow⟩
    exact h ⟨⟨c, Finset.mem_range.1 hc, hbit, hcx⟩, hrow⟩

@[simp] theorem hits_nil (x y cx cy : Nat) : hits x y [] cx cy = 0 := by
  simp [hits]

theorem hits_cons (x y : Nat) (b : UInt8) (rest : List UInt8) (cx cy : Nat) :
    hits x y (b :: rest) cx cy =
      (if CoversColumn x b cx ∧ y % 32 = cy then 1 else 0) + hits x (y + 1) rest cx cy := by
  simp only [hits, Finset.card_filter, Finset.sum_product]
  rw [List.length_cons, Finset.sum_range_succ', Nat.add_comm]
  congr 1
  · exact sum_columns x cx b (y % 32 = cy)
  · simp only [List.getD_cons_succ, Nat.add_assoc, Nat.add_comm 1]

/-! ### Pixels -/

theorem pixel_drawByte_of_covers (s : Screen) (x y : Nat) (b : UInt8) {cx cy : Nat}
    (hcx : cx < 64) (hcy : cy < 32) :
    (s.drawByte x y b).1.grid.pixel cx cy =
      (s.grid.pixel cx cy ^^ decide (CoversColumn x b cx ∧ y % 32 = cy)) := by
  rw [pixel_drawByte, Nat.mod_eq_of_lt hcx, Nat.mod_eq_of_lt hcy, getMsbD_mask_eq_covers,
    ← Bool.decide_and]
  simp only [and_comm]

/-- A pixel is turned over once for each hit. -/
theorem pixel_draw_of_hits (s : Screen) (x y : Nat) (sprite : List UInt8) {cx cy : Nat}
    (hcx : cx < 64) (hcy : cy < 32) :
    (s.draw x y sprite).1.grid.pixel cx cy =
      (s.grid.pixel cx cy ^^ decide (Odd (hits x y sprite cx cy))) := by
  induction sprite generalizing s y with
  | nil => simp [draw]
  | cons b rest ih =>
    rw [draw, ih, pixel_drawByte_of_covers s x y b hcx hcy, hits_cons, Bool.xor_assoc]
    by_cases hfirst : CoversColumn x b cx ∧ y % 32 = cy
    · have hnext : decide (Odd (hits x (y + 1) rest cx cy + 1)) =
          !decide (Odd (hits x (y + 1) rest cx cy)) := by
        rw [← decide_not, decide_eq_decide, Nat.odd_add_one]
      rw [if_pos hfirst, Nat.add_comm 1, hnext, decide_eq_true hfirst, Bool.true_xor]
    · simp [hfirst]

/-! ### Pixels switched off -/

theorem ne_zero_iff_getMsbD {w : Nat} (v : BitVec w) :
    v ≠ 0 ↔ ∃ i < w, v.getMsbD i = true := by
  constructor
  · intro hne
    by_contra hnone
    refine hne (BitVec.eq_of_getMsbD_eq fun i hi => ?_)
    have hclear : v.getMsbD i = false := by
      rw [Bool.eq_false_iff]
      exact fun hbit => hnone ⟨i, hi, hbit⟩
    simp [hclear]
  · rintro ⟨i, -, hbit⟩ rfl
    simp at hbit

theorem drawByte_snd_iff (s : Screen) (x y : Nat) (b : UInt8) :
    (s.drawByte x y b).2 = true ↔
      ∃ cx < 64, ∃ cy < 32, (CoversColumn x b cx ∧ y % 32 = cy) ∧
        s.grid.pixel cx cy = true := by
  have hrow (cx : Nat) (hcx : cx < 64) : s.grid[Grid.rowAt y].getMsbD cx =
      s.grid.pixel cx (y % 32) := by
    simp [Grid.pixel, Grid.rowAt, Nat.mod_eq_of_lt hcx]
  rw [drawByte, bne_iff_ne, ne_zero_iff_getMsbD]
  simp only [BitVec.getMsbD_and, getMsbD_mask_eq_covers, Bool.and_eq_true, decide_eq_true_iff]
  constructor
  · rintro ⟨cx, hcx, hon, hcovers⟩
    rw [hrow cx hcx] at hon
    exact ⟨cx, hcx, y % 32, Nat.mod_lt _ (by decide), ⟨hcovers, rfl⟩, hon⟩
  · rintro ⟨cx, hcx, _, _, ⟨hcovers, rfl⟩, hon⟩
    exact ⟨cx, hcx, (hrow cx hcx).trans hon, hcovers⟩

/-- Of two things, the one or the other holds somewhere: compared pixel by pixel. -/
theorem exists_pixel_or {P Q R : Nat → Nat → Prop}
    (h : ∀ cx < 64, ∀ cy < 32, P cx cy ∨ Q cx cy ↔ R cx cy) :
    ((∃ cx < 64, ∃ cy < 32, P cx cy) ∨ ∃ cx < 64, ∃ cy < 32, Q cx cy) ↔
      ∃ cx < 64, ∃ cy < 32, R cx cy := by
  rw [← exists_or]
  refine exists_congr fun cx => ?_
  rw [← and_or_left, ← exists_or]
  refine and_congr_right fun hcx => exists_congr fun cy => ?_
  rw [← and_or_left]
  exact and_congr_right fun hcy => h cx hcx cy hcy

/-- A pixel is switched off if it is on and hit, and also if it is hit twice, by the first
hit or by the second. -/
theorem draw_snd_iff (s : Screen) (x y : Nat) (sprite : List UInt8) :
    (s.draw x y sprite).2 = true ↔
      ∃ cx < 64, ∃ cy < 32,
        (1 ≤ hits x y sprite cx cy ∧ s.grid.pixel cx cy = true) ∨
          2 ≤ hits x y sprite cx cy := by
  induction sprite generalizing s y with
  | nil => simp [draw]
  | cons b rest ih =>
    rw [draw, Bool.or_eq_true, drawByte_snd_iff, ih]
    refine exists_pixel_or fun cx hcx cy hcy => ?_
    -- the later rows find the pixel as the first one has left it
    rw [pixel_drawByte_of_covers s x y b hcx hcy, hits_cons]
    by_cases hfirst : CoversColumn x b cx ∧ y % 32 = cy
    · cases hon : s.grid.pixel cx cy with
      | true => simp [hfirst]
      | false => simp [hfirst]; omega
    · simp [hfirst]

/-! ### Sprites that are no taller than the screen -/

theorem hits_of_height {x y cx cy : Nat} {sprite : List UInt8} (h : sprite.length ≤ 32) :
    hits x y sprite cx cy = if Covers x y sprite cx cy then 1 else 0 := by
  induction sprite generalizing y with
  | nil => simp [Covers]
  | cons b rest ih =>
    have hrest : rest.length < 32 := h
    rw [hits_cons, ih (Nat.le_of_lt hrest)]
    by_cases hfirst : CoversColumn x b cx ∧ y % 32 = cy
    · -- the first row is over the pixel, and then no other one is
      have hbelow : ¬ Covers x (y + 1) rest cx cy := hfirst.2 ▸ not_covers_below hrest
      simp [covers_cons, hfirst, hbelow]
    · simp [covers_cons, hfirst]

theorem draw_snd_iff_of_height (s : Screen) {x y : Nat} {sprite : List UInt8}
    (h : sprite.length ≤ 32) :
    (s.draw x y sprite).2 = true ↔
      ∃ cx < 64, ∃ cy < 32,
        s.grid.pixel cx cy = true ∧ (s.draw x y sprite).1.grid.pixel cx cy = false := by
  rw [draw_snd_iff]
  refine exists_congr fun cx => and_congr_right fun hcx => exists_congr fun cy =>
    and_congr_right fun hcy => ?_
  rw [pixel_draw s h hcx hcy, hits_of_height h]
  by_cases hcovers : Covers x y sprite cx cy
  · simp [hcovers]
  · simp [hcovers]

/-! ### The whole drawing -/

/-- A drawing told from the screen before it and the numbers of hits, for sprites of any
height: each pixel changes if the number of its hits is odd; the answer is yes if a pixel
was on and hit, or was hit twice; and the screen is to be shown if it was before or some
bit of the sprite is set.  On coordinates whose sums are words this is what drawing one
pixel after the other comes to. -/
theorem draw_by_hits (s : Screen) (x y : Nat) (sprite : List UInt8) :
    (∀ cx < 64, ∀ cy < 32,
      (s.draw x y sprite).1.grid.pixel cx cy =
        (s.grid.pixel cx cy ^^ decide (Odd (hits x y sprite cx cy)))) ∧
    ((s.draw x y sprite).2 = true ↔
      ∃ cx < 64, ∃ cy < 32,
        (1 ≤ hits x y sprite cx cy ∧ s.grid.pixel cx cy = true) ∨
          2 ≤ hits x y sprite cx cy) ∧
    ((s.draw x y sprite).1.dirty = true ↔
      s.dirty = true ∨ ∃ b ∈ sprite, ∃ c < 8, b.toBitVec.getMsbD c = true) ∧
    (x + 7 < long → y + sprite.length ≤ long →
      s.draw? x y sprite = some (s.draw x y sprite)) := by
  refine ⟨fun cx hcx cy hcy => pixel_draw_of_hits s x y sprite hcx hcy,
    draw_snd_iff s x y sprite, ?_, fun hx hy => draw?_eq s hx hy⟩
  have hbits (b : UInt8) : (b != 0) = true ↔ ∃ c < 8, b.toBitVec.getMsbD c = true := by
    rw [bne_iff_ne, ← ne_zero_iff_getMsbD, ne_eq, ne_eq, ← UInt8.toBitVec_inj]
    rfl
  rw [dirty_draw, Bool.or_eq_true, List.any_eq_true]
  simp only [hbits]

/-- A sprite of 33 rows, the last of which comes round to the row of the first. -/
def tallSprite : List UInt8 :=
  0xC0 :: List.replicate 31 0 ++ [0x80]

/-- In the lower right corner, on a blank screen: the corner is switched on and off again,
and the pixel behind the right edge stays on. -/
theorem draw_by_hits_tallSprite :
    hits 63 31 tallSprite 63 31 = 2 ∧ hits 63 31 tallSprite 0 31 = 1 ∧
      (blank.draw 63 31 tallSprite).2 = true ∧
      (blank.draw 63 31 tallSprite).1.grid.pixel 63 31 = false ∧
      (blank.draw 63 31 tallSprite).1.grid.pixel 0 31 = true ∧
      (blank.draw 63 31 tallSprite).1.dirty = true ∧
      blank.draw? 63 31 tallSprite = some (blank.draw 63 31 tallSprite) := by
  have hcorner : hits 63 31 tallSprite 63 31 = 2 := by decide +kernel
  have hedge : hits 63 31 tallSprite 0 31 = 1 := by decide +kernel
  obtain ⟨hpixel, hanswer, hdirty, hchecked⟩ := draw_by_hits blank 63 31 tallSprite
  refine ⟨hcorner, hedge, ?_, ?_, ?_, ?_, hchecked (by decide) (by decide)⟩
  · exact hanswer.2 ⟨63, by decide, 31, by decide, Or.inr (Nat.le_of_eq hcorner.symm)⟩
  · rw [hpixel 63 (by decide) 31 (by decide), hcorner]
    decide
  · rw [hpixel 0 (by decide) 31 (by decide), hedge]
    decide
  · exact hdirty.2 (Or.inr ⟨0xC0, by decide, 0, by decide, by decide⟩)

end ChipEight.Screen
