import ChipEight.Proofs.Pixels

/-!
Drawing a whole sprite seen pixel by pixel.  A sprite that is no taller than the screen
turns over the pixels under its set bits, each once, and no other pixel.
-/

namespace ChipEight.Screen

/-- A byte drawn at column `x` has a set bit over a column of the screen. -/
def CoversColumn (x : Nat) (b : UInt8) (cx : Nat) : Prop :=
  ∃ c < 8, b.toBitVec.getMsbD c = true ∧ (x + c) % 64 = cx

/-- A sprite drawn with its upper left corner at column `x` of row `y` has a set bit over
a pixel. -/
def Covers (x y : Nat) (sprite : List UInt8) (cx cy : Nat) : Prop :=
  ∃ r < sprite.length, CoversColumn x (sprite.getD r 0) cx ∧ (y + r) % 32 = cy

instance (x : Nat) (b : UInt8) (cx : Nat) : Decidable (CoversColumn x b cx) :=
  inferInstanceAs (Decidable (∃ c < 8, _))

instance (x y : Nat) (sprite : List UInt8) (cx cy : Nat) :
    Decidable (Covers x y sprite cx cy) :=
  inferInstanceAs (Decidable (∃ r < sprite.length, _))

theorem getMsbD_mask_eq_covers (x cx : Nat) (b : UInt8) :
    (mask x b).getMsbD cx = decide (CoversColumn x b cx) := by
  rw [← dots_range, getMsbD_dots, Bool.eq_iff_iff, decide_eq_true_iff, CoversColumn]
  simp only [List.any_eq_true, List.mem_range, Bool.and_eq_true, decide_eq_true_eq]
  exact exists_congr fun c => and_congr_right fun _ => and_congr_right fun _ => eq_comm

theorem covers_cons {x y cx cy : Nat} {b : UInt8} {rest : List UInt8} :
    Covers x y (b :: rest) cx cy ↔
      (CoversColumn x b cx ∧ y % 32 = cy) ∨ Covers x (y + 1) rest cx cy := by
  constructor
  · rintro ⟨r, hr, hcolumn, hrow⟩
    cases r with
    | zero => exact Or.inl ⟨hcolumn, hrow⟩
    | succ r =>
      refine Or.inr ⟨r, Nat.lt_of_succ_lt_succ hr, hcolumn, ?_⟩
      rwa [Nat.add_assoc, Nat.add_comm 1]
  · rintro (⟨hcolumn, hrow⟩ | ⟨r, hr, hcolumn, hrow⟩)
    · exact ⟨0, Nat.succ_pos _, hcolumn, hrow⟩
    · refine ⟨r + 1, Nat.succ_lt_succ hr, hcolumn, ?_⟩
      rwa [Nat.add_assoc, Nat.add_comm 1] at hrow

theorem not_covers_below {x y cx : Nat} {rest : List UInt8} (h : rest.length < 32) :
    ¬ Covers x (y + 1) rest cx (y % 32) := by
  rintro ⟨r, hr, -, hrow⟩
  omega

/-- Drawing a sprite turns over the pixels that it covers and leaves the others alone. -/
theorem pixel_draw (s : Screen) {x y cx cy : Nat} {sprite : List UInt8}
    (hheight : sprite.length ≤ 32) (hcx : cx < 64) (hcy : cy < 32) :
    (s.draw x y sprite).1.grid.pixel cx cy =
      (s.grid.pixel cx cy ^^ decide (Covers x y sprite cx cy)) := by
  induction sprite generalizing s y with
  | nil => simp [draw, Covers]
  | cons b rest ih =>
    have hrest : rest.length < 32 := hheight
    rw [draw, ih _ (Nat.le_of_lt hrest), pixel_drawByte, Nat.mod_eq_of_lt hcx,
      Nat.mod_eq_of_lt hcy, getMsbD_mask_eq_covers, Bool.xor_assoc]
    congr 1
    by_cases hrow : y % 32 = cy
    · -- the first row is over the pixel, and then no other one is
      have hbelow : ¬ Covers x (y + 1) rest cx cy := hrow ▸ not_covers_below hrest
      simp [covers_cons, hrow, hbelow]
    · simp [covers_cons, hrow]

end ChipEight.Screen
