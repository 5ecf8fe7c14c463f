/-!
The screen: 32 rows of 64 pixels, and a flag that says whether it was touched
since it was last shown.  Sprites are drawn by exclusive or, eight pixels to a
byte, and wrap around both edges.
-/

namespace ChipEight

/-- The pixels: a word of 64 bits for each of the 32 rows, the leftmost pixel
in the highest bit. -/
abbrev Grid := Vector (BitVec 64) 32

namespace Grid

def blank : Grid :=
  Vector.replicate 32 0

def rowAt (y : Nat) : Fin 32 :=
  ⟨y % 32, Nat.mod_lt _ (by decide)⟩

/-- Whether the pixel is on that a pair of coordinates falls on. -/
def pixel (g : Grid) (x y : Nat) : Bool :=
  g[rowAt y].getMsbD (x % 64)

def lit (g : Grid) : Nat :=
  g.toList.foldl (fun count row => count + (List.range 64).countP row.getMsbD) 0

theorem eq_of_pixel {g h : Grid}
    (hpixel : ∀ cx < 64, ∀ cy < 32, g.pixel cx cy = h.pixel cx cy) : g = h := by
  apply Vector.ext
  intro cy hcy
  apply BitVec.eq_of_getMsbD_eq
  intro cx hcx
  have hat := hpixel cx hcx cy hcy
  simpa only [pixel, rowAt, Fin.getElem_fin, Nat.mod_eq_of_lt hcx, Nat.mod_eq_of_lt hcy]
    using hat

end Grid

structure Screen where
  grid : Grid
  dirty : Bool
  deriving DecidableEq, Repr

namespace Screen

def blank : Screen :=
  ⟨Grid.blank, false⟩

def clear (_ : Screen) : Screen :=
  ⟨Grid.blank, true⟩

def shown (s : Screen) : Screen :=
  { s with dirty := false }

/-- The pixels of a row that a byte drawn at column `x` toggles. -/
def mask (x : Nat) (b : UInt8) : BitVec 64 :=
  (b.toBitVec.setWidth 64 <<< 56).rotateRight x

/-- Draw one byte at column `x` of row `y`.  The answer is whether a pixel was
switched off. -/
def drawByte (s : Screen) (x y : Nat) (b : UInt8) : Screen × Bool :=
  let row := s.grid[Grid.rowAt y]
  let toggled := mask x b
  -- a byte without a bit leaves the screen as it was shown
  (⟨s.grid.set (Grid.rowAt y) (row ^^^ toggled), s.dirty || toggled != 0⟩,
    row &&& toggled != 0)

/-- Draw a sprite with its upper left corner at column `x` of row `y`.  The
answer is whether a pixel was switched off. -/
def draw (s : Screen) (x y : Nat) : List UInt8 → Screen × Bool
  | [] => (s, false)
  | b :: rest =>
    let first := s.drawByte x y b
    let others := first.1.draw x (y + 1) rest
    (others.1, first.2 || others.2)

@[simp] theorem grid_shown (s : Screen) : s.shown.grid = s.grid := rfl

theorem getMsbD_mask (x cx : Nat) (b : UInt8) (h : cx < 64) :
    (mask x b).getMsbD cx = b.toBitVec.getMsbD ((cx + 64 - x % 64) % 64) := by
  have hx : x % 64 < 64 := Nat.mod_lt _ (by decide)
  have place : ∀ k < 64, (b.toBitVec.setWidth 64 <<< 56).getMsbD k =
      b.toBitVec.getMsbD k := by
    intro k hk
    rw [BitVec.getMsbD_shiftLeft, BitVec.getMsbD_setWidth]
    simp [show 64 - 8 ≤ k + 56 by omega]
  rw [mask, BitVec.getMsbD_rotateRight]
  by_cases hlt : cx < x % 64
  · rw [if_pos hlt, place _ (Nat.mod_lt _ (by decide)), Nat.add_comm 64 cx]
    simp [h]
  · rw [if_neg hlt, place _ (by omega),
      show (cx + 64 - x % 64) % 64 = cx - x % 64 by omega]
    simp [h]

theorem pixel_drawByte (s : Screen) (x y cx cy : Nat) (b : UInt8) :
    (s.drawByte x y b).1.grid.pixel cx cy =
      (s.grid.pixel cx cy ^^
        (decide (y % 32 = cy % 32) && (mask x b).getMsbD (cx % 64))) := by
  simp only [drawByte, Grid.pixel, Grid.rowAt, Fin.getElem_fin,
    Vector.getElem_set]
  split
  · rename_i h
    simp [h]
  · rename_i h
    simp [h]

end Screen

end ChipEight
