import ChipEight.Proofs.Checked.Memory
import ChipEight.Proofs.Pixels

/-!
Drawing on words of fixed width, one pixel at a time: a row and a column outside
the grid trap, and so do the sums that lead to them.  On coordinates whose sums
are words it is the drawing of whole bytes.
-/

namespace ChipEight.Screen

open Checked

/-- Turn over one pixel of the grid.  The answer is whether it was on. -/
def toggle? (s : Screen) (x y : Nat) : Option (Screen × Bool) :=
  if h : x < 64 ∧ y < 32 then
    some (⟨s.grid.set y (s.grid[y] ^^^ dot x), true⟩, s.grid[y].getMsbD x)
  else none

def drawColumns? (s : Screen) (x y : Nat) (b : UInt8) :
    List Nat → Option (Screen × Bool)
  | [] => some (s, false)
  | c :: rest => do
    let place ← difference 7 c
    if b.toBitVec.getLsbD place then
      let column ← sum long x c
      let first ← s.toggle? (column % 64) y
      let others ← first.1.drawColumns? x y b rest
      some (others.1, first.2 || others.2)
    else s.drawColumns? x y b rest

def drawRows? (s : Screen) (x y row : Nat) : List UInt8 → Option (Screen × Bool)
  | [] => some (s, false)
  | b :: rest => do
    let line ← sum long y row
    let first ← s.drawColumns? x (line % 32) b (List.range 8)
    let others ← first.1.drawRows? x y (row + 1) rest
    some (others.1, first.2 || others.2)

def draw? (s : Screen) (x y : Nat) (sprite : List UInt8) : Option (Screen × Bool) :=
  s.drawRows? x y 0 sprite

theorem toggle?_eq (s : Screen) {x : Nat} (hx : x < 64) (y : Fin 32) :
    s.toggle? x y = some (s.turn y (dot x)) := by
  have hdirty : (dot x != 0) = true := by simpa using dot_ne_zero hx
  rw [toggle?, dif_pos ⟨hx, y.isLt⟩, turn, hdirty, and_dot_ne_zero _ hx, Bool.or_true]
  rfl

theorem drawColumns?_eq (s : Screen) {x : Nat} (hx : x + 8 ≤ long) (y : Fin 32) (b : UInt8)
    {columns : List Nat} (hcolumns : ∀ c ∈ columns, c < 8) (hnew : columns.Nodup) :
    s.drawColumns? x y b columns = some (s.turn y (dots x b columns)) := by
  induction columns generalizing s with
  | nil => rw [drawColumns?, dots, turn_zero]
  | cons c rest ih =>
    have hc : c < 8 := hcolumns c List.mem_cons_self
    have hrest : ∀ d ∈ rest, d < 8 := fun d hd => hcolumns d (List.mem_cons_of_mem c hd)
    obtain ⟨hother, hnewRest⟩ := List.nodup_cons.1 hnew
    have hplace : b.toBitVec.getLsbD (7 - c) = b.toBitVec.getMsbD c := by
      rw [BitVec.getMsbD_eq_getLsbD]
      simp [hc]
    have hcolumn : x + c < long := by omega
    have hmod : (x + c) % 64 < 64 := Nat.mod_lt _ (by decide)
    simp only [drawColumns?, dots, difference_eq (show c ≤ 7 by omega), Option.bind_eq_bind,
      Option.bind_some, hplace]
    split
    · obtain ⟨hgrid, hseen⟩ := turn_turn s y (dot_and_dots (x := x) b hc hrest hother)
      simp only [sum_eq hcolumn, Option.bind_some, toggle?_eq s hmod y,
        ih _ hrest hnewRest, hgrid, hseen]
    · exact ih s hrest hnewRest

theorem drawRows?_eq (s : Screen) {x y row : Nat} {sprite : List UInt8} (hx : x + 8 ≤ long)
    (hy : y + row + sprite.length ≤ long) :
    s.drawRows? x y row sprite = some (s.draw x (y + row) sprite) := by
  induction sprite generalizing s row with
  | nil => rfl
  | cons b rest ih =>
    rw [List.length_cons] at hy
    have hline : y + row < long := by omega
    have hrest : y + (row + 1) + rest.length ≤ long := by omega
    have hcolumns : ∀ c ∈ List.range 8, c < 8 := fun c hc => List.mem_range.1 hc
    have hbyte := drawColumns?_eq s hx (Grid.rowAt (y + row)) b hcolumns List.nodup_range
    rw [dots_range, ← drawByte_eq_turn] at hbyte
    change s.drawColumns? x ((y + row) % 32) b (List.range 8) = _ at hbyte
    simp only [drawRows?, draw, sum_eq hline, Option.bind_eq_bind, Option.bind_some, hbyte,
      ih _ hrest, Nat.add_assoc]

/-- Drawing pixel by pixel does what drawing byte by byte does, and never leaves
the grid. -/
theorem draw?_eq (s : Screen) {x y : Nat} {sprite : List UInt8} (hx : x + 8 ≤ long)
    (hy : y + sprite.length ≤ long) : s.draw? x y sprite = some (s.draw x y sprite) := by
  have hstart : y + 0 + sprite.length ≤ long := hy
  exact drawRows?_eq s hx hstart

end ChipEight.Screen
