import ChipEight.Screen.Basic

/-!
Drawing seen pixel by pixel.  A mask says which pixels of a row are turned over;
turning over the pixels of two masks that have none in common is turning over
those of both.  So the byte that `drawByte` draws at once may as well be drawn
one pixel after the other, and a pixel that was switched off is noticed either
way.
-/

namespace ChipEight.Screen

/-- Turn over the pixels of a mask in one row.  The answer is whether one of them
was switched off. -/
def turn (s : Screen) (y : Fin 32) (mask : BitVec 64) : Screen × Bool :=
  (⟨s.grid.set y (s.grid[y] ^^^ mask), s.dirty || mask != 0⟩, s.grid[y] &&& mask != 0)

theorem drawByte_eq_turn (s : Screen) (x y : Nat) (b : UInt8) :
    s.drawByte x y b = s.turn (Grid.rowAt y) (mask x b) := rfl

def dot (x : Nat) : BitVec 64 :=
  BitVec.twoPow 64 (63 - x)

/-- The pixels that a byte drawn at column `x` turns over in some of its eight
columns. -/
def dots (x : Nat) (b : UInt8) : List Nat → BitVec 64
  | [] => 0
  | c :: rest =>
    if b.toBitVec.getMsbD c then dot ((x + c) % 64) ||| dots x b rest else dots x b rest

theorem turn_zero (s : Screen) (y : Fin 32) : s.turn y 0 = (s, false) := by
  simp [turn]

theorem getMsbD_dot {x : Nat} (hx : x < 64) (k : Nat) :
    (dot x).getMsbD k = decide (k = x) := by
  rw [dot, BitVec.getMsbD_twoPow, show 64 - (63 - x) - 1 = x by omega]
  simp [show 63 - x < 64 by omega]

theorem dot_ne_zero {x : Nat} (hx : x < 64) : dot x ≠ 0 := by
  intro h
  have hbit := getMsbD_dot hx x
  rw [h] at hbit
  simp at hbit

theorem and_dot_ne_zero (row : BitVec 64) {x : Nat} (hx : x < 64) :
    (row &&& dot x != 0) = row.getMsbD x := by
  cases hbit : row.getMsbD x with
  | true =>
    rw [bne_iff_ne]
    intro hzero
    have hat : (row &&& dot x).getMsbD x = false := by simp [hzero]
    rw [BitVec.getMsbD_and, hbit, getMsbD_dot hx x] at hat
    simp at hat
  | false =>
    rw [bne_eq_false_iff_eq]
    apply BitVec.eq_of_getMsbD_eq
    intro k _
    rw [BitVec.getMsbD_and, getMsbD_dot hx k]
    by_cases hkx : k = x
    · rw [hkx, hbit]
      simp
    · simp [hkx]

theorem turn_turn (s : Screen) (y : Fin 32) {p q : BitVec 64} (h : p &&& q = 0) :
    ((s.turn y p).1.turn y q).1 = (s.turn y (p ||| q)).1 ∧
      ((s.turn y p).2 || ((s.turn y p).1.turn y q).2) = (s.turn y (p ||| q)).2 := by
  have hapart (k : Nat) : p.getMsbD k = true → q.getMsbD k = false := by
    intro hp
    have hboth : (p &&& q).getMsbD k = false := by simp [h]
    rwa [BitVec.getMsbD_and, hp, Bool.true_and] at hboth
  have hxor (row : BitVec 64) : row ^^^ p ^^^ q = row ^^^ (p ||| q) := by
    apply BitVec.eq_of_getMsbD_eq
    intro k _
    have hk := hapart k
    simp only [BitVec.getMsbD_xor, BitVec.getMsbD_or]
    cases hp : p.getMsbD k <;> simp_all
  have hseen (row : BitVec 64) : (row ^^^ p) &&& q = row &&& q := by
    apply BitVec.eq_of_getMsbD_eq
    intro k _
    have hk := hapart k
    simp only [BitVec.getMsbD_and, BitVec.getMsbD_xor]
    cases hp : p.getMsbD k <;> simp_all
  have hany (a b : BitVec 64) : (a != 0#64 || b != 0#64) = (a ||| b != 0#64) := by
    rw [Bool.eq_iff_iff]
    simp only [Bool.or_eq_true, bne_iff_ne, ne_eq, BitVec.or_eq_zero_iff]
    by_cases ha : a = 0#64
    · simp [ha]
    · simp [ha]
  constructor
  · simp [turn, hxor, Bool.or_assoc, hany]
  · simp [turn, hseen, BitVec.and_or_distrib_left, hany]

theorem getMsbD_dots (x : Nat) (b : UInt8) (columns : List Nat) (k : Nat) :
    (dots x b columns).getMsbD k =
      columns.any fun c => b.toBitVec.getMsbD c && decide (k = (x + c) % 64) := by
  induction columns with
  | nil => simp [dots]
  | cons c rest ih =>
    rw [dots, List.any_cons, ← ih]
    split
    · rename_i hbit
      rw [BitVec.getMsbD_or, getMsbD_dot (Nat.mod_lt _ (by decide)) k, hbit, Bool.true_and]
    · rename_i hbit
      simp [hbit]

theorem dot_and_dots {x c : Nat} (b : UInt8) {columns : List Nat} (hc : c < 8)
    (hcolumns : ∀ d ∈ columns, d < 8) (hnew : c ∉ columns) :
    dot ((x + c) % 64) &&& dots x b columns = 0 := by
  apply BitVec.eq_of_getMsbD_eq
  intro k _
  rw [BitVec.getMsbD_and, getMsbD_dot (Nat.mod_lt _ (by decide)) k, getMsbD_dots x b columns k]
  by_cases hkc : k = (x + c) % 64
  · have hnone : (columns.any fun d =>
        b.toBitVec.getMsbD d && decide (k = (x + d) % 64)) = false := by
      rw [List.any_eq_false]
      intro d hd hbit
      simp only [Bool.and_eq_true, decide_eq_true_eq] at hbit
      have hd8 := hcolumns d hd
      have hdc : d = c := by omega
      exact hnew (hdc ▸ hd)
    simp [hnone]
  · simp [hkc]

theorem dots_range (x : Nat) (b : UInt8) : dots x b (List.range 8) = mask x b := by
  apply BitVec.eq_of_getMsbD_eq
  intro k hk
  rw [getMsbD_dots x b _ k, getMsbD_mask x k b hk, Bool.eq_iff_iff]
  simp only [List.any_eq_true, List.mem_range, Bool.and_eq_true, decide_eq_true_eq]
  constructor
  · rintro ⟨c, hc, hbit, hkc⟩
    rwa [show (k + 64 - x % 64) % 64 = c by omega]
  · intro hbit
    refine ⟨(k + 64 - x % 64) % 64, ?_, hbit, by omega⟩
    exact BitVec.lt_of_getMsbD hbit

end ChipEight.Screen
