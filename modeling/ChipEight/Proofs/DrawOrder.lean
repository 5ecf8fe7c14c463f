import ChipEight.Proofs.SpriteHits
import Mathlib.Algebra.BigOperators.Group.List.Basic

/-!
Drawing many sprites, one after the other.  What a single drawing answers depends on those
before it.  But in the end a pixel has changed if all of them together hit it an odd number
of times, and one of them has switched it off if it was on and hit, or was hit twice.  Sums
of hits do not know of an order; so neither does the screen, nor whether any drawing
answered yes, and the same sprites drawn once more, in whatever order, bring the pixels
back.
-/

namespace ChipEight.Screen

open Checked

/-- A sprite, and the column and row of its upper left corner. -/
structure Drawing where
  x : Nat
  y : Nat
  sprite : List UInt8
  deriving DecidableEq, Repr

namespace Drawing

/-- The number of set bits that fall on a pixel. -/
def hits (d : Drawing) (cx cy : Nat) : Nat :=
  Screen.hits d.x d.y d.sprite cx cy

/-- All columns and rows from the corner on are words. -/
def OnWords (d : Drawing) : Prop :=
  d.x + 7 < long ∧ d.y + d.sprite.length ≤ long

end Drawing

def drawAll (s : Screen) : List Drawing → Screen × List Bool
  | [] => (s, [])
  | d :: rest =>
    let first := s.draw d.x d.y d.sprite
    let others := first.1.drawAll rest
    (others.1, first.2 :: others.2)

def drawAll? (s : Screen) : List Drawing → Option (Screen × List Bool)
  | [] => some (s, [])
  | d :: rest => do
    let first ← s.draw? d.x d.y d.sprite
    let others ← first.1.drawAll? rest
    some (others.1, first.2 :: others.2)

/-- The number of set bits of all the sprites that fall on a pixel. -/
def totalHits (drawings : List Drawing) (cx cy : Nat) : Nat :=
  (drawings.map (Drawing.hits · cx cy)).sum

@[simp] theorem totalHits_nil (cx cy : Nat) : totalHits [] cx cy = 0 := rfl

@[simp] theorem totalHits_cons (d : Drawing) (rest : List Drawing) (cx cy : Nat) :
    totalHits (d :: rest) cx cy = d.hits cx cy + totalHits rest cx cy :=
  List.sum_cons

theorem totalHits_of_perm {drawings others : List Drawing} (h : drawings.Perm others)
    (cx cy : Nat) : totalHits drawings cx cy = totalHits others cx cy :=
  (h.map (Drawing.hits · cx cy)).sum_eq

theorem decide_odd_add (a b : Nat) :
    decide (Odd (a + b)) = (decide (Odd a) ^^ decide (Odd b)) := by
  rw [Bool.eq_iff_iff, decide_eq_true_iff, Nat.odd_add, ← Nat.not_odd_iff_even]
  by_cases ha : Odd a <;> by_cases hb : Odd b <;> simp [ha, hb]

/-! ### The screen and the answers from the hits -/

/-- A pixel is turned over once for each hit of each sprite. -/
theorem pixel_drawAll (s : Screen) (drawings : List Drawing) {cx cy : Nat} (hcx : cx < 64)
    (hcy : cy < 32) :
    (s.drawAll drawings).1.grid.pixel cx cy =
      (s.grid.pixel cx cy ^^ decide (Odd (totalHits drawings cx cy))) := by
  induction drawings generalizing s with
  | nil => simp [drawAll]
  | cons d rest ih =>
    rw [drawAll, ih, pixel_draw_of_hits s d.x d.y d.sprite hcx hcy, Bool.xor_assoc,
      totalHits_cons, decide_odd_add]
    rfl

theorem dirty_drawAll (s : Screen) (drawings : List Drawing) :
    (s.drawAll drawings).1.dirty =
      (s.dirty || drawings.any fun d => d.sprite.any (· != 0)) := by
  induction drawings generalizing s with
  | nil => simp [drawAll]
  | cons d rest ih => rw [drawAll, ih, dirty_draw, List.any_cons, Bool.or_assoc]

/-- Some drawing answers yes if a pixel was on and is hit, or is hit twice, be it by one
sprite or by two. -/
theorem any_answer_iff (s : Screen) (drawings : List Drawing) :
    (s.drawAll drawings).2.any id = true ↔
      ∃ cx < 64, ∃ cy < 32,
        (1 ≤ totalHits drawings cx cy ∧ s.grid.pixel cx cy = true) ∨
          2 ≤ totalHits drawings cx cy := by
  induction drawings generalizing s with
  | nil => simp [drawAll]
  | cons d rest ih =>
    rw [drawAll, List.any_cons, Bool.or_eq_true, id, draw_snd_iff, ih]
    refine exists_pixel_or fun cx hcx cy hcy => ?_
    -- the later sprites find the pixel as the first one has left it
    rw [pixel_draw_of_hits s d.x d.y d.sprite hcx hcy, totalHits_cons, Drawing.hits]
    generalize hits d.x d.y d.sprite cx cy = a
    generalize totalHits rest cx cy = b
    cases s.grid.pixel cx cy with
    | true => simp [Nat.odd_iff]; omega
    | false => simp [Nat.odd_iff]; omega

theorem drawAll?_eq (s : Screen) {drawings : List Drawing} (h : ∀ d ∈ drawings, d.OnWords) :
    s.drawAll? drawings = some (s.drawAll drawings) := by
  induction drawings generalizing s with
  | nil => rfl
  | cons d rest ih =>
    obtain ⟨hx, hy⟩ := h d List.mem_cons_self
    have hrest : ∀ e ∈ rest, e.OnWords := fun e he => h e (List.mem_cons_of_mem d he)
    simp only [drawAll?, drawAll, draw?_eq s hx hy, ih _ hrest, Option.bind_eq_bind,
      Option.bind_some]

/-! ### Two orders -/

/-- Sprites drawn in two orders on the same screen leave the same pixels and the same flag,
and some drawing answers yes in both orders or in none.  Drawn in both orders, one after the
other, they leave the pixels as they were.  On coordinates whose sums are words this is what
drawing one pixel after the other comes to. -/
theorem drawAll_of_perm (s : Screen) {drawings others : List Drawing}
    (h : drawings.Perm others) :
    (s.drawAll drawings).1.grid = (s.drawAll others).1.grid ∧
    (s.drawAll drawings).1.dirty = (s.drawAll others).1.dirty ∧
    (s.drawAll drawings).2.any id = (s.drawAll others).2.any id ∧
    ((s.drawAll drawings).1.drawAll others).1.grid = s.grid ∧
    ((∀ d ∈ drawings, d.OnWords) →
      s.drawAll? drawings = some (s.drawAll drawings) ∧
      s.drawAll? others = some (s.drawAll others) ∧
      (s.drawAll drawings).1.drawAll? others =
        some ((s.drawAll drawings).1.drawAll others)) := by
  refine ⟨?_, ?_, ?_, ?_, ?_⟩
  · apply Grid.eq_of_pixel
    intro cx hcx cy hcy
    rw [pixel_drawAll s _ hcx hcy, pixel_drawAll s _ hcx hcy, totalHits_of_perm h]
  · rw [dirty_drawAll, dirty_drawAll, h.any_eq]
  · rw [Bool.eq_iff_iff, any_answer_iff, any_answer_iff]
    simp only [totalHits_of_perm h]
  · apply Grid.eq_of_pixel
    intro cx hcx cy hcy
    rw [pixel_drawAll _ _ hcx hcy, pixel_drawAll s _ hcx hcy, totalHits_of_perm h,
      Bool.xor_assoc, Bool.xor_self, Bool.xor_false]
  · intro hwords
    have hothers : ∀ d ∈ others, d.OnWords := fun d hd => hwords d (h.mem_iff.2 hd)
    exact ⟨drawAll?_eq s hwords, drawAll?_eq s hothers, drawAll?_eq _ hothers⟩

/-- A sprite that hits itself in the lower right corner, and a dot on its other pixel. -/
def overlapping : List Drawing :=
  [⟨63, 31, tallSprite⟩, ⟨0, 31, [0x80]⟩]

/-- Only the first of the two answers knows which sprite was drawn first. -/
theorem drawAll_of_perm_overlapping :
    overlapping.Perm overlapping.reverse ∧
    (blank.drawAll overlapping).2 = [true, true] ∧
    (blank.drawAll overlapping.reverse).2 = [false, true] ∧
    (blank.drawAll overlapping).1.grid = (blank.drawAll overlapping.reverse).1.grid ∧
    ((blank.drawAll overlapping).1.drawAll overlapping.reverse).1.grid = Grid.blank ∧
    blank.drawAll? overlapping = some (blank.drawAll overlapping) := by
  have hperm : overlapping.Perm overlapping.reverse := (List.reverse_perm _).symm
  have hwords : ∀ d ∈ overlapping, d.OnWords := by
    unfold Drawing.OnWords
    decide
  obtain ⟨hgrid, -, -, hback, hchecked⟩ := drawAll_of_perm blank hperm
  exact ⟨hperm, by decide +kernel, by decide +kernel, hgrid, hback, (hchecked hwords).1⟩

end ChipEight.Screen
