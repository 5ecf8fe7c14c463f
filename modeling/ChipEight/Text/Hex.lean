/-!
Hexadecimal numerals with a least number of digits.  A numeral is computed as
a list of digit values, most significant first; `value_digits` says that it
reads back as the number it was made from.
-/

namespace ChipEight.Hex

/-- The `w` lowest hexadecimal digits of `n`, most significant first. -/
def lowDigits : Nat → Nat → List Nat
  | 0, _ => []
  | w + 1, n => lowDigits w (n / 16) ++ [n % 16]

/-- The number of hexadecimal digits of `n`; zero has one digit. -/
def width (n : Nat) : Nat :=
  Nat.log2 n / 4 + 1

/-- The digits of `n`, with leading zeros up to `w` digits. -/
def digits (w n : Nat) : List Nat :=
  lowDigits (max w (width n)) n

def value (ds : List Nat) : Nat :=
  ds.foldl (fun acc d => 16 * acc + d) 0

def lowerDigit (d : Nat) : Char :=
  Nat.digitChar d

def upperDigit (d : Nat) : Char :=
  (Nat.digitChar d).toUpper

/-- A lower-case numeral of at least `w` digits. -/
def lower (w n : Nat) : String :=
  String.ofList ((digits w n).map lowerDigit)

/-- An upper-case numeral of at least `w` digits. -/
def upper (w n : Nat) : String :=
  String.ofList ((digits w n).map upperDigit)

/-- A lower-case numeral of at least `w` digits behind the mark `0x`. -/
def marked (w n : Nat) : String :=
  "0x" ++ lower w n

@[simp] theorem length_lowDigits (w n : Nat) : (lowDigits w n).length = w := by
  induction w generalizing n with
  | zero => rfl
  | succ w ih => simp [lowDigits, ih]

theorem lt_of_mem_lowDigits {w n d : Nat} (h : d ∈ lowDigits w n) : d < 16 := by
  induction w generalizing n with
  | zero => simp [lowDigits] at h
  | succ w ih =>
    rcases List.mem_append.1 h with h | h
    · exact ih h
    · rw [List.mem_singleton.1 h]
      exact Nat.mod_lt _ (by decide)

theorem value_append_singleton (ds : List Nat) (d : Nat) :
    value (ds ++ [d]) = 16 * value ds + d := by
  simp [value]

theorem value_digits (w n : Nat) : value (digits w n) = n := by
  have low : ∀ w n, value (lowDigits w n) = n % 16 ^ w := by
    intro w
    induction w with
    | zero => simp [lowDigits, value, Nat.mod_one]
    | succ w ih =>
      intro n
      rw [lowDigits, value_append_singleton, ih, Nat.pow_succ', Nat.mod_mul]
      omega
  have bound : n < 16 ^ width n := by
    have hlog : n < 2 ^ (Nat.log2 n + 1) := Nat.lt_log2_self
    have hle : 2 ^ (Nat.log2 n + 1) ≤ 2 ^ (4 * width n) := by
      apply Nat.pow_le_pow_right (by decide)
      unfold width
      omega
    have hpow : 2 ^ (4 * width n) = 16 ^ width n := by
      rw [Nat.pow_mul]
    omega
  rw [digits, low]
  apply Nat.mod_eq_of_lt
  exact Nat.lt_of_lt_of_le bound
    (Nat.pow_le_pow_right (by decide) (Nat.le_max_right _ _))

end ChipEight.Hex
