import ChipEight.Nibble
import ChipEight.Text.Hex
import ChipEight.Text.Numeral
import Mathlib.Algebra.Group.Nat.Defs
import Mathlib.Data.List.Forall2

/-!
Numerals as they are read and as they are written.  A text can be read as a numeral if it is
a row of digits, with or without a plus sign ahead of it, whose value keeps to the limit; so
a hexadecimal numeral, once written, is read as the number it was made from.
-/

namespace ChipEight

/-! ### Hexadecimal digits -/

namespace Hex

/-- A hexadecimal digit as it is written, in one of the two cases. -/
structure Digit where
  value : Nibble
  upperCase : Bool
  deriving DecidableEq, Repr

def Digit.char (d : Digit) : Char :=
  if d.upperCase then upperDigit d.value else lowerDigit d.value

theorem toNat_lowerDigit :
    ∀ d < 16, d < 10 ∧ (lowerDigit d).toNat = 48 + d ∨ 10 ≤ d ∧ (lowerDigit d).toNat = 87 + d := by
  decide

theorem toNat_upperDigit :
    ∀ d < 16, d < 10 ∧ (upperDigit d).toNat = 48 + d ∨ 10 ≤ d ∧ (upperDigit d).toNat = 55 + d := by
  decide

theorem digit?_char (d : Digit) : Numeral.digit? 16 d.char = some d.value.val := by
  obtain ⟨value, upperCase⟩ := d
  revert value upperCase
  decide

theorem exists_digit_of_digit? {c : Char} {n : Nat} (h : Numeral.digit? 16 c = some n) :
    ∃ d : Digit, d.char = c ∧ d.value.val = n := by
  obtain ⟨hvalue, hlt⟩ := Option.filter_eq_some_iff.1 h
  replace hlt : n < 16 := of_decide_eq_true hlt
  have hlower := toNat_lowerDigit n hlt
  have hupper := toNat_upperDigit n hlt
  have hrange (low high : Char) : low ≤ c ∧ c ≤ high ↔
      low.toNat ≤ c.toNat ∧ c.toNat ≤ high.toNat := Iff.rfl
  simp only [hrange, Char.reduceToNat] at hvalue
  have hchar : (lowerDigit n).toNat = c.toNat ∨ (upperDigit n).toNat = c.toNat := by
    split at hvalue
    · cases hvalue
      omega
    split at hvalue
    · cases hvalue
      omega
    split at hvalue
    · cases hvalue
      omega
    · cases hvalue
  rcases hchar with hchar | hchar
  · exact ⟨⟨⟨n, hlt⟩, false⟩, Char.toNat_inj.1 hchar, rfl⟩
  · exact ⟨⟨⟨n, hlt⟩, true⟩, Char.toNat_inj.1 hchar, rfl⟩

end Hex

/-! ### Reading -/

namespace Numeral

variable {base limit acc n : Nat} {cs : List Char} {ds : List Nat}

/-- The number that digits make when they are put behind a number. -/
def valueFrom (base acc : Nat) (ds : List Nat) : Nat :=
  ds.foldl (fun n d => n * base + d) acc

/-- What the characters of a text are worth as digits. -/
def Digits (base : Nat) (cs : List Char) (ds : List Nat) : Prop :=
  List.Forall₂ (fun c d => digit? base c = some d) cs ds

theorem le_valueFrom (hbase : 0 < base) (acc : Nat) (ds : List Nat) :
    acc ≤ valueFrom base acc ds := by
  induction ds generalizing acc with
  | nil => exact Nat.le_refl acc
  | cons d ds ih =>
    calc
      acc ≤ acc * base := Nat.le_mul_of_pos_right acc hbase
      _ ≤ acc * base + d := Nat.le_add_right _ d
      _ ≤ valueFrom base acc (d :: ds) := ih _

/-- The limit is kept on the way if it is kept in the end. -/
theorem readDigits_eq_ok_iff (hbase : 0 < base) (hacc : acc ≤ limit) :
    readDigits base limit acc cs = .ok n ↔
      ∃ ds, Digits base cs ds ∧ valueFrom base acc ds = n ∧ n ≤ limit := by
  induction cs generalizing acc with
  | nil =>
    constructor
    · rintro ⟨⟩
      exact ⟨[], .nil, rfl, hacc⟩
    · rintro ⟨ds, ⟨⟩, rfl, -⟩
      rfl
  | cons c rest ih =>
    rw [readDigits]
    split
    · rename_i hnone
      constructor
      · rintro ⟨⟩
      · rintro ⟨ds, _ | ⟨hsome, -⟩, -⟩
        rw [hnone] at hsome
        cases hsome
    · rename_i d hd
      split
      · rename_i hle
        rw [ih hle]
        constructor
        · rintro ⟨ds, hds, hn⟩
          exact ⟨d :: ds, .cons hd hds, hn⟩
        · rintro ⟨ds, _ | ⟨hsome, hds⟩, hn⟩
          obtain rfl := Option.some.inj (hd.symm.trans hsome)
          exact ⟨_, hds, hn⟩
      · rename_i hgt
        constructor
        · rintro ⟨⟩
        · rintro ⟨ds, _ | ⟨hsome, hds⟩, rfl, hle⟩
          obtain rfl := Option.some.inj (hd.symm.trans hsome)
          exact absurd (Nat.le_trans (le_valueFrom hbase (acc * base + d) _) hle) hgt

theorem digits_ne_plus : ¬ Digits base ('+' :: cs) ds := by
  rintro (_ | ⟨hplus, -⟩)
  cases hplus

def signChars (signed : Bool) : List Char :=
  if signed then ['+'] else []

theorem read_eq_ok_iff (hbase : 0 < base) :
    read base limit cs = .ok n ↔
      ∃ signed digits ds, cs = signChars signed ++ digits ∧ digits ≠ [] ∧
        Digits base digits ds ∧ valueFrom base 0 ds = n ∧ n ≤ limit := by
  constructor
  · intro h
    unfold read at h
    split at h
    · cases h
    · cases h
    · rename_i digits hne
      obtain ⟨ds, hread⟩ := (readDigits_eq_ok_iff hbase (Nat.zero_le _)).1 h
      exact ⟨true, digits, ds, rfl, hne, hread⟩
    · rename_i hne _ _
      obtain ⟨ds, hread⟩ := (readDigits_eq_ok_iff hbase (Nat.zero_le _)).1 h
      exact ⟨false, _, ds, rfl, hne, hread⟩
  · rintro ⟨signed, digits, ds, rfl, hne, hread⟩
    have hread' := (readDigits_eq_ok_iff hbase (Nat.zero_le _)).2 ⟨ds, hread⟩
    obtain ⟨c, rest, rfl⟩ := List.exists_cons_of_ne_nil hne
    cases signed with
    | true => exact hread'
    | false =>
      have hc : c ≠ '+' := by
        rintro rfl
        exact digits_ne_plus hread.1
      rw [← hread']
      simp [signChars, read, hc]

end Numeral

/-! ### Hexadecimal numerals -/

namespace Hex

variable {w n limit : Nat} {c : Char}

theorem digits_chars (digits : List Digit) :
    Numeral.Digits 16 (digits.map Digit.char) (digits.map fun d => d.value.val) :=
  List.forall₂_map_left_iff.2 (List.forall₂_map_right_iff.2
    (List.forall₂_same.2 fun d _ => digit?_char d))

theorem exists_digits_of_digits {cs : List Char} {ds : List Nat} (h : Numeral.Digits 16 cs ds) :
    ∃ digits : List Digit, digits.map Digit.char = cs ∧ digits.map (fun d => d.value.val) = ds := by
  induction h with
  | nil => exact ⟨[], rfl, rfl⟩
  | cons hd _ ih =>
    obtain ⟨digit, rfl, rfl⟩ := exists_digit_of_digit? hd
    obtain ⟨digits, rfl, rfl⟩ := ih
    exact ⟨digit :: digits, rfl, rfl⟩

theorem value_eq_valueFrom (ds : List Nat) : value ds = Numeral.valueFrom 16 0 ds := by
  have hstep : (fun n d => 16 * n + d) = fun n d => n * 16 + d := by
    funext n d
    rw [Nat.mul_comm]
  rw [value, Numeral.valueFrom, hstep]

theorem lt_of_mem_digits {d : Nat} (h : d ∈ digits w n) : d < 16 :=
  lt_of_mem_lowDigits h

theorem digits_ne_nil (w n : Nat) : digits w n ≠ [] := by
  apply List.ne_nil_of_length_pos
  rw [digits, length_lowDigits, width]
  omega

theorem digits_eq_lowDigits (h : n < 16 ^ w) (hw : 0 < w) : digits w n = lowDigits w n := by
  have hwidth : width n ≤ w := by
    rcases Nat.eq_zero_or_pos n with rfl | hn
    · exact hw
    · have hpow : n < 2 ^ (4 * w) := by rwa [Nat.pow_mul]
      have hlog := (Nat.log2_lt (Nat.ne_of_gt hn)).2 hpow
      rw [width]
      omega
  rw [digits, Nat.max_eq_left hwidth]

theorem length_upper (h : n < 16 ^ w) (hw : 0 < w) : (upper w n).length = w := by
  rw [upper, String.length_ofList, List.length_map, digits_eq_lowDigits h hw, length_lowDigits]

theorem length_lower (h : n < 16 ^ w) (hw : 0 < w) : (lower w n).length = w := by
  rw [lower, String.length_ofList, List.length_map, digits_eq_lowDigits h hw, length_lowDigits]

theorem toList_upper_ne_nil (w n : Nat) : (upper w n).toList ≠ [] := by
  rw [upper, String.toList_ofList]
  exact fun hnil => digits_ne_nil w n (List.map_eq_nil_iff.1 hnil)

theorem toList_marked (w n : Nat) : (marked w n).toList = '0' :: 'x' :: (lower w n).toList :=
  String.toList_append

theorem upperDigit_mem : ∀ {d : Nat}, d < 16 → upperDigit d ∈ "0123456789ABCDEF".toList := by
  decide

theorem lowerDigit_mem : ∀ {d : Nat}, d < 16 → lowerDigit d ∈ "0123456789abcdef".toList := by
  decide

theorem mem_upper (h : c ∈ (upper w n).toList) : c ∈ "0123456789ABCDEF".toList := by
  rw [upper, String.toList_ofList] at h
  obtain ⟨d, hd, rfl⟩ := List.mem_map.1 h
  exact upperDigit_mem (lt_of_mem_digits hd)

theorem mem_lower (h : c ∈ (lower w n).toList) : c ∈ "0123456789abcdef".toList := by
  rw [lower, String.toList_ofList] at h
  obtain ⟨d, hd, rfl⟩ := List.mem_map.1 h
  exact lowerDigit_mem (lt_of_mem_digits hd)

theorem read_digits {write : Nat → Char}
    (hwrite : ∀ d < 16, Numeral.digit? 16 (write d) = some d) (h : n ≤ limit) :
    Numeral.read 16 limit ((digits w n).map write) = .ok n := by
  have hdigits : Numeral.Digits 16 ((digits w n).map write) (digits w n) :=
    List.forall₂_map_left_iff.2
      (List.forall₂_same.2 fun d hd => hwrite d (lt_of_mem_digits hd))
  refine (Numeral.read_eq_ok_iff (by decide)).2 ⟨false, _, _, rfl, ?_, hdigits, ?_, h⟩
  · exact fun hnil => digits_ne_nil w n (List.map_eq_nil_iff.1 hnil)
  · rw [← value_eq_valueFrom, value_digits]

theorem read_lower (h : n ≤ limit) : Numeral.read 16 limit (lower w n).toList = .ok n := by
  rw [lower, String.toList_ofList]
  exact read_digits (fun d hd => digit?_char ⟨⟨d, hd⟩, false⟩) h

theorem read_upper (h : n ≤ limit) : Numeral.read 16 limit (upper w n).toList = .ok n := by
  rw [upper, String.toList_ofList]
  exact read_digits (fun d hd => digit?_char ⟨⟨d, hd⟩, true⟩) h

theorem upper_inj {k : Nat} (h : upper w n = upper w k) : n = k := by
  have hn : Numeral.read 16 (max n k) (upper w n).toList = .ok n :=
    read_upper (Nat.le_max_left n k)
  have hk : Numeral.read 16 (max n k) (upper w k).toList = .ok k :=
    read_upper (Nat.le_max_right n k)
  rw [h, hk] at hn
  exact (Except.ok.inj hn).symm

end Hex

end ChipEight
