import ChipEight.Proofs.Bounds
import Mathlib.Algebra.Group.Nat.Defs

/-!
The memory on words of fixed width.  Every sum must fit its width, every
interval must lie inside the memory, and what is copied must be as long as the
place it goes to; an operation that breaks one of these is `none`, a trap.  The
checked operations are written with the numbers as a processor has them, the
plain ones on exact numbers; the `_eq` lemmas say that they are the same
wherever a sum of an address and a length is a word.
-/

namespace ChipEight.Checked

/-- One more than the largest number of a register that holds an address. -/
def short : Nat := 2 ^ 16

/-- One more than the largest number that a size or a place can be. -/
def long : Nat := 2 ^ 64

def narrow (limit a : Nat) : Option Nat :=
  if a < limit then some a else none

def sum (limit a b : Nat) : Option Nat :=
  narrow limit (a + b)

def difference (a b : Nat) : Option Nat :=
  if b ≤ a then some (a - b) else none

theorem narrow_eq {limit a : Nat} (h : a < limit) : narrow limit a = some a := by
  rw [narrow, if_pos h]

theorem sum_eq {limit a b : Nat} (h : a + b < limit) : sum limit a b = some (a + b) :=
  narrow_eq h

theorem difference_eq {a b : Nat} (h : b ≤ a) : difference a b = some (a - b) := by
  rw [difference, if_pos h]

end ChipEight.Checked

namespace ChipEight.Memory

open Checked

def slice? (m : Memory) (first last : Nat) : Option (List UInt8) :=
  if first ≤ last ∧ last ≤ size then some (m.window first (last - first)) else none

/-- Bytes put between two places, which must be as far apart as there are bytes. -/
def copy? (m : Memory) (first last : Nat) (bytes : List UInt8) : Option Memory :=
  if first ≤ last ∧ last ≤ size ∧ bytes.length = last - first then
    some (m.overwrite first bytes)
  else none

def word? (m : Memory) (a : Nat) : Option (Except Fault UInt16) :=
  match m.byte a with
  | .error f => some (.error f)
  | .ok high => do
    let second ← sum long a 1
    match m.byte second with
    | .error f => some (.error f)
    | .ok low => some (.ok (UInt16.ofNat (256 * high.toNat + low.toNat)))

/-- Put bytes anywhere, the reserved area included.  Here a sum that is no word
is a fault and no trap. -/
def write? (m : Memory) (a : Nat) (bytes : List UInt8) : Option (Except Fault Memory) :=
  match (sum long a bytes.length).filter (· ≤ size) with
  | none => some (.error (.loadOverflow a bytes.length))
  | some last => (m.copy? a last bytes).map .ok

def load? (m : Memory) (offset : Nat) (image : List UInt8) : Option (Except Fault Memory) :=
  if offset < programBase then some (.error (.protectedWrite offset))
  else m.write? offset image

def store? (m : Memory) (a : Nat) (bytes : List UInt8) : Option (Except Fault Memory) :=
  if a < programBase then some (.error (.protectedWrite a))
  else do
    let last ← sum long a bytes.length
    if size < last then some (.error (.outOfBounds (max a size)))
    else (m.copy? a last bytes).map .ok

def fetchClamped? (m : Memory) (a length : Nat) : Option (Except Fault (List UInt8)) :=
  if a < size then do
    let last ← sum long a length
    (m.slice? a (min last size)).map .ok
  else some (.error (.outOfBounds a))

/-- Here an interval that is not inside the memory is a fault and no trap. -/
def fetch? (m : Memory) (a length : Nat) : Option (Except Fault (List UInt8)) := do
  let last ← sum long a length
  match m.slice? a last with
  | none => some (.error (.outOfBounds (max a size)))
  | some bytes => some (.ok bytes)

theorem slice?_eq (m : Memory) {first length : Nat} (h : first + length ≤ size) :
    m.slice? first (first + length) = some (m.window first length) := by
  rw [slice?, if_pos ⟨Nat.le_add_right _ _, h⟩, Nat.add_sub_cancel_left]

theorem copy?_eq (m : Memory) {first : Nat} {bytes : List UInt8}
    (h : first + bytes.length ≤ size) :
    m.copy? first (first + bytes.length) bytes = some (m.overwrite first bytes) := by
  rw [copy?, if_pos ⟨Nat.le_add_right _ _, h, (Nat.add_sub_cancel_left ..).symm⟩]

theorem size_lt_long : size < long := by decide

theorem word?_eq (m : Memory) (a : Nat) : m.word? a = some (m.word a) := by
  unfold word? word
  cases hbyte : m.byte a with
  | error f => rfl
  | ok high =>
    have ha : a < size := by
      unfold byte at hbyte
      split at hbyte
      · assumption
      · cases hbyte
    have hsecond : a + 1 < long := Nat.lt_of_le_of_lt ha size_lt_long
    simp only [sum_eq hsecond, Option.bind_eq_bind, Option.bind_some]
    cases m.byte (a + 1) <;> rfl

theorem write?_eq (m : Memory) (a : Nat) (bytes : List UInt8) :
    m.write? a bytes =
      some (if size < a + bytes.length then .error (.loadOverflow a bytes.length)
        else .ok (m.overwrite a bytes)) := by
  unfold write?
  by_cases hend : size < a + bytes.length
  · -- the sum is past the end of memory whether it is a word or not
    have hnone : (sum long a bytes.length).filter (· ≤ size) = none := by
      unfold sum narrow
      split
      · simp [Option.filter, hend]
      · rfl
    rw [hnone, if_pos hend]
  · have hinside : a + bytes.length ≤ size := Nat.le_of_not_lt hend
    have hword : a + bytes.length < long := Nat.lt_of_le_of_lt hinside size_lt_long
    simp [sum_eq hword, Option.filter, hinside, copy?_eq m hinside, hend]

theorem load?_eq (m : Memory) (offset : Nat) (image : List UInt8) :
    m.load? offset image = some (m.load offset image) := by
  unfold load? load
  split
  · rfl
  · rw [write?_eq]

theorem store?_eq (m : Memory) {a : Nat} {bytes : List UInt8}
    (h : a + bytes.length < long) : m.store? a bytes = some (m.store a bytes) := by
  unfold store? store
  split
  · rfl
  · simp only [sum_eq h, Option.bind_eq_bind, Option.bind_some]
    split
    · rfl
    · rw [copy?_eq m (by omega), Option.map_some]

theorem fetchClamped?_eq (m : Memory) {a length : Nat} (h : a + length < long) :
    m.fetchClamped? a length = some (m.fetchClamped a length) := by
  unfold fetchClamped? fetchClamped
  split
  · have hcut : min (a + length) size = a + min length (size - a) := by omega
    have hinside : a + min length (size - a) ≤ size := by omega
    simp only [sum_eq h, Option.bind_eq_bind, Option.bind_some, hcut, slice?_eq m hinside,
      Option.map_some]
  · rfl

theorem fetch?_eq (m : Memory) {a length : Nat} (h : a + length < long) :
    m.fetch? a length = some (m.fetch a length) := by
  unfold fetch? fetch
  simp only [sum_eq h, Option.bind_eq_bind, Option.bind_some]
  by_cases hend : size < a + length
  · have hnone : m.slice? a (a + length) = none := by
      rw [slice?, if_neg (by omega)]
    rw [hnone, if_pos hend]
  · rw [slice?_eq m (Nat.le_of_not_lt hend), if_neg hend]

end ChipEight.Memory
