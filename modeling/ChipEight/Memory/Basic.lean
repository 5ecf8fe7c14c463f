import ChipEight.Fault

/-!
The memory: 4096 bytes, of which those below the program base belong to the
interpreter and are never written by loads or stores.  Ranges are checked as
exact numbers before anything is read or written.
-/

namespace ChipEight

structure Memory where
  cells : Vector UInt8 4096
  deriving DecidableEq

namespace Memory

def size : Nat := 4096

/-- Where programs start; the bytes below are reserved. -/
def programBase : Nat := 0x200

def zero : Memory :=
  ⟨Vector.replicate 4096 0⟩

/-- The byte at an address, zero past the end. -/
def get (m : Memory) (a : Nat) : UInt8 :=
  m.cells[a]?.getD 0

/-- Put bytes from an address on; what would lie past the end is dropped. -/
def overwrite (m : Memory) (a : Nat) : List UInt8 → Memory
  | [] => m
  | b :: rest => overwrite ⟨m.cells.setIfInBounds a b⟩ (a + 1) rest

def window (m : Memory) (a length : Nat) : List UInt8 :=
  (List.range' a length).map m.get

def byte (m : Memory) (a : Nat) : Except Fault UInt8 :=
  if a < size then .ok (m.get a) else .error (.outOfBounds a)

def word (m : Memory) (a : Nat) : Except Fault UInt16 :=
  match m.byte a with
  | .error f => .error f
  | .ok high =>
    match m.byte (a + 1) with
    | .error f => .error f
    | .ok low => .ok (UInt16.ofNat (256 * high.toNat + low.toNat))

/-- Put a program image into the program area. -/
def load (m : Memory) (offset : Nat) (image : List UInt8) : Except Fault Memory :=
  if offset < programBase then .error (.protectedWrite offset)
  else if size < offset + image.length then
    .error (.loadOverflow offset image.length)
  else .ok (m.overwrite offset image)

/-- Put bytes into the program area on behalf of a running program. -/
def store (m : Memory) (a : Nat) (bytes : List UInt8) : Except Fault Memory :=
  if a < programBase then .error (.protectedWrite a)
  -- the first address of the interval that is past the end
  else if size < a + bytes.length then .error (.outOfBounds (max a size))
  else .ok (m.overwrite a bytes)

/-- Exactly the bytes of an interval. -/
def fetch (m : Memory) (a length : Nat) : Except Fault (List UInt8) :=
  if size < a + length then .error (.outOfBounds (max a size))
  else .ok (m.window a length)

/-- The bytes of an interval that starts inside the memory, cut at its end. -/
def fetchClamped (m : Memory) (a length : Nat) : Except Fault (List UInt8) :=
  if a < size then .ok (m.window a (min length (size - a)))
  else .error (.outOfBounds a)

@[ext] theorem ext {m n : Memory} (h : ∀ a, a < size → m.get a = n.get a) : m = n := by
  obtain ⟨x⟩ := m
  obtain ⟨y⟩ := n
  have hxy : x = y := Vector.ext fun i hi => by simpa [get, hi] using h i hi
  rw [hxy]

@[simp] theorem get_zero (a : Nat) : zero.get a = 0 := by
  simp only [get, zero, Vector.getElem?_replicate]
  split <;> rfl

@[simp] theorem length_window (m : Memory) (a length : Nat) :
    (m.window a length).length = length := by
  simp [window]

theorem getElem_window (m : Memory) (a length k : Nat)
    (h : k < (m.window a length).length) :
    (m.window a length)[k] = m.get (a + k) := by
  simp [window]

theorem get_overwrite_of_outside (m : Memory) {a q : Nat} {bytes : List UInt8}
    (h : q < a ∨ a + bytes.length ≤ q) : (m.overwrite a bytes).get q = m.get q := by
  induction bytes generalizing m a with
  | nil => rfl
  | cons b rest ih =>
    simp only [List.length_cons] at h
    rw [overwrite, ih _ (by omega)]
    simp only [get, Vector.getElem?_setIfInBounds, if_neg (show a ≠ q by omega)]

theorem get_overwrite_inside (m : Memory) {a k : Nat} {bytes : List UInt8}
    (hk : k < bytes.length) (h : a + bytes.length ≤ size) :
    (m.overwrite a bytes).get (a + k) = bytes[k] := by
  induction bytes generalizing m a k with
  | nil => simp at hk
  | cons b rest ih =>
    simp only [List.length_cons] at h
    have ha : a < 4096 := by
      unfold size at h
      omega
    cases k with
    | zero =>
      rw [overwrite, get_overwrite_of_outside _ (Or.inl (by omega))]
      simp [get, ha]
    | succ k =>
      have hstep := ih ⟨m.cells.setIfInBounds a b⟩ (by simpa using hk)
        (show a + 1 + rest.length ≤ size by omega)
      rw [overwrite, List.getElem_cons_succ, ← hstep]
      congr 1
      omega

end Memory

end ChipEight
