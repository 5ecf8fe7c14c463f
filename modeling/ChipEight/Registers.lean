import ChipEight.Instruction.Basic

/-!
The register file: sixteen bytes V0 to VF, of which VF doubles as the flag.
-/

namespace ChipEight

structure Registers where
  cells : Vector UInt8 16
  deriving DecidableEq, Repr

namespace Registers

def flagName : RegisterName := 15

def zero : Registers :=
  ⟨Vector.replicate 16 0⟩

def get (v : Registers) (r : RegisterName) : UInt8 :=
  v.cells[r]

def set (v : Registers) (r : RegisterName) (b : UInt8) : Registers :=
  ⟨v.cells.set r b⟩

def flag (v : Registers) : UInt8 :=
  v.get flagName

def setFlag (v : Registers) (on : Bool) : Registers :=
  v.set flagName (if on then 1 else 0)

def upTo (v : Registers) (x : RegisterName) : List UInt8 :=
  v.cells.toList.take (x + 1)

/-- Put bytes over the first registers; bytes beyond the last are dropped. -/
def overwrite (v : Registers) (bytes : List UInt8) : Registers :=
  ⟨v.cells.mapIdx fun i b => bytes.getD i b⟩

@[ext] theorem ext {v w : Registers} (h : ∀ r, v.get r = w.get r) : v = w := by
  obtain ⟨a⟩ := v
  obtain ⟨b⟩ := w
  have hab : a = b := Vector.ext fun i hi => h ⟨i, hi⟩
  rw [hab]

theorem get_set (v : Registers) (r s : RegisterName) (b : UInt8) :
    (v.set r b).get s = if r = s then b else v.get s := by
  simp [set, get, Vector.getElem_set, Fin.ext_iff]

@[simp] theorem get_set_self (v : Registers) (r : RegisterName) (b : UInt8) :
    (v.set r b).get r = b := by
  simp [get_set]

theorem get_set_of_ne (v : Registers) {r s : RegisterName} (b : UInt8) (h : r ≠ s) :
    (v.set r b).get s = v.get s := by
  simp [get_set, h]

@[simp] theorem flag_setFlag (v : Registers) (on : Bool) :
    (v.setFlag on).flag = if on then 1 else 0 :=
  get_set_self v flagName _

theorem get_setFlag_of_ne (v : Registers) {r : RegisterName} (on : Bool) (h : r ≠ flagName) :
    (v.setFlag on).get r = v.get r :=
  get_set_of_ne v _ (Ne.symm h)

@[simp] theorem length_upTo (v : Registers) (x : RegisterName) :
    (v.upTo x).length = x + 1 := by
  simp only [upTo, List.length_take, Vector.length_toList]
  omega

theorem getElem_upTo (v : Registers) (x r : RegisterName) (h : (r : Nat) < (v.upTo x).length) :
    (v.upTo x)[(r : Nat)] = v.get r := by
  simp [upTo, get]

@[simp] theorem get_overwrite (v : Registers) (bytes : List UInt8) (r : RegisterName) :
    (v.overwrite bytes).get r = bytes.getD r (v.get r) := by
  simp [overwrite, get]

end Registers

end ChipEight
