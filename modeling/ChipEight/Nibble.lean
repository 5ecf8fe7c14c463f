/-!
Nibbles: the numbers below sixteen, which name registers, keys and digits.
-/

namespace ChipEight

abbrev Nibble := Fin 16

namespace Nibble

instance instNeZero : @NeZero Nat Zero.ofOfNat0 16 := ⟨Nat.succ_ne_zero 15⟩

def ofNat (n : Nat) : Nibble :=
  Fin.ofNat 16 n

def ofByte (b : UInt8) : Nibble :=
  ofNat b.toNat

@[simp] theorem val_ofNat (n : Nat) : (ofNat n : Nat) = n % 16 := rfl

@[simp] theorem val_ofByte (b : UInt8) : (ofByte b : Nat) = b.toNat % 16 := rfl

end Nibble

end ChipEight
