import ChipEight.Instruction.Decode
import Mathlib.Data.Fintype.Basic
import Mathlib.Tactic.FinCases

/-!
The forms of instruction words, and the word of an instruction.  A word that has one of
the forms is an instruction and all others are undefined; either way the instruction
determines the word that it was read from.
-/

namespace ChipEight

/-- The form of an instruction word: four nibbles, those that are left open being
absent. -/
structure Form where
  family : Nibble
  x : Option Nibble
  y : Option Nibble
  n : Option Nibble
  deriving DecidableEq, Repr

namespace Form

def fits (f : Form) (p : Nibbles) : Bool :=
  p.family == f.family && f.x.all (p.x == ·) && f.y.all (p.y == ·) && f.n.all (p.n == ·)

def all : List Form :=
  -- first those that leave three nibbles open or none
  [⟨0x0, none, none, none⟩, ⟨0x0, some 0x0, some 0xE, some 0x0⟩,
   ⟨0x0, some 0x0, some 0xE, some 0xE⟩,
   ⟨0x1, none, none, none⟩, ⟨0x2, none, none, none⟩, ⟨0x3, none, none, none⟩,
   ⟨0x4, none, none, none⟩, ⟨0x6, none, none, none⟩, ⟨0x7, none, none, none⟩,
   ⟨0xA, none, none, none⟩, ⟨0xB, none, none, none⟩, ⟨0xC, none, none, none⟩,
   ⟨0xD, none, none, none⟩,
   -- two registers are left open
   ⟨0x5, none, none, some 0x0⟩, ⟨0x9, none, none, some 0x0⟩,
   ⟨0x8, none, none, some 0x0⟩, ⟨0x8, none, none, some 0x1⟩, ⟨0x8, none, none, some 0x2⟩,
   ⟨0x8, none, none, some 0x3⟩, ⟨0x8, none, none, some 0x4⟩, ⟨0x8, none, none, some 0x5⟩,
   ⟨0x8, none, none, some 0x6⟩, ⟨0x8, none, none, some 0x7⟩, ⟨0x8, none, none, some 0xE⟩,
   -- one register is left open
   ⟨0xE, none, some 0x9, some 0xE⟩, ⟨0xE, none, some 0xA, some 0x1⟩,
   ⟨0xF, none, some 0x0, some 0x7⟩, ⟨0xF, none, some 0x0, some 0xA⟩,
   ⟨0xF, none, some 0x1, some 0x5⟩, ⟨0xF, none, some 0x1, some 0x8⟩,
   ⟨0xF, none, some 0x1, some 0xE⟩, ⟨0xF, none, some 0x2, some 0x9⟩,
   ⟨0xF, none, some 0x3, some 0x3⟩, ⟨0xF, none, some 0x5, some 0x5⟩,
   ⟨0xF, none, some 0x6, some 0x5⟩]

example : all.length = 35 := rfl

end Form

theorem ArithOp.isSome_ofNibble? (n : Nibble) :
    (ArithOp.ofNibble? n).isSome = [0x0, 0x1, 0x2, 0x3, 0x4, 0x5, 0x6, 0x7, 0xE].contains n := by
  revert n
  decide

namespace Nibbles

theorem isSome_keyInstruction? (p : Nibbles) :
    p.keyInstruction?.isSome = [(0x9, 0xE), (0xA, 0x1)].contains (p.y, p.n) := by
  have hnn : p.keyInstruction?.isSome = [0x9E, 0xA1].contains p.nn.toNat := by
    unfold keyInstruction?
    split <;> simp_all
  rw [hnn, toNat_nn]
  generalize p.y = y, p.n = n
  revert y n
  decide +kernel

theorem isSome_deviceInstruction? (p : Nibbles) :
    p.deviceInstruction?.isSome =
      [(0x0, 0x7), (0x0, 0xA), (0x1, 0x5), (0x1, 0x8), (0x1, 0xE), (0x2, 0x9), (0x3, 0x3),
        (0x5, 0x5), (0x6, 0x5)].contains (p.y, p.n) := by
  have hnn : p.deviceInstruction?.isSome =
      [0x07, 0x0A, 0x15, 0x18, 0x1E, 0x29, 0x33, 0x55, 0x65].contains p.nn.toNat := by
    unfold deviceInstruction?
    split <;> simp_all
  rw [hnn, toNat_nn]
  generalize p.y = y, p.n = n
  revert y n
  decide +kernel

theorem isSome_instruction? (p : Nibbles) :
    p.instruction?.isSome = Form.all.any (·.fits p) := by
  obtain ⟨family, x, y, n⟩ := p
  rw [Bool.eq_iff_iff]
  fin_cases family
  all_goals simp [instruction?, Form.all, Form.fits, ArithOp.isSome_ofNibble?,
    isSome_keyInstruction?, isSome_deviceInstruction?]

/-! ### The word of an instruction -/

def withAddress (family : Nibble) (a : Address) : Nibbles :=
  ⟨family, Nibble.ofNat (a / 256), Nibble.ofNat (a / 16), Nibble.ofNat a⟩

def withByte (family x : Nibble) (b : UInt8) : Nibbles :=
  ⟨family, x, Nibble.ofNat (b.toNat / 16), Nibble.ofNat b.toNat⟩

theorem withAddress_eq {p : Nibbles} {family : Nibble} {a : Address}
    (hfamily : p.family = family) (ha : p.nnn.val = a.val) : withAddress family a = p := by
  rw [← hfamily, ← Fin.ext ha]
  ext <;> simp only [withAddress, Nibble.val_ofNat, val_nnn] <;> omega

theorem withByte_eq {p : Nibbles} {family : Nibble} {b : UInt8}
    (hfamily : p.family = family) (hb : p.nn.toNat = b.toNat) : withByte family p.x b = p := by
  rw [← hfamily, ← UInt8.toNat_inj.1 hb]
  ext <;> simp only [withByte, Nibble.val_ofNat, toNat_nn] <;> omega

end Nibbles

def ArithOp.nibble : ArithOp → Nibble
  | .copy => 0x0
  | .or => 0x1
  | .and => 0x2
  | .xor => 0x3
  | .add => 0x4
  | .subtract => 0x5
  | .shiftRight => 0x6
  | .subtractFrom => 0x7
  | .shiftLeft => 0xE

theorem ArithOp.nibble_of_ofNibble? {n : Nibble} {op : ArithOp} (h : ofNibble? n = some op) :
    op.nibble = n := by
  revert n op
  decide

/-- The nibbles of the word that an instruction was read from. -/
def Instruction.nibbles : Instruction → Nibbles
  | .system target => .withAddress 0x0 target
  | .clear => .withAddress 0x0 0x0E0
  | .ret => .withAddress 0x0 0x0EE
  | .jump target => .withAddress 0x1 target
  | .call target => .withAddress 0x2 target
  | .skipIfEqual x constant => .withByte 0x3 x constant
  | .skipUnlessEqual x constant => .withByte 0x4 x constant
  | .skipIfSame x y => ⟨0x5, x, y, 0x0⟩
  | .setConstant x constant => .withByte 0x6 x constant
  | .addConstant x constant => .withByte 0x7 x constant
  | .arith op x y => ⟨0x8, x, y, op.nibble⟩
  | .skipUnlessSame x y => ⟨0x9, x, y, 0x0⟩
  | .setIndex target => .withAddress 0xA target
  | .jumpOffset base _ => .withAddress 0xB base
  | .random x mask => .withByte 0xC x mask
  | .draw x y height => ⟨0xD, x, y, height⟩
  | .skipIfKeyDown x => .withByte 0xE x 0x9E
  | .skipIfKeyUp x => .withByte 0xE x 0xA1
  | .readDelay x => .withByte 0xF x 0x07
  | .waitKey x => .withByte 0xF x 0x0A
  | .setDelay x => .withByte 0xF x 0x15
  | .setSound x => .withByte 0xF x 0x18
  | .addIndex x => .withByte 0xF x 0x1E
  | .pointGlyph x => .withByte 0xF x 0x29
  | .storeDecimal x => .withByte 0xF x 0x33
  | .storeRegisters x => .withByte 0xF x 0x55
  | .loadRegisters x => .withByte 0xF x 0x65
  | .undefined w => .ofWord w

namespace Nibbles

variable {p : Nibbles} {i : Instruction}

theorem nibbles_systemInstruction (h : p.family = 0x0) : p.systemInstruction.nibbles = p := by
  unfold systemInstruction
  split
  · rename_i hclear
    exact withAddress_eq h hclear
  · rename_i hret
    exact withAddress_eq h hret
  · exact withAddress_eq h rfl

theorem nibbles_of_keyInstruction? (hfamily : p.family = 0xE)
    (h : p.keyInstruction? = some i) : i.nibbles = p := by
  unfold keyInstruction? at h
  split at h
  all_goals cases h
  all_goals exact withByte_eq hfamily ‹_›

theorem nibbles_of_deviceInstruction? (hfamily : p.family = 0xF)
    (h : p.deviceInstruction? = some i) : i.nibbles = p := by
  unfold deviceInstruction? at h
  split at h
  all_goals cases h
  all_goals exact withByte_eq hfamily ‹_›

theorem nibbles_of_instruction? (h : p.instruction? = some i) : i.nibbles = p := by
  unfold instruction? at h
  split at h
  case h_1 hf =>
    obtain rfl := Option.some.inj h
    exact nibbles_systemInstruction (Fin.ext hf)
  case h_6 hf =>
    split at h
    · rename_i hn
      obtain rfl := Option.some.inj h
      exact Nibbles.ext (Fin.ext hf.symm) rfl rfl hn.symm
    · cases h
  case h_9 hf =>
    obtain ⟨op, hop, rfl⟩ := Option.map_eq_some_iff.1 h
    exact Nibbles.ext (Fin.ext hf.symm) rfl rfl (ArithOp.nibble_of_ofNibble? hop)
  case h_10 hf =>
    split at h
    · rename_i hn
      obtain rfl := Option.some.inj h
      exact Nibbles.ext (Fin.ext hf.symm) rfl rfl hn.symm
    · cases h
  case h_14 hf =>
    obtain rfl := Option.some.inj h
    exact Nibbles.ext (Fin.ext hf.symm) rfl rfl rfl
  case h_15 hf => exact nibbles_of_keyInstruction? (Fin.ext hf) h
  case h_16 =>
    have hf : p.family.val = 15 := by
      simp only [imp_false] at *
      omega
    exact nibbles_of_deviceInstruction? (Fin.ext hf) h
  -- the others end in an address or in a byte
  case h_2 hf | h_3 hf | h_11 hf | h_12 hf =>
    obtain rfl := Option.some.inj h
    exact withAddress_eq (Fin.ext hf) rfl
  all_goals
    obtain rfl := Option.some.inj h
    exact withByte_eq (Fin.ext ‹_›) rfl

theorem instruction?_ne_undefined (p : Nibbles) (w : UInt16) :
    p.instruction? ≠ some (.undefined w) := by
  intro h
  unfold instruction? systemInstruction keyInstruction? deviceInstruction? at h
  split at h
  all_goals try split at h
  all_goals simp at h

end Nibbles

namespace Instruction

theorem decode_word (p : Nibbles) : decode p.word = p.instruction?.getD (.undefined p.word) := by
  rw [decode, Nibbles.ofWord_word]

/-- Whether a word is defined or not, what it decodes to determines its nibbles. -/
theorem nibbles_decode (w : UInt16) : (decode w).nibbles = Nibbles.ofWord w := by
  rw [decode]
  cases h : (Nibbles.ofWord w).instruction? with
  | none => rfl
  | some i => exact Nibbles.nibbles_of_instruction? h

theorem decode_eq_undefined_iff {w v : UInt16} :
    decode w = .undefined v ↔
      w = v ∧ ∀ f ∈ Form.all, f.fits (Nibbles.ofWord w) = false := by
  have hforms := Nibbles.isSome_instruction? (Nibbles.ofWord w)
  rw [decode]
  cases hdefined : (Nibbles.ofWord w).instruction? with
  | none =>
    rw [hdefined, Option.isSome_none, eq_comm, List.any_eq_false] at hforms
    rw [Option.getD_none, undefined.injEq]
    exact (and_iff_left fun f hf => Bool.eq_false_iff.2 (hforms f hf)).symm
  | some i =>
    rw [hdefined, Option.isSome_some, eq_comm, List.any_eq_true] at hforms
    obtain ⟨f, hf, hfits⟩ := hforms
    rw [Option.getD_some]
    constructor
    · rintro rfl
      exact absurd hdefined (Nibbles.instruction?_ne_undefined _ v)
    · rintro ⟨-, hnone⟩
      exact absurd hfits (Bool.eq_false_iff.1 (hnone f hf))

end Instruction

end ChipEight
