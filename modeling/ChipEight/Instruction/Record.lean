import ChipEight.Instruction.Basic

/-!
Instructions written out as records: a name and the named numbers that the
instruction holds, in decimal, as diagnostics show them.
-/

namespace ChipEight

structure Record where
  name : String
  fields : List (String × Nat)
  deriving DecidableEq, Repr

def Record.text (r : Record) : String :=
  match r.fields with
  | [] => r.name
  | fields =>
    r.name ++ " \x7b " ++
      ", ".intercalate (fields.map fun f => f.1 ++ ": " ++ toString f.2) ++ " \x7d"

def Nibbles.record (p : Nibbles) : Record :=
  ⟨"Opcode", [("c", p.family), ("x", p.x), ("y", p.y), ("n", p.n),
    ("nn", p.nn.toNat), ("nnn", p.nnn)]⟩

def ArithOp.recordName : ArithOp → String
  | .copy => "RegSet"
  | .or => "RegOr"
  | .and => "RegAnd"
  | .xor => "RegXor"
  | .add => "RegAdd"
  | .subtract => "RegSubRight"
  | .shiftRight => "RegShiftRight"
  | .subtractFrom => "RegSubLeft"
  | .shiftLeft => "RegShiftLeft"

namespace Instruction

/-- The record of an instruction of a defined form, and the fields of a word of
no form. -/
def record : Instruction → Record
  | .system target => ⟨"Sys", [("nnn", target)]⟩
  | .clear => ⟨"Cls", []⟩
  | .ret => ⟨"Ret", []⟩
  | .jump target => ⟨"Jump", [("nnn", target)]⟩
  | .call target => ⟨"Call", [("nnn", target)]⟩
  | .skipIfEqual x constant => ⟨"SkipEq", [("x", x), ("nn", constant.toNat)]⟩
  | .skipUnlessEqual x constant => ⟨"SkipNe", [("x", x), ("nn", constant.toNat)]⟩
  | .skipIfSame x y => ⟨"SkipRegEq", [("x", x), ("y", y)]⟩
  | .setConstant x constant => ⟨"Set", [("x", x), ("nn", constant.toNat)]⟩
  | .addConstant x constant => ⟨"Add", [("x", x), ("nn", constant.toNat)]⟩
  | .arith op x y => ⟨op.recordName, [("x", x), ("y", y)]⟩
  | .skipUnlessSame x y => ⟨"SkipRegNe", [("x", x), ("y", y)]⟩
  | .setIndex target => ⟨"SetIndex", [("nnn", target)]⟩
  | .jumpOffset base x => ⟨"JumpWithOffset", [("nnn", base), ("x", x)]⟩
  | .random x mask => ⟨"Random", [("x", x), ("nn", mask.toNat)]⟩
  | .draw x y height => ⟨"Draw", [("x", x), ("y", y), ("n", height)]⟩
  | .skipIfKeyDown x => ⟨"SkipIfKeyDown", [("x", x)]⟩
  | .skipIfKeyUp x => ⟨"SkipIfKeyUp", [("x", x)]⟩
  | .readDelay x => ⟨"DelayGet", [("x", x)]⟩
  | .waitKey x => ⟨"GetKey", [("x", x)]⟩
  | .setDelay x => ⟨"DelaySet", [("x", x)]⟩
  | .setSound x => ⟨"SoundSet", [("x", x)]⟩
  | .addIndex x => ⟨"AddToIndex", [("x", x)]⟩
  | .pointGlyph x => ⟨"FontCharacter", [("x", x)]⟩
  | .storeDecimal x => ⟨"StoreDecimal", [("x", x)]⟩
  | .storeRegisters x => ⟨"MemoryStore", [("x", x)]⟩
  | .loadRegisters x => ⟨"MemoryLoad", [("x", x)]⟩
  | .undefined w => (Nibbles.ofWord w).record

/-- The text of the record; the fields of a word of no form stand in brackets
behind `Unknown`. -/
def recordText (i : Instruction) : String :=
  match i with
  | .undefined _ => "Unknown(" ++ i.record.text ++ ")"
  | _ => i.record.text

end Instruction

end ChipEight
