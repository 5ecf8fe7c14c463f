import ChipEight.Instruction.Mnemonic
import ChipEight.Proofs.InstructionForms
import ChipEight.Proofs.Text.Numerals

/-!
Assembling, from the text of an instruction back to its word.  A text is cut at blanks and
commas into a name and operands, each operand is read by itself, and the name together with
the kinds of the operands gives the word.  Each of these steps undoes one of the notation:
so every word is assembled from the text that it is shown as, and no two words are shown
alike.
-/

namespace ChipEight

/-! ### Tokens -/

/-- Blanks and commas part what stands around them. -/
def isSeparator (c : Char) : Bool :=
  c == ' ' || c == ','

def tokens (cs : List Char) : List (List Char) :=
  (cs.splitOnP isSeparator).filter (!·.isEmpty)

/-- The characters stand together as one piece. -/
def IsToken (cs : List Char) : Prop :=
  cs ≠ [] ∧ cs.any isSeparator = false
  deriving Decidable

section Tokens

variable {c : Char} {cs rest : List Char}

theorem IsToken.not_separator (h : IsToken cs) : ∀ c ∈ cs, isSeparator c = false :=
  fun c hc => Bool.eq_false_iff.2 (List.any_eq_false.1 h.2 c hc)

theorem tokens_of_isToken (h : IsToken cs) : tokens cs = [cs] := by
  rw [tokens, List.splitOnP_eq_singleton h.not_separator, List.filter_cons_of_pos (by simp [h.1])]
  rfl

theorem tokens_separator (hc : isSeparator c = true) : tokens (c :: rest) = tokens rest := by
  have hsplit : (c :: rest).splitOnP isSeparator = [] :: rest.splitOnP isSeparator :=
    List.splitOnP_append_cons [] rest hc
  rw [tokens, hsplit]
  rfl

theorem tokens_append (h : IsToken cs) (hc : isSeparator c = true) :
    tokens (cs ++ c :: rest) = cs :: tokens rest := by
  rw [tokens, List.splitOnP_append_cons_of_forall_mem h.not_separator c hc,
    List.filter_cons_of_pos (by simp [h.1])]
  rfl

theorem tokens_intercalate {ts : List (List Char)} (hne : ts ≠ []) (h : ∀ t ∈ ts, IsToken t) :
    tokens ([',', ' '].intercalate ts) = ts := by
  induction ts with
  | nil => exact absurd rfl hne
  | cons t ts ih =>
    have ht := h t (List.mem_cons_self ..)
    cases ts with
    | nil => simpa using tokens_of_isToken ht
    | cons u us =>
      have hus := ih (List.cons_ne_nil u us) fun v hv => h v (List.mem_cons_of_mem t hv)
      rw [List.intercalate_cons_cons, List.append_assoc]
      calc
        tokens (t ++ ',' :: ' ' :: [',', ' '].intercalate (u :: us))
        _ = t :: tokens (' ' :: [',', ' '].intercalate (u :: us)) := tokens_append ht rfl
        _ = t :: tokens ([',', ' '].intercalate (u :: us)) := by rw [tokens_separator rfl]
        _ = t :: u :: us := by rw [hus]

theorem isToken_of_subset {l : List Char} (hne : cs ≠ []) (h : ∀ c ∈ cs, c ∈ l)
    (hl : l.any isSeparator = false) : IsToken cs :=
  ⟨hne, List.any_eq_false.2 fun c hc => List.any_eq_false.1 hl c (h c hc)⟩

end Tokens

theorem isToken_upper (w n : Nat) : IsToken (Hex.upper w n).toList :=
  isToken_of_subset (Hex.toList_upper_ne_nil w n) (fun _ => Hex.mem_upper) (by decide)

theorem isToken_marked (w n : Nat) : IsToken (Hex.marked w n).toList := by
  rw [Hex.toList_marked]
  refine isToken_of_subset (l := 'x' :: "0123456789abcdef".toList) (List.cons_ne_nil _ _) ?_
    (by decide)
  intro c hc
  rcases List.mem_cons.1 hc with rfl | hc
  · decide
  rcases List.mem_cons.1 hc with rfl | hc
  · decide
  · exact List.mem_cons_of_mem 'x' (Hex.mem_lower hc)

/-! ### Operands -/

namespace Operand

theorem isToken_text (o : Operand) : IsToken o.text.toList := by
  cases o with
  | register x =>
    revert x
    decide +kernel
  | byte value => exact isToken_marked 2 _
  | address target => exact isToken_marked 3 _
  | rows height =>
    revert height
    decide +kernel
  | word value => exact isToken_upper 4 _
  | _ => decide

def number? (base limit : Nat) (cs : List Char) : Option Nat :=
  (Numeral.read base limit cs).toOption

/-- Read the text of an operand.  Behind the mark `0x` two digits make a byte, else they make
an address; without it four characters make a word, else they make a number of rows. -/
def ofToken? (cs : List Char) : Option Operand :=
  match cs with
  | ['I'] => some .index
  | ['[', 'I', ']'] => some .atIndex
  | ['D', 'T'] => some .delay
  | ['S', 'T'] => some .sound
  | ['K'] => some .key
  | ['F'] => some .glyph
  | ['B'] => some .decimal
  | 'V' :: digits => (number? 16 0xF digits).map fun n => .register (Nibble.ofNat n)
  | '0' :: 'x' :: digits =>
    if digits.length = 2 then (number? 16 0xFF digits).map fun n => .byte (UInt8.ofNat n)
    else
      (number? 16 0xFFF digits).bind fun n =>
        if h : n < 4096 then some (.address ⟨n, h⟩) else none
  | digits =>
    if digits.length = 4 then (number? 16 0xFFFF digits).map fun n => .word (UInt16.ofNat n)
    else (number? 10 0xF digits).map fun n => .rows (Nibble.ofNat n)

theorem number?_lower {w n limit : Nat} (h : n ≤ limit) :
    number? 16 limit (Hex.lower w n).toList = some n := by
  rw [number?, Hex.read_lower h]
  rfl

theorem number?_upper {w n limit : Nat} (h : n ≤ limit) :
    number? 16 limit (Hex.upper w n).toList = some n := by
  rw [number?, Hex.read_upper h]
  rfl

theorem ofToken?_byte (value : UInt8) :
    ofToken? (Operand.byte value).text.toList = some (.byte value) := by
  have hlt := value.toNat_lt
  have hlength : (Hex.lower 2 value.toNat).toList.length = 2 :=
    Hex.length_lower hlt (by decide)
  rw [text, Hex.toList_marked, ofToken?, if_pos hlength, number?_lower (by omega),
    Option.map_some, UInt8.ofNat_toNat]

theorem ofToken?_address (target : Address) :
    ofToken? (Operand.address target).text.toList = some (.address target) := by
  have hlength : (Hex.lower 3 target).toList.length = 3 :=
    Hex.length_lower target.isLt (by decide)
  rw [text, Hex.toList_marked, ofToken?, if_neg (by omega), number?_lower (by omega),
    Option.bind_some, dif_pos target.isLt]

theorem ofToken?_word (value : UInt16) :
    ofToken? (Operand.word value).text.toList = some (.word value) := by
  have hlt := value.toNat_lt
  have hlength : (Hex.upper 4 value.toNat).toList.length = 4 :=
    Hex.length_upper hlt (by decide)
  have hread : number? 16 0xFFFF (Hex.upper 4 value.toNat).toList = some value.toNat :=
    number?_upper (by omega)
  have hdigit (c : Char) (h : c ∈ (Hex.upper 4 value.toNat).toList) :
      c ∈ "0123456789ABCDEF".toList := Hex.mem_upper h
  rw [text, ofToken?.eq_def]
  generalize (Hex.upper 4 value.toNat).toList = cs at hlength hread hdigit
  split
  case h_8 => exact absurd (hdigit 'V' (by simp)) (by decide)
  case h_9 => exact absurd (hdigit 'x' (by simp)) (by decide)
  case h_10 => rw [if_pos hlength, hread, Option.map_some, UInt16.ofNat_toNat]
  -- the other texts are shorter
  all_goals cases hlength

theorem ofToken?_text (o : Operand) : ofToken? o.text.toList = some o := by
  cases o with
  | register x =>
    revert x
    decide +kernel
  | byte value => exact ofToken?_byte value
  | address target => exact ofToken?_address target
  | rows height =>
    revert height
    decide +kernel
  | word value => exact ofToken?_word value
  | _ => decide

theorem mapM_ofToken?_text (os : List Operand) :
    (os.map (·.text.toList)).mapM ofToken? = some os := by
  induction os with
  | nil => rfl
  | cons o os ih =>
    rw [List.map_cons, List.mapM_cons, ofToken?_text, ih]
    rfl

end Operand

/-! ### Mnemonics -/

def ArithOp.ofName? (name : String) : Option ArithOp :=
  [copy, or, and, xor, add, subtract, shiftRight, subtractFrom, shiftLeft].find? (·.name == name)

namespace Mnemonic

theorem tokens_text {m : Mnemonic} (hname : IsToken m.name.toList) :
    tokens m.text.toList = m.name.toList :: m.operands.map (·.text.toList) := by
  obtain ⟨name, operands⟩ := m
  cases operands with
  | nil => exact tokens_of_isToken hname
  | cons o os =>
    have htext : (Mnemonic.mk name (o :: os)).text.toList = name.toList ++
        ' ' :: [',', ' '].intercalate ((o :: os).map (·.text.toList)) := by
      rw [text, String.toList_append, String.toList_append, String.toList_intercalate,
        List.map_map, List.append_assoc]
      rfl
    have hoperands : ∀ t ∈ (o :: os).map (·.text.toList), IsToken t := by
      intro t ht
      obtain ⟨p, -, rfl⟩ := List.mem_map.1 ht
      exact p.isToken_text
    rw [htext, tokens_append hname rfl]
    exact congrArg _ (tokens_intercalate (List.cons_ne_nil _ _) hoperands)

def ofText? (s : String) : Option Mnemonic :=
  match tokens s.toList with
  | [] => none
  | name :: operands =>
    (operands.mapM Operand.ofToken?).map fun os => ⟨String.ofList name, os⟩

theorem ofText?_text {m : Mnemonic} (hname : IsToken m.name.toList) :
    ofText? m.text = some m := by
  rw [ofText?, tokens_text hname]
  simp only [Operand.mapM_ofToken?_text, Option.map_some, String.ofList_toList]

/-- The nibbles of the word that a mnemonic stands for. -/
def nibbles? (m : Mnemonic) : Option Nibbles :=
  match m.operands, m.name with
  | [], "CLS" => some ⟨0x0, 0x0, 0xE, 0x0⟩
  | [], "RET" => some ⟨0x0, 0x0, 0xE, 0xE⟩
  | [.address a], "SYS" => some (.withAddress 0x0 a)
  | [.address a], "JP" => some (.withAddress 0x1 a)
  | [.address a], "CALL" => some (.withAddress 0x2 a)
  | [.register x, .byte b], "SE" => some (.withByte 0x3 x b)
  | [.register x, .byte b], "SNE" => some (.withByte 0x4 x b)
  | [.register x, .byte b], "LD" => some (.withByte 0x6 x b)
  | [.register x, .byte b], "ADD" => some (.withByte 0x7 x b)
  | [.register x, .byte b], "RND" => some (.withByte 0xC x b)
  | [.register x, .register y], "SE" => some ⟨0x5, x, y, 0x0⟩
  | [.register x, .register y], "SNE" => some ⟨0x9, x, y, 0x0⟩
  | [.register x, .register y], name => (ArithOp.ofName? name).map fun op => ⟨0x8, x, y, op.nibble⟩
  | [.index, .address a], "LD" => some (.withAddress 0xA a)
  | [.register _, .address a], "JP" => some (.withAddress 0xB a)
  | [.register x, .register y, .rows n], "DRW" => some ⟨0xD, x, y, n⟩
  | [.register x], "SKP" => some (.withByte 0xE x 0x9E)
  | [.register x], "SKNP" => some (.withByte 0xE x 0xA1)
  | [.register x, .delay], "LD" => some (.withByte 0xF x 0x07)
  | [.register x, .key], "LD" => some (.withByte 0xF x 0x0A)
  | [.delay, .register x], "LD" => some (.withByte 0xF x 0x15)
  | [.sound, .register x], "LD" => some (.withByte 0xF x 0x18)
  | [.index, .register x], "ADD" => some (.withByte 0xF x 0x1E)
  | [.glyph, .register x], "LD" => some (.withByte 0xF x 0x29)
  | [.decimal, .register x], "LD" => some (.withByte 0xF x 0x33)
  | [.atIndex, .register x], "LD" => some (.withByte 0xF x 0x55)
  | [.register x, .atIndex], "LD" => some (.withByte 0xF x 0x65)
  | [.word w], "???" => some (.ofWord w)
  | _, _ => none

end Mnemonic

namespace Instruction

theorem isToken_name_assembly (i : Instruction) : IsToken i.assembly.name.toList := by
  cases i with
  | arith op =>
    cases op
    all_goals
      dsimp only [assembly, ArithOp.name]
      decide
  | _ =>
    dsimp only [assembly]
    decide

theorem nibbles?_assembly (i : Instruction) : i.assembly.nibbles? = some i.nibbles := by
  cases i with
  | arith op =>
    cases op
    all_goals rfl
  | _ => rfl

end Instruction

/-! ### Words -/

/-- The word that a text stands for, if it is the text of one. -/
def assemble (s : String) : Option UInt16 :=
  (Mnemonic.ofText? s).bind fun m => m.nibbles?.map Nibbles.word

theorem assemble_mnemonic (i : Instruction) : assemble i.mnemonic = some i.nibbles.word := by
  rw [assemble, Instruction.mnemonic, Mnemonic.ofText?_text i.isToken_name_assembly,
    Option.bind_some, Instruction.nibbles?_assembly, Option.map_some]

/-- Each word, undefined ones included, is assembled from the text that it is shown as and is
put together again from its nibbles.  So different words decode to different instructions,
and these have different texts. -/
theorem assemble_decode :
    (∀ w, assemble (Instruction.decode w).mnemonic = some w) ∧
    (∀ w v, w ≠ v → Instruction.decode w ≠ Instruction.decode v ∧
      (Instruction.decode w).mnemonic ≠ (Instruction.decode v).mnemonic) ∧
    ∀ w, (Nibbles.ofWord w).word = w := by
  have hback (w : UInt16) : assemble (Instruction.decode w).mnemonic = some w := by
    rw [assemble_mnemonic, Instruction.nibbles_decode, Nibbles.word_ofWord]
  refine ⟨hback, fun w v hne => ?_, Nibbles.word_ofWord⟩
  have htext : (Instruction.decode w).mnemonic ≠ (Instruction.decode v).mnemonic := by
    intro h
    have hword := hback w
    rw [h, hback v] at hword
    exact hne (Option.some.inj hword).symm
  exact ⟨fun h => htext (congrArg Instruction.mnemonic h), htext⟩

/-- Two jumps to one address, of which only one adds a register. -/
theorem assemble_decode_jumps :
    (0x1123 : UInt16) ≠ 0xB123 ∧
      (Instruction.decode 0x1123).mnemonic ≠ (Instruction.decode 0xB123).mnemonic ∧
      assemble (Instruction.decode 0xB123).mnemonic = some 0xB123 := by
  have hne : (0x1123 : UInt16) ≠ 0xB123 := by decide
  exact ⟨hne, (assemble_decode.2.1 _ _ hne).2, assemble_decode.1 0xB123⟩

end ChipEight
