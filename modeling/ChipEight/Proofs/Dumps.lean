import ChipEight.Machine.Dump
import ChipEight.Proofs.Text.Numerals
import ChipEight.Screen.Picture
import Mathlib.Data.List.Basic

/-!
The texts of machines and screens, and what can be told from them.  A text is made of pieces
with a mark behind each, lines out of fields and the whole out of lines, and no piece holds
the mark; so the pieces are found again, and from them the numbers.  Machines have the same
text exactly if they agree in all that it shows, and screens only if they are the same.
-/

namespace ChipEight

/-! ### Pieces with a mark behind each -/

section Pieces

variable {mark : String} {c : Char} {ps qs : List String}

theorem splitOn_join (hmark : mark.toList = [c]) (h : ∀ p ∈ ps, c ∉ p.toList) :
    (String.join (ps.map (· ++ mark))).toList.splitOn c = ps.map String.toList ++ [[]] := by
  induction ps with
  | nil => rfl
  | cons p ps ih =>
    have hrest := ih fun q hq => h q (List.mem_cons_of_mem p hq)
    rw [List.map_cons, String.join_cons, String.toList_append, String.toList_append, hmark,
      List.append_assoc, List.singleton_append,
      List.splitOn_append_cons_self_of_not_mem (h p (List.mem_cons_self ..)), hrest]
    rfl

theorem join_inj (hmark : mark.toList = [c]) (hp : ∀ p ∈ ps, c ∉ p.toList)
    (hq : ∀ q ∈ qs, c ∉ q.toList)
    (h : String.join (ps.map (· ++ mark)) = String.join (qs.map (· ++ mark))) : ps = qs := by
  have hsplit := splitOn_join hmark hp
  rw [h, splitOn_join hmark hq] at hsplit
  have hlists : qs.map String.toList = ps.map String.toList := List.append_cancel_right hsplit
  exact (List.map_injective_iff.2 (fun _ _ => String.toList_inj.1) hlists).symm

end Pieces

/-! ### Numerals in a text -/

namespace Hex

/-- Exactly `w` digits, those of the higher weights first. -/
def places (w n : Nat) : String :=
  String.ofList ((List.range w).reverse.map fun k => upperDigit (n / 16 ^ k % 16))

theorem length_places (w n : Nat) : (places w n).length = w := by
  rw [places, String.length_ofList, List.length_map, List.length_reverse, List.length_range]

theorem lowDigits_eq_map (w n : Nat) :
    lowDigits w n = (List.range w).reverse.map fun k => n / 16 ^ k % 16 := by
  induction w generalizing n with
  | zero => rfl
  | succ w ih =>
    rw [lowDigits, ih, List.range_succ_eq_map, List.reverse_cons, List.map_append,
      ← List.map_reverse, List.map_map]
    simp [Nat.pow_succ', Nat.div_div_eq_div_mul]

theorem upper_eq_places {w n : Nat} (h : n < 16 ^ w) (hw : 0 < w) : upper w n = places w n := by
  rw [upper, places, digits_eq_lowDigits h hw, lowDigits_eq_map, List.map_map]
  rfl

theorem not_mem_upper {c : Char} (hc : c ∉ "0123456789ABCDEF".toList) (w n : Nat) :
    c ∉ (upper w n).toList :=
  fun h => hc (mem_upper h)

theorem not_mem_places {c : Char} (hc : c ∉ "0123456789ABCDEF".toList) (w n : Nat) :
    c ∉ (places w n).toList := by
  rw [places, String.toList_ofList]
  intro h
  obtain ⟨k, -, rfl⟩ := List.mem_map.1 h
  exact hc (upperDigit_mem (Nat.mod_lt _ (by decide)))

end Hex

theorem not_mem_toDigits {c : Char} (hc : c.isDigit = false) (n : Nat) :
    c ∉ Nat.toDigits 10 n := by
  intro h
  rw [Nat.isDigit_of_mem_toDigits (by decide) (by decide) h] at hc
  cases hc

theorem toString_inj {n k : Nat} (h : toString n = toString k) : n = k := by
  rw [Nat.toString_eq_ofList_toDigits, Nat.toString_eq_ofList_toDigits, String.ofList_inj] at h
  have hvalue := congrArg (Nat.ofDigitChars 10 · 0) h
  simpa only [Nat.ofDigitChars_ten_toDigits] using hvalue

/-! ### Memories -/

namespace Memory

/-- The line of sixteen bytes, with each number at its full width. -/
def row (m : Memory) (j : Nat) : String :=
  Hex.places 4 (16 * j) ++ ": " ++
    String.join ((List.range 16).map fun k => Hex.places 2 (m.get (16 * j + k)).toNat ++ " ")

theorem length_row (m : Memory) (j : Nat) : (m.row j).length = 54 := by
  have hpiece (n : Nat) : (Hex.places 2 n ++ " ").length = 3 := by
    rw [String.length_append, Hex.length_places]
    rfl
  rw [row, String.length_append, String.length_append, Hex.length_places, String.length_join,
    List.map_map]
  simp only [Function.comp_def, hpiece]
  rfl

theorem line_eq_row (m : Memory) {j : Nat} (hj : j < 256) : m.line j = m.row j := by
  have haddress : Hex.upper 4 (16 * j) = Hex.places 4 (16 * j) :=
    Hex.upper_eq_places (by omega) (by decide)
  have hbyte (b : UInt8) : Hex.upper 2 b.toNat = Hex.places 2 b.toNat :=
    Hex.upper_eq_places b.toNat_lt (by decide)
  rw [line, lineBytes, window, bytesPerLine, List.range'_eq_map_range, List.map_map,
    List.map_map, haddress]
  simp only [Function.comp_def, hbyte, row]

theorem not_mem_row (m : Memory) (j : Nat) : '\n' ∉ (m.row j).toList := by
  have hdigit := Hex.not_mem_places (c := '\n') (by decide)
  simp [row, hdigit]

theorem lines_eq_rows (m : Memory) : m.lines = (List.range 256).map m.row :=
  List.map_congr_left fun _ hj => m.line_eq_row (List.mem_range.1 hj)

theorem lineBytes_inj {m n : Memory} {j : Nat} (h : m.line j = n.line j) :
    m.lineBytes j = n.lineBytes j := by
  have hbytes := (String.append_right_inj _).1 h
  have hblank (bytes : List UInt8) :
      ∀ p ∈ bytes.map fun b => Hex.upper 2 b.toNat, ' ' ∉ p.toList := by
    intro p hp
    obtain ⟨b, -, rfl⟩ := List.mem_map.1 hp
    exact Hex.not_mem_upper (by decide) 2 _
  have hpieces (bytes : List UInt8) : (bytes.map fun b => Hex.upper 2 b.toNat ++ " ") =
      (bytes.map fun b => Hex.upper 2 b.toNat).map (· ++ " ") := by
    rw [List.map_map]
    rfl
  rw [hpieces, hpieces] at hbytes
  have hnumerals := join_inj rfl (hblank _) (hblank _) hbytes
  exact List.map_injective_iff.2 (fun _ _ hb => UInt8.toNat_inj.1 (Hex.upper_inj hb)) hnumerals

theorem get_of_lines {m n : Memory} (h : m.lines = n.lines) {a : Nat} (ha : a < size) :
    m.get a = n.get a := by
  rw [size] at ha
  have hline : m.line (a / 16) = n.line (a / 16) :=
    List.map_inj_left.1 h (a / 16) (List.mem_range.2 (show a / 16 < 256 by omega))
  have hbytes : (List.range' (16 * (a / 16)) 16).map m.get =
      (List.range' (16 * (a / 16)) 16).map n.get := lineBytes_inj hline
  exact List.map_inj_left.1 hbytes a (List.mem_range'_1.2 (by omega))

end Memory

/-! ### Machines -/

namespace Machine

/-- The machines agree in what their texts show. -/
structure SamePrinted (m n : Machine) : Prop where
  registers : ∀ r, m.registers.get r = n.registers.get r
  pc : m.pc = n.pc
  index : m.index = n.index
  delay : m.delay = n.delay
  sound : m.sound = n.sound
  depth : m.stack.depth = n.stack.depth
  memory : ∀ a < Memory.size, m.memory.get a = n.memory.get a

def registerField (m : Machine) (r : RegisterName) : String :=
  "V" ++ Hex.upper 1 r ++ "=" ++ Hex.upper 2 (m.registers.get r).toNat

def stateFields (m : Machine) : List String :=
  ["PC=" ++ Hex.upper 4 m.pc, "I=" ++ Hex.upper 4 m.index, "DT=" ++ Hex.upper 2 m.delay.toNat,
    "ST=" ++ Hex.upper 2 m.sound.toNat, "SP=" ++ toString m.stack.depth]

theorem registerLine_eq (m : Machine) :
    m.registerLine = String.join (((List.finRange 16).map m.registerField).map (· ++ " ")) := by
  rw [List.map_map]
  rfl

theorem stateLine_eq (m : Machine) :
    m.stateLine ++ " " = String.join (m.stateFields.map (· ++ " ")) := by
  apply String.toList_inj.1
  simp [stateLine, stateFields]

theorem not_mem_registerField (m : Machine) :
    ∀ p ∈ (List.finRange 16).map m.registerField, ' ' ∉ p.toList := by
  intro p hp
  obtain ⟨r, -, rfl⟩ := List.mem_map.1 hp
  have hdigit := Hex.not_mem_upper (c := ' ') (by decide)
  simp [registerField, hdigit]

theorem not_mem_stateFields (m : Machine) : ∀ p ∈ m.stateFields, ' ' ∉ p.toList := by
  have hdigit := Hex.not_mem_upper (c := ' ') (by decide)
  have hdecimal := not_mem_toDigits (c := ' ') (by decide)
  simp [stateFields, hdigit, hdecimal]

theorem length_header (m : Machine) : m.header.length = 4 := rfl

theorem not_mem_header (m : Machine) : ∀ line ∈ m.header, '\n' ∉ line.toList := by
  have hdigit := Hex.not_mem_upper (c := '\n') (by decide)
  have hdecimal := not_mem_toDigits (c := '\n') (by decide)
  simp [header, registerLine, stateLine, hdigit, hdecimal]

variable {m n : Machine}

theorem get_of_registerLine (h : m.registerLine = n.registerLine) (r : RegisterName) :
    m.registers.get r = n.registers.get r := by
  rw [registerLine_eq, registerLine_eq] at h
  have hfields := join_inj rfl m.not_mem_registerField n.not_mem_registerField h
  have hfield := List.map_inj_left.1 hfields r (List.mem_finRange r)
  exact UInt8.toNat_inj.1 (Hex.upper_inj ((String.append_right_inj _).1 hfield))

theorem state_of_stateLine (h : m.stateLine = n.stateLine) :
    m.pc = n.pc ∧ m.index = n.index ∧ m.delay = n.delay ∧ m.sound = n.sound ∧
      m.stack.depth = n.stack.depth := by
  have hended := congrArg (· ++ " ") h
  simp only [stateLine_eq] at hended
  have hfields := join_inj rfl m.not_mem_stateFields n.not_mem_stateFields hended
  simp only [stateFields, List.cons.injEq, String.append_right_inj, and_true] at hfields
  obtain ⟨hpc, hindex, hdelay, hsound, hdepth⟩ := hfields
  exact ⟨Hex.upper_inj hpc, Hex.upper_inj hindex, UInt8.toNat_inj.1 (Hex.upper_inj hdelay),
    UInt8.toNat_inj.1 (Hex.upper_inj hsound), toString_inj hdepth⟩

theorem dump_eq_join (m : Machine) :
    m.dump = String.join ((m.header ++ m.memory.lines).map (· ++ "\n")) := by
  rw [dump, Memory.dump, List.map_append, String.join_append]

theorem not_mem_lines (m : Machine) :
    ∀ line ∈ m.header ++ m.memory.lines, '\n' ∉ line.toList := by
  intro line hline
  rcases List.mem_append.1 hline with hline | hline
  · exact m.not_mem_header line hline
  · rw [Memory.lines_eq_rows] at hline
    obtain ⟨j, -, rfl⟩ := List.mem_map.1 hline
    exact m.memory.not_mem_row j

theorem samePrinted_of_dump (h : m.dump = n.dump) : m.SamePrinted n := by
  rw [dump_eq_join, dump_eq_join] at h
  have hlines := join_inj rfl m.not_mem_lines n.not_mem_lines h
  have hlength := m.length_header.trans n.length_header.symm
  obtain ⟨hheader, hmemory⟩ := List.append_inj hlines hlength
  simp only [header, List.cons.injEq, true_and, and_true] at hheader
  obtain ⟨hregisters, hstate⟩ := hheader
  obtain ⟨hpc, hindex, hdelay, hsound, hdepth⟩ := state_of_stateLine hstate
  exact ⟨get_of_registerLine hregisters, hpc, hindex, hdelay, hsound, hdepth,
    fun a ha => Memory.get_of_lines hmemory ha⟩

theorem dump_of_samePrinted (h : m.SamePrinted n) : m.dump = n.dump := by
  have hmemory : m.memory = n.memory := Memory.ext h.memory
  have hregisters : m.registers = n.registers := Registers.ext h.registers
  simp only [dump, header, registerLine, stateLine, hmemory, hregisters, h.pc, h.index, h.delay,
    h.sound, h.depth]

end Machine

/-! ### Screens -/

namespace Grid

theorem text_eq_join (g : Grid) :
    g.text = String.join ((g.toList.map rowText).map (· ++ "\n")) := by
  rw [text, List.map_map]
  rfl

theorem not_mem_rowText (row : BitVec 64) : '\n' ∉ (rowText row).toList := by
  rw [rowText, String.toList_ofList]
  intro h
  obtain ⟨x, -, hx⟩ := List.mem_map.1 h
  cases hpixel : row.getMsbD x with
  | true =>
    rw [hpixel] at hx
    cases hx
  | false =>
    rw [hpixel] at hx
    cases hx

theorem not_mem_lines (g : Grid) : ∀ line ∈ g.toList.map rowText, '\n' ∉ line.toList := by
  intro line hline
  obtain ⟨row, -, rfl⟩ := List.mem_map.1 hline
  exact not_mem_rowText row

/-- The lines show the screen: each pixel that is on is a hash, each that is off a dot. -/
structure Pictured (g : Grid) (lines : List String) : Prop where
  rows : lines.length = 32
  columns : ∀ line ∈ lines, line.length = 64
  pixels : ∀ x < 64, ∀ y < 32, ∃ line, lines[y]? = some line ∧
    line.toList[x]? = some (if g.pixel x y then '#' else '.')

theorem getElem?_rowText (row : BitVec 64) {x : Nat} (hx : x < 64) :
    (rowText row).toList[x]? = some (if row.getMsbD x then '#' else '.') := by
  rw [rowText, String.toList_ofList, List.getElem?_map, List.getElem?_range hx]
  rfl

theorem pictured_rowText (g : Grid) : g.Pictured (g.toList.map rowText) where
  rows := by simp
  columns line hline := by
    obtain ⟨row, -, rfl⟩ := List.mem_map.1 hline
    simp [rowText]
  pixels x hx y hy := by
    have hrow : (g.toList.map rowText)[y]? = some (rowText g[y]) := by simp [hy]
    refine ⟨_, hrow, ?_⟩
    simp only [getElem?_rowText _ hx, pixel, rowAt, Fin.getElem_fin, Nat.mod_eq_of_lt hx,
      Nat.mod_eq_of_lt hy]

theorem lines_of_text (g : Grid) :
    ∃ lines : List String, g.text = String.join (lines.map (· ++ "\n")) ∧ lines.length = 32 ∧
      ∀ line ∈ lines, line.length = 64 ∧ '\n' ∉ line.toList := by
  have hpicture := g.pictured_rowText
  exact ⟨_, text_eq_join g, hpicture.rows,
    fun line hline => ⟨hpicture.columns line hline, g.not_mem_lines line hline⟩⟩

theorem rowText_inj {row other : BitVec 64} (h : rowText row = rowText other) : row = other := by
  have hchars := List.map_inj_left.1 (String.ofList_inj.1 h)
  apply BitVec.eq_of_getMsbD_eq
  intro x hx
  have hpixel : pixelChar (row.getMsbD x) = pixelChar (other.getMsbD x) :=
    hchars x (List.mem_range.2 hx)
  have hchar : ∀ a b, pixelChar a = pixelChar b → a = b := by decide
  exact hchar _ _ hpixel

theorem eq_of_text {g h : Grid} (heq : g.text = h.text) : g = h := by
  rw [text_eq_join, text_eq_join] at heq
  have hrows := join_inj rfl g.not_mem_lines h.not_mem_lines heq
  exact Vector.toList_inj.1 (List.map_injective_iff.2 (fun _ _ => rowText_inj) hrows)

end Grid

/-- The text of a machine is four lines and then a line of one width for each sixteen bytes,
with their address and themselves, and that of a screen is 32 lines of 64 characters.
Machines with the same text agree in all that it shows, and screens with the same text are
the same. -/
theorem dumps_lossless :
    (∀ m : Machine, ∃ header : List String,
      header.length = 4 ∧ (∀ line ∈ header, '\n' ∉ line.toList) ∧
      m.dump = String.join ((header ++ (List.range 256).map m.memory.row).map (· ++ "\n"))) ∧
    (∀ (m : Memory) (j : Nat), (m.row j).length = 54 ∧ '\n' ∉ (m.row j).toList) ∧
    (∀ m n : Machine, m.dump = n.dump ↔ m.SamePrinted n) ∧
    (∀ g : Grid, ∃ lines : List String,
      lines.length = 32 ∧ (∀ line ∈ lines, line.length = 64 ∧ '\n' ∉ line.toList) ∧
      g.text = String.join (lines.map (· ++ "\n"))) ∧
    ∀ g h : Grid, g.text = h.text → g = h := by
  refine ⟨fun m => ?_, fun m j => ⟨m.length_row j, m.not_mem_row j⟩,
    fun m n => ⟨Machine.samePrinted_of_dump, Machine.dump_of_samePrinted⟩, fun g => ?_,
    fun _ _ => Grid.eq_of_text⟩
  · refine ⟨m.header, m.length_header, m.not_mem_header, ?_⟩
    rw [Machine.dump_eq_join, Memory.lines_eq_rows]
  · obtain ⟨lines, htext, hlength, hline⟩ := g.lines_of_text
    exact ⟨lines, hlength, hline, htext⟩

namespace Machine

def resting : Machine :=
  { powerOn Settings.usual (RandomSource.ofWords []) with
    memory := Glyph.bareMemory.overwrite Memory.programBase [0x6A, 0x05, 0xFA, 0x0A]
    index := 0x300
    delay := 0x3C }

/-- The same machine while a key is held, the screen is lit and the timers stand still. -/
def held : Machine :=
  { resting with
    keypad := ⟨some 0x5, some 0x5⟩
    screen := ⟨Grid.blank.set 0 1, true⟩
    paused := true }

theorem dumps_lossless_held :
    (resting.SamePrinted held ∧ resting.dump = held.dump) ∧
      (resting.delay ≠ (resting.reset).delay ∧ resting.dump ≠ resting.reset.dump) ∧
      (resting.frame ≠ held.frame ∧ resting.frame.text ≠ held.frame.text) ∧
      resting.memory.row 0x20 = "0200: 6A 05 FA 0A 00 00 00 00 00 00 00 00 00 00 00 00 " := by
  obtain ⟨-, -, hmachine, -, hscreen⟩ := dumps_lossless
  have hsame : resting.SamePrinted held := ⟨fun _ => rfl, rfl, rfl, rfl, rfl, rfl, fun _ _ => rfl⟩
  have hdelay : resting.delay ≠ resting.reset.delay := by decide
  have hframe : resting.frame ≠ held.frame := by
    intro h
    have hpixel : resting.frame.pixel 63 0 = held.frame.pixel 63 0 := by rw [h]
    revert hpixel
    decide +kernel
  refine ⟨⟨hsame, (hmachine _ _).2 hsame⟩, ⟨hdelay, fun h => hdelay ((hmachine _ _).1 h).delay⟩,
    ⟨hframe, fun h => hframe (hscreen _ _ h)⟩, by decide +kernel⟩

end Machine

end ChipEight
