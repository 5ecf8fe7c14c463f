import ChipEight.CommandLine.Arguments
import ChipEight.Proofs.Text.Numerals

/-!
The texts that name a key.  The marks at the front are dropped as long as there are any, and
no digit is a mark or a sign; so a text names a key in at most one way, however many leading
zeros it has, and all other texts are refused and quoted as they are.
-/

namespace ChipEight

/-- A way to write a number: marks, perhaps a plus sign, and digits of either case. -/
structure Key.Spelling where
  marks : Nat
  signed : Bool
  digits : List Hex.Digit
  nonempty : digits ≠ []

namespace Key.Spelling

def text (p : Spelling) : String :=
  String.join (List.replicate p.marks "0x") ++ (if p.signed then "+" else "") ++
    String.ofList (p.digits.map Hex.Digit.char)

def value (p : Spelling) : Nat :=
  Hex.value (p.digits.map fun d => d.value.val)

def numeral (p : Spelling) : List Char :=
  Numeral.signChars p.signed ++ p.digits.map Hex.Digit.char

theorem toList_text (p : Spelling) :
    p.text.toList = (List.replicate p.marks ['0', 'x']).flatten ++ p.numeral := by
  have hsign : (if p.signed then "+" else "").toList = Numeral.signChars p.signed := by
    cases p.signed <;> rfl
  rw [text, String.toList_append, String.toList_append, hsign, String.toList_ofList,
    String.toList_join, List.append_assoc, List.flatMap_replicate]
  rfl

theorem value_eq_valueFrom (p : Spelling) :
    p.value = Numeral.valueFrom 16 0 (p.digits.map fun d => d.value.val) :=
  Hex.value_eq_valueFrom _

theorem numeral_ne_mark (p : Spelling) (rest : List Char) : p.numeral ≠ '0' :: 'x' :: rest := by
  intro h
  have hx : 'x' ∈ p.digits.map Hex.Digit.char := by
    cases hsigned : p.signed with
    | true =>
      rw [numeral, hsigned] at h
      cases h
    | false =>
      rw [numeral, hsigned] at h
      have hdigits : p.digits.map Hex.Digit.char = '0' :: 'x' :: rest := h
      rw [hdigits]
      simp
  obtain ⟨d, -, hd⟩ := List.mem_map.1 hx
  have hread := Hex.digit?_char d
  rw [hd] at hread
  cases hread

end Key.Spelling

/-! ### Marks -/

/-- What is dropped is marks. -/
theorem exists_marks (cs : List Char) :
    ∃ marks, cs = (List.replicate marks ['0', 'x']).flatten ++ dropMarks cs := by
  fun_induction dropMarks cs with
  | case1 rest ih =>
    obtain ⟨marks, hrest⟩ := ih
    refine ⟨marks + 1, ?_⟩
    rw [List.replicate_succ, List.flatten_cons, List.append_assoc, ← hrest]
    rfl
  | case2 cs => exact ⟨0, rfl⟩

theorem dropMarks_marks {cs : List Char} (h : ∀ rest, cs ≠ '0' :: 'x' :: rest) (marks : Nat) :
    dropMarks ((List.replicate marks ['0', 'x']).flatten ++ cs) = cs := by
  induction marks with
  | zero =>
    change dropMarks cs = cs
    fun_cases dropMarks cs with
    | case1 rest => exact absurd rfl (h rest)
    | case2 => rfl
  | succ marks ih => exact ih

namespace Key.Spelling

/-- Numbers are read from their spellings and from no other texts. -/
theorem read_eq_ok_iff {limit n : Nat} {s : String} :
    Numeral.read 16 limit (dropMarks s.toList) = .ok n ↔
      ∃ p : Spelling, p.text = s ∧ p.value = n ∧ n ≤ limit := by
  rw [Numeral.read_eq_ok_iff (by decide)]
  constructor
  · rintro ⟨signed, cs, ds, hcs, hne, hds, hvalue, hle⟩
    obtain ⟨digits, rfl, rfl⟩ := Hex.exists_digits_of_digits hds
    obtain ⟨marks, hmarks⟩ := exists_marks s.toList
    refine ⟨⟨marks, signed, digits, fun hnil => hne (by rw [hnil]; rfl)⟩, ?_, ?_, hle⟩
    · apply String.toList_inj.1
      rw [toList_text, hmarks, hcs]
      rfl
    · rw [value_eq_valueFrom]
      exact hvalue
  · rintro ⟨p, rfl, hvalue, hle⟩
    rw [toList_text, dropMarks_marks p.numeral_ne_mark]
    refine ⟨p.signed, _, _, rfl, ?_, Hex.digits_chars p.digits, ?_, hle⟩
    · exact fun hnil => p.nonempty (List.map_eq_nil_iff.1 hnil)
    · rw [← value_eq_valueFrom]
      exact hvalue

end Key.Spelling

theorem Key.ofText?_eq_some_iff {s : String} {k : Key} :
    Key.ofText? s = some k ↔ ∃ p : Key.Spelling, p.text = s ∧ p.value = k := by
  rw [Key.ofText?]
  constructor
  · intro h
    split at h
    · rename_i n hread
      split at h
      · obtain rfl := Option.some.inj h
        obtain ⟨p, htext, hvalue, -⟩ := Key.Spelling.read_eq_ok_iff.1 hread
        exact ⟨p, htext, hvalue⟩
      · cases h
    · cases h
  · rintro ⟨p, htext, hvalue⟩
    have hread : Numeral.read 16 255 (dropMarks s.toList) = .ok k.val :=
      Key.Spelling.read_eq_ok_iff.2 ⟨p, htext, hvalue, by omega⟩
    rw [hread]
    exact dif_pos k.isLt

theorem Key.ofText?_eq_none_iff {s : String} :
    Key.ofText? s = none ↔ ∀ p : Key.Spelling, p.text = s → 16 ≤ p.value := by
  rw [Option.eq_none_iff_forall_ne_some]
  constructor
  · intro h p htext
    by_contra hsmall
    exact h ⟨p.value, by omega⟩ (Key.ofText?_eq_some_iff.2 ⟨p, htext, rfl⟩)
  · intro h k hk
    obtain ⟨p, htext, hvalue⟩ := Key.ofText?_eq_some_iff.1 hk
    have hlarge := h p htext
    omega

namespace ArgumentReader

/-- The option for the key takes the spellings of the numbers below sixteen, and each for the
key of its number.  Every other text is refused, and the message quotes it as it is. -/
theorem put_key_iff (a : Arguments) (s : String) :
    (∀ b, put a .key s = .ok b ↔
      ∃ k : Key, b = { a with key := some k } ∧ ∃ p : Key.Spelling, p.text = s ∧ p.value = k) ∧
    (∀ e, put a .key s = .error e ↔
      (∀ p : Key.Spelling, p.text = s → 16 ≤ p.value) ∧ e = .badValue .key s (.noKey s)) ∧
    (ValueError.noKey s).message = "'" ++ s ++ "' is not a hex digit between 0 and F" := by
  simp only [← Key.ofText?_eq_some_iff, ← Key.ofText?_eq_none_iff, put]
  refine ⟨fun b => ?_, fun e => ?_, rfl⟩
  · cases Key.ofText? s with
    | none =>
      constructor
      · rintro ⟨⟩
      · rintro ⟨_, _, ⟨⟩⟩
    | some key =>
      constructor
      · rintro ⟨⟩
        exact ⟨key, rfl, rfl⟩
      · rintro ⟨_, rfl, ⟨⟩⟩
        rfl
  · cases Key.ofText? s with
    | none =>
      constructor
      · rintro ⟨⟩
        exact ⟨rfl, rfl⟩
      · rintro ⟨-, rfl⟩
        rfl
    | some key =>
      constructor
      · rintro ⟨⟩
      · rintro ⟨⟨⟩, _⟩

/-- Fifteen behind two marks, with a sign and leading zeros. -/
def lavish : Key.Spelling :=
  ⟨2, true, [⟨0x0, false⟩, ⟨0x0, false⟩, ⟨0xF, true⟩], by decide⟩

theorem put_key_iff_lavish :
    (lavish.text = "0x0x+00F" ∧ lavish.value = 0xF) ∧
      put start.arguments .key "0x0x+00F" = .ok { start.arguments with key := some 0xF } ∧
      ∀ p : Key.Spelling, p.text = "0X5" → 16 ≤ p.value := by
  have htext : lavish.text = "0x0x+00F" := by decide
  have hrefused : put start.arguments .key "0X5" = .error (.badValue .key "0X5" (.noKey "0X5")) :=
    rfl
  refine ⟨⟨htext, rfl⟩, ?_, ?_⟩
  · exact ((put_key_iff start.arguments "0x0x+00F").1 _).2 ⟨0xF, rfl, lavish, htext, rfl⟩
  · exact (((put_key_iff start.arguments "0X5").2.1 _).1 hrefused).1

end ArgumentReader

end ChipEight
