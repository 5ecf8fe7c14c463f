import ChipEight.Keypad
import ChipEight.Text.Numeral

/-!
Keys as the command line names them: a hexadecimal numeral below sixteen, behind
any number of marks `0x`.
-/

namespace ChipEight

/-- Drop the mark `0x` as often as it stands at the front. -/
def dropMarks : List Char → List Char
  | '0' :: 'x' :: rest => dropMarks rest
  | cs => cs

def Key.ofText? (s : String) : Option Key :=
  match Numeral.read 16 255 (dropMarks s.toList) with
  | .ok n => if h : n < 16 then some ⟨n, h⟩ else none
  | .error _ => none

end ChipEight
