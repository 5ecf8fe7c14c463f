/-!
Reading unsigned numerals in a given base with an upper limit.  A single
leading plus sign is allowed; each character is checked to be a digit before
its weight is added, so a stray character is reported ahead of an overflow
that the same character would cause.
-/

namespace ChipEight.Numeral

inductive Error
  | empty
  | invalidDigit
  | tooLarge
  deriving DecidableEq, Repr

def Error.message : Error → String
  | .empty => "cannot parse integer from empty string"
  | .invalidDigit => "invalid digit found in string"
  | .tooLarge => "number too large to fit in target type"

/-- The value of an ASCII digit or letter of either case, as far as the base
reaches. -/
def digit? (base : Nat) (c : Char) : Option Nat :=
  let d? :=
    if '0' ≤ c ∧ c ≤ '9' then some (c.toNat - '0'.toNat)
    else if 'a' ≤ c ∧ c ≤ 'z' then some (c.toNat - 'a'.toNat + 10)
    else if 'A' ≤ c ∧ c ≤ 'Z' then some (c.toNat - 'A'.toNat + 10)
    else none
  d?.filter (· < base)

/-- Read digits onto the number read so far, never passing the limit. -/
def readDigits (base limit : Nat) : Nat → List Char → Except Error Nat
  | acc, [] => .ok acc
  | acc, c :: rest =>
    match digit? base c with
    | none => .error .invalidDigit
    | some d =>
      if acc * base + d ≤ limit then readDigits base limit (acc * base + d) rest
      else .error .tooLarge

/-- Read a whole text: an optional plus sign and at least one digit. -/
def read (base limit : Nat) : List Char → Except Error Nat
  | [] => .error .empty
  | ['+'] => .error .invalidDigit
  | '+' :: digits => readDigits base limit 0 digits
  | digits => readDigits base limit 0 digits

end ChipEight.Numeral
