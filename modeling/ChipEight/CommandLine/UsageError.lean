import ChipEight.CommandLine.Parameter
import ChipEight.Text.Numeral
import ChipEight.Text.Terminal

/-!
What can be wrong with the arguments of a command line, and how a terminal is
told.
-/

namespace ChipEight

inductive ValueError
  | numeral (cause : Numeral.Error)
  | noKey (value : String)
  deriving DecidableEq, Repr

def ValueError.message : ValueError → String
  | .numeral cause => cause.message
  | .noKey value => "'" ++ value ++ "' is not a hex digit between 0 and F"

inductive UsageError
  /-- An argument that is no parameter of the program. -/
  | unexpected (argument : String)
  /-- A flag with a value. -/
  | unneededValue (value : String) (flag : Parameter)
  /-- An option without its value. -/
  | missingValue (option : Parameter)
  /-- A parameter that is given again. -/
  | repeated (parameter : Parameter)
  /-- A value that the option does not take. -/
  | badValue (option : Parameter) (value : String) (cause : ValueError)
  /-- An option that has to be given and is not. -/
  | missingOption (option : Parameter)
  deriving DecidableEq, Repr

def UsageError.quoted (s : String) : String :=
  "'" ++ Terminal.emphasised s ++ "'"

/-- The wording for a terminal.  Of a wrong value only the first mention is set
off. -/
def UsageError.message : UsageError → String
  | .unexpected argument => "unexpected argument " ++ quoted argument ++ " found"
  | .unneededValue value flag =>
    "unexpected value " ++ quoted value ++ " for " ++ quoted flag.text ++
      " found; no more were expected"
  | .missingValue option =>
    "a value is required for " ++ quoted option.text ++ " but none was supplied"
  | .repeated parameter =>
    "the argument " ++ quoted parameter.text ++ " cannot be used multiple times"
  | .badValue option value cause =>
    "invalid value " ++ quoted value ++ " for " ++ quoted option.text ++ ": " ++
      cause.message
  | .missingOption option =>
    "the following required arguments were not provided:\n  " ++
      Terminal.emphasised option.text

def UsageError.report (e : UsageError) : String :=
  Terminal.emphasised "error:" ++ " " ++ e.message ++
    "\n\nFor more information, try " ++ quoted "--help" ++ ".\n"

end ChipEight
