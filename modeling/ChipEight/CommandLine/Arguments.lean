import ChipEight.CommandLine.KeyText
import ChipEight.CommandLine.UsageError
import ChipEight.Settings

/-!
Reading the arguments of a command line from left to right.  The value of an
option may stand behind `=`, directly behind the letter, or in the next
argument.  A value in an argument of its own is looked at when the next known
parameter arrives, or at the end; an argument that is unknown is reported ahead
of it.
-/

namespace ChipEight

structure Arguments where
  path : String
  ticks : Nat
  /-- The milliseconds between two ticks. -/
  interval : Nat
  seed : Option UInt64
  /-- The key to hold down. -/
  key : Option Key
  settings : Settings
  /-- Whether to print the machine behind the screen. -/
  dump : Bool
  deriving DecidableEq, Repr

inductive Interruption
  | refused (error : UsageError)
  | help
  | version
  deriving DecidableEq, Repr

structure ArgumentReader where
  arguments : Arguments
  /-- The parameters that were given. -/
  given : List Parameter
  /-- An option whose value was not looked at yet, and the value if it came. -/
  pending : Option (Parameter × Option String)

namespace ArgumentReader

def start : ArgumentReader where
  arguments := ⟨"", 1000, 2, none, none, Settings.usual, false⟩
  given := []
  pending := none

def largestNumber : Nat := 0xFFFFFFFFFFFFFFFF

def numberOf (option : Parameter) (value : String) : Except UsageError Nat :=
  match Numeral.read 10 largestNumber value.toList with
  | .ok n => .ok n
  | .error cause => .error (.badValue option value (.numeral cause))

def configure (a : Arguments) (setting : Setting) (on : Bool) : Arguments :=
  { a with settings := a.settings.set setting on }

def put (a : Arguments) (p : Parameter) (value : String) :
    Except UsageError Arguments :=
  match p with
  | .load =>
    if value.isEmpty then .error (.missingValue .load)
    else .ok { a with path := value }
  | .ticks => (numberOf p value).map fun n => { a with ticks := n }
  | .interval => (numberOf p value).map fun n => { a with interval := n }
  | .seed => (numberOf p value).map fun n => { a with seed := some (UInt64.ofNat n) }
  | .key =>
    match Key.ofText? value with
    | some k => .ok { a with key := some k }
    | none => .error (.badValue p value (.noKey value))
  | .shiftFromY => .ok (configure a .shiftFromY true)
  | .jumpFromX => .ok (configure a .jumpFromX true)
  | .advanceIndex => .ok (configure a .advanceIndex true)
  | .plainXor => .ok (configure a .xorSetsFlag false)
  | .dump => .ok { a with dump := true }
  | .help | .version => .ok a

def take (r : ArgumentReader) (p : Parameter) (value : Option String) :
    Except Interruption ArgumentReader :=
  if p = .help then .error .help
  else if p = .version then .error .version
  -- a value that is missing is reported ahead of a repetition
  else if p.takesValue && value.isNone then .error (.refused (.missingValue p))
  else if p ∈ r.given then .error (.refused (.repeated p))
  else
    match put r.arguments p (value.getD "") with
    | .error e => .error (.refused e)
    | .ok arguments => .ok { r with arguments := arguments, given := p :: r.given }

/-- Take the option whose value was not looked at yet. -/
def settle (r : ArgumentReader) : Except Interruption ArgumentReader :=
  match r.pending with
  | none => .ok r
  | some (p, value) => { r with pending := none }.take p value

def meet (r : ArgumentReader) (p : Parameter) (value : Option String) :
    Except Interruption ArgumentReader := do
  (← r.settle).take p value

/-- Meet an option whose value may be the next argument. -/
def expectValue (r : ArgumentReader) (p : Parameter) :
    Except Interruption ArgumentReader := do
  return { ← r.settle with pending := some (p, none) }

/-- Read what stands behind two dashes. -/
def readLong (r : ArgumentReader) (cs : List Char) :
    Except Interruption ArgumentReader :=
  let name := String.ofList (cs.takeWhile (· != '='))
  let value? :=
    match cs.dropWhile (· != '=') with
    | [] => none
    | _ :: value => some (String.ofList value)
  match Parameter.ofLong? name with
  -- reported ahead of a pending value, which is not looked at any more
  | none => .error (.refused (.unexpected ("--" ++ name)))
  | some p =>
    match p.takesValue, value? with
    | true, none => r.expectValue p
    | true, some value => r.meet p (some value)
    | false, none => r.meet p none
    | false, some value => .error (.refused (.unneededValue value p))

def readShort (r : ArgumentReader) : List Char → Except Interruption ArgumentReader
  | [] => .ok r
  | c :: rest =>
    match Parameter.ofShort? c with
    | none => .error (.refused (.unexpected ("-" ++ String.singleton c)))
    | some p =>
      if p.takesValue then
        match rest with
        | [] => r.expectValue p
        | '=' :: value => r.meet p (some (String.ofList value))
        | value => r.meet p (some (String.ofList value))
      else do
        (← r.meet p none).readShort rest

/-- Read an argument that names no parameter: the value of the option before
it. -/
def readValue (r : ArgumentReader) (argument : String) :
    Except Interruption ArgumentReader :=
  match r.pending with
  | some (p, none) => .ok { r with pending := some (p, some argument) }
  | _ => .error (.refused (.unexpected argument))

def readArgument (r : ArgumentReader) (argument : String) :
    Except Interruption ArgumentReader :=
  match argument.toList with
  | '-' :: '-' :: name => r.readLong name
  | '-' :: letter :: rest => r.readShort (letter :: rest)
  | _ => r.readValue argument

/-- Read all arguments.  Two bare dashes end the parameters, and nothing may
follow them. -/
def readAll (r : ArgumentReader) : List String → Except Interruption ArgumentReader
  | [] => r.settle
  | ["--"] => r.settle
  | "--" :: argument :: _ => .error (.refused (.unexpected argument))
  | argument :: rest => do (← r.readArgument argument).readAll rest

end ArgumentReader

def Arguments.parse (arguments : List String) : Except Interruption Arguments := do
  let reader ← ArgumentReader.start.readAll arguments
  if .load ∈ reader.given then return reader.arguments
  else throw (.refused (.missingOption .load))

end ChipEight
