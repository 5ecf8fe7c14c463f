/-!
The parameters that the command line knows, and how they are spelled.
-/

namespace ChipEight

inductive Parameter
  | load
  | ticks
  | interval
  | seed
  | key
  | shiftFromY
  | jumpFromX
  | advanceIndex
  | plainXor
  | dump
  | help
  | version
  deriving DecidableEq, Repr

namespace Parameter

def all : List Parameter :=
  [.load, .ticks, .interval, .seed, .key, .shiftFromY, .jumpFromX, .advanceIndex,
   .plainXor, .dump, .help, .version]

def long : Parameter → String
  | .load => "load"
  | .ticks => "ticks"
  | .interval => "interval-ms"
  | .seed => "seed"
  | .key => "key"
  | .shiftFromY => "legacy-shift"
  | .jumpFromX => "jump-add-offset"
  | .advanceIndex => "memory-increment-i"
  | .plainXor => "plain-xor"
  | .dump => "dump"
  | .help => "help"
  | .version => "version"

def short? : Parameter → Option Char
  | .load => some 'l'
  | .ticks => some 't'
  | .interval => some 'i'
  | .key => some 'k'
  | .help => some 'h'
  | .version => some 'V'
  | _ => none

def valueName? : Parameter → Option String
  | .load => some "PATH"
  | .ticks => some "TICKS"
  | .interval => some "MS"
  | .seed => some "SEED"
  | .key => some "HEX"
  | _ => none

def takesValue (p : Parameter) : Bool :=
  p.valueName?.isSome

def text (p : Parameter) : String :=
  match p.valueName? with
  | some value => "--" ++ p.long ++ " <" ++ value ++ ">"
  | none => "--" ++ p.long

def purpose : Parameter → String
  | .load => "Load ROM into memory"
  | .ticks => "Stop after this many ticks [default: 1000]"
  | .interval => "Milliseconds between ticks [default: 2]"
  | .seed => "Seed the random number generator"
  | .key => "Hold down a key for the whole run"
  | .shiftFromY => "Toggle shift operation modes"
  | .jumpFromX => "Toggle jump operation modes"
  | .advanceIndex => "Toggle memory read/write operation modes"
  | .plainXor => "Leave VF alone on XOR"
  | .dump => "Print registers and a memory dump when done"
  | .help => "Print help"
  | .version => "Print version"

def ofLong? (name : String) : Option Parameter :=
  all.find? fun p => p.long == name

def ofShort? (letter : Char) : Option Parameter :=
  all.find? fun p => p.short? == some letter

end Parameter

end ChipEight
