import ChipEight.Instruction.Decode
import ChipEight.Instruction.Mnemonic
import ChipEight.Fault

/-!
What happens while a machine is used, as a log tells it.
-/

namespace ChipEight

inductive Event
  | reset
  | loaded (length offset : Nat)
  | timersPaused
  | timersResumed
  /-- A word was read and is about to be run. -/
  | executing (pc : Nat) (word : UInt16)
  | stopRequested
  /-- An instruction failed and is skipped over. -/
  | skipped (fault : Fault)
  /-- An instruction failed and ends the run. -/
  | failed (fault : Fault)
  | runEnded (ticks : Nat)
  /-- A program was read from its file and loaded. -/
  | programLoaded (path : String) (length : Nat)
  /-- A program has run for all its ticks. -/
  | programEnded (ticks frames : Nat)
  deriving DecidableEq, Repr

namespace Event

inductive Level
  | trace
  | debug
  | info
  | warn
  | error
  deriving DecidableEq, Repr

def Level.text : Level → String
  | .trace => "TRACE"
  | .debug => "DEBUG"
  | .info => "INFO"
  | .warn => "WARN"
  | .error => "ERROR"

def level : Event → Level
  | .executing .. => .trace
  | .skipped _ => .warn
  | .failed _ => .error
  | .programLoaded .. | .programEnded .. => .info
  | _ => .debug

/-- The part of the program that an event belongs to: the machine, what runs it, or the
command line. -/
def target : Event → String
  | .stopRequested | .skipped _ | .failed _ | .runEnded _ => "chip8::driver"
  | .programLoaded .. | .programEnded .. => "chip8_headless"
  | _ => "chip8"

def message : Event → String
  | .reset => "reset"
  | .loaded length offset =>
    "loaded " ++ toString length ++ " bytes at " ++ Hex.marked 3 offset
  | .timersPaused => "timers paused"
  | .timersResumed => "timers resumed"
  | .executing pc word =>
    Hex.marked 3 pc ++ " " ++ Hex.upper 4 word.toNat ++ " " ++
      (Instruction.decode word).mnemonic
  | .stopRequested => "stop requested"
  | .skipped fault => fault.message
  | .failed fault => fault.message
  | .runEnded ticks => "driver ran " ++ toString ticks ++ " ticks"
  | .programLoaded path length => "loaded " ++ path ++ " (" ++ toString length ++ " bytes)"
  | .programEnded ticks frames =>
    "ran " ++ toString ticks ++ " ticks, " ++ toString frames ++ " frames"

def line (e : Event) : String :=
  e.level.text ++ " " ++ e.target ++ ": " ++ e.message

end Event

end ChipEight
