import ChipEight.CommandLine.Arguments
import ChipEight.CommandLine.Console
import ChipEight.CommandLine.FileTree
import ChipEight.Machine.Dump
import ChipEight.Runner
import ChipEight.Screen.Picture

/-!
The program behind the command line: load an image, run it without a window,
and print the screen.  All of it is a function of the arguments, the file and the
random source of a new machine; what the error stream shows of it depends on the
console as well.
-/

namespace ChipEight

inductive Verdict
  /-- The run is over; this is its output. -/
  | finished (output : String)
  /-- Something failed, and why. -/
  | failed (activity cause : String)
  /-- There were no arguments to act on. -/
  | interrupted (reason : Interruption)
  deriving DecidableEq, Repr

/-- How a program has ended, and what was logged until then. -/
structure Conclusion where
  verdict : Verdict
  log : Array Event
  deriving DecidableEq, Repr

def versionLine : String :=
  "chip8-headless 0.1.0\n"

def Parameter.helpLine (p : Parameter) : String :=
  let letter :=
    match p.short? with
    | some c => "-" ++ String.singleton c ++ ", "
    | none => "    "
  "  " ++ letter ++ p.text ++ "\n          " ++ p.purpose ++ "\n"

def helpText : String :=
  "Run a CHIP-8 program headless and print the final screen\n\n" ++
    "Usage: chip8-headless [OPTIONS] --load <PATH>\n\nOptions:\n" ++
    String.join (Parameter.all.map Parameter.helpLine)

namespace Verdict

def exitCode : Verdict → Nat
  | .failed .. => 1
  | .interrupted (.refused _) => 2
  | _ => 0

def stdout : Verdict → String
  | .finished output => output
  | .interrupted .help => helpText
  | .interrupted .version => versionLine
  | _ => ""

/-- The error stream, but for what is logged. -/
def stderr (c : Console) : Verdict → String
  | .failed activity cause => "error: " ++ c.explained activity cause ++ "\n"
  -- only this text is made plain; a cause is printed as it is
  | .interrupted (.refused e) => Terminal.plain e.report
  | _ => ""

end Verdict

namespace Conclusion

def exitCode (e : Conclusion) : Nat :=
  e.verdict.exitCode

def stdout (e : Conclusion) : String :=
  e.verdict.stdout

/-- The error stream.  All that is logged is logged before the program has ended. -/
def stderrOn (c : Console) (e : Conclusion) : String :=
  c.written e.log ++ e.verdict.stderr c

/-- The error stream of a program without logging. -/
def stderr (e : Conclusion) : String :=
  e.stderrOn Console.quiet

end Conclusion

namespace Arguments

/-- The random source of the run: that of the seed, if one is asked for. -/
def source (a : Arguments) (random : RandomSource) : RandomSource :=
  (a.seed.map RandomSource.ofSeed).getD random

def machine (a : Arguments) (random : RandomSource) : Machine :=
  Machine.powerOn a.settings (a.source random)

def output (a : Arguments) (m : Machine) : String :=
  let sound :=
    if m.isSounding then
      "(sound timer active: " ++ toString m.sound.toNat ++ ")\n"
    else ""
  m.frame.text ++ sound ++ if a.dump then m.dump ++ "\n" else ""

def loadingEvents (a : Arguments) (image : List UInt8) (length : Nat) : Array Event :=
  #[.loaded length Memory.programBase, .programLoaded a.path image.length]

def conclusion (a : Arguments) (log : Array Event) (report : Report Unit) : Conclusion :=
  match report.answer with
  | .error f => ⟨.failed "run program" f.message, log ++ report.log⟩
  | .ok ticks =>
    ⟨.finished (a.output report.runner.machine),
      (log ++ report.log).push (.programEnded ticks report.frames.size)⟩

def runImage (a : Arguments) (m : Machine) (image : List UInt8) : Conclusion :=
  let loaded := m.load image Memory.programBase
  match loaded.answer with
  | .error f => ⟨.failed "load rom into memory" f.message, #[]⟩
  | .ok length =>
    let runner := Runner.ofMachine (loaded.machine.press a.key) (a.interval * 1000000)
    a.conclusion (a.loadingEvents image length) (runner.runFor a.ticks (fun _ _ => ((), false)) ())

/-- Act on the arguments, given what reading the file gave and the random source of a
new machine. -/
def run (a : Arguments) (file : Except FileError (List UInt8)) (random : RandomSource) :
    Conclusion :=
  match file with
  | .error e => ⟨.failed ("read rom file " ++ a.path) e.message, #[]⟩
  | .ok image => a.runImage (a.machine random) image

end Arguments

/-- Act on a command line, given how to read files and the random source of a new
machine. -/
def act (arguments : List String) (read : String → Except FileError (List UInt8))
    (random : RandomSource) : Conclusion :=
  match Arguments.parse arguments with
  | .error reason => ⟨.interrupted reason, #[]⟩
  | .ok a => a.run (read a.path) random

/-- Act on a command line, with a seed for runs that ask for none. -/
def conclude (arguments : List String) (read : String → Except FileError (List UInt8))
    (spareSeed : UInt64) : Conclusion :=
  act arguments read (RandomSource.ofSeed spareSeed)

end ChipEight
