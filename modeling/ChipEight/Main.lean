import ChipEight.CommandLine.Program

/-!
The command line itself: read the file, conclude, print.  Nothing is logged.
-/

namespace ChipEight

/-- The file error of a number that the system reports, which some of its calls
give with a minus sign. -/
def fileErrorOfCode? (code : UInt32) : Option FileError :=
  if code = 20 ∨ code = 0 - 20 then some .notFolder
  else if code = 21 ∨ code = 0 - 21 then some .isFolder
  else none

def fileError (e : IO.Error) : FileError :=
  match e with
  | .noFileOrDirectory .. | .noSuchThing .. => .notFound
  | .inappropriateType _ code _ | .illegalOperation code _ =>
    (fileErrorOfCode? code).getD (.other (toString e))
  | _ => .other (toString e)

def readImage (path : String) : IO (Except FileError (List UInt8)) := do
  try
    let bytes ← IO.FS.readBinFile path
    return .ok bytes.toList
  catch e =>
    return .error (fileError e)

def spareSeed : IO UInt64 := do
  let bytes ← IO.getRandomBytes 8
  return bytes.toList.foldl (fun seed b => seed * 256 + b.toUInt64) 0

def concludeHere (arguments : List String) : IO Conclusion := do
  match Arguments.parse arguments with
  | .error reason => return ⟨.interrupted reason, #[]⟩
  | .ok a => return a.run (← readImage a.path) (RandomSource.ofSeed (← spareSeed))

end ChipEight

def main (arguments : List String) : IO UInt32 := do
  let conclusion ← ChipEight.concludeHere arguments
  IO.print conclusion.stdout
  IO.eprint conclusion.stderr
  return UInt32.ofNat conclusion.exitCode
