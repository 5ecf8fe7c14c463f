import ChipEight.Proofs.CommandLine.ErrorStream
import ChipEight.Proofs.CommandLine.Switches
import ChipEight.Proofs.Runner.Restarting
import ChipEight.Proofs.Runner.Splitting
import ChipEight.Proofs.Runner.Waiting

/-!
A run from the command line, against a host that works the machine itself.  The host gives
a new machine the settings and the seed, loads the image, holds the key and ticks.  If the
image is too long or one of the ticks is fatal, the command line prints nothing and its error
stream tells the first fault; else it prints the machine that the ticks have left.
-/

namespace ChipEight

namespace Arguments

open Event (Mild)

variable {image : List UInt8} {random : RandomSource} {m : Machine} {activity : String}
  {f : Fault} {error : Option Event}

theorem load_of_fits (a : Arguments) (random : RandomSource) (h : image.length ≤ 3584) :
    ((a.machine random).load image Memory.programBase).answer = .ok image.length := by
  have hfits : ¬ Memory.size < Memory.programBase + image.length := by
    rw [Memory.size, Memory.programBase]
    omega
  rw [Machine.load, Memory.load, if_neg (Nat.lt_irrefl _), if_neg hfits]

end Arguments

end ChipEight
