import ChipEight.Event

/-!
What a program leaves to others on its error stream: a logger writes a line for some of the
events, in a form of its own, and an error is shown together with its cause.  A `Console` is
one way to do both.
-/

namespace ChipEight

structure Console where
  /-- What the logger writes for an event at its place in the log. -/
  line : Nat → Event → String
  /-- How an error is shown that has a cause. -/
  explained : (activity cause : String) → String

namespace Console

def written (c : Console) (log : Array Event) : String :=
  String.join (log.toList.mapIdx c.line)

/-- A console without logging.  A cause stands below a heading, set in. -/
def quiet : Console where
  line _ _ := ""
  explained activity cause := activity ++ "\n\nCaused by:\n    " ++ cause

end Console

end ChipEight
