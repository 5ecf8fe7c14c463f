import ChipEight.Event
import ChipEight.Machine.Execute

/-!
Everything a host can do to a machine, as data.  `Machine.Reachable` holds of
the machines that such operations lead to.
-/

namespace ChipEight

inductive Operation
  | configure (setting : Setting) (on : Bool)
  | drawFrom (source : RandomSource)
  | load (image : List UInt8) (offset : Nat)
  | reset
  | step
  | tick
  | pause
  | resume
  | press (key : Option Key)
  | release
  /-- Take the frame, and count the screen as shown. -/
  | snapshot

inductive Reply
  | nothing
  | loaded (length : Nat)
  | frame (grid : Grid)
  deriving DecidableEq, Repr

namespace Machine

def perform (m : Machine) : Operation → Outcome Reply
  | .configure setting on => ⟨m.configure setting on, .ok .nothing⟩
  | .drawFrom source => ⟨m.drawFrom source, .ok .nothing⟩
  | .load image offset =>
    let outcome := m.load image offset
    ⟨outcome.machine, outcome.answer.map .loaded⟩
  | .reset => ⟨m.reset, .ok .nothing⟩
  | .step =>
    let outcome := m.step
    ⟨outcome.machine, outcome.answer.map fun _ => .nothing⟩
  | .tick =>
    let outcome := m.tick
    ⟨outcome.machine, outcome.answer.map fun _ => .nothing⟩
  | .pause => ⟨m.pause, .ok .nothing⟩
  | .resume => ⟨m.resume, .ok .nothing⟩
  | .press key => ⟨m.press key, .ok .nothing⟩
  | .release => ⟨m.release, .ok .nothing⟩
  | .snapshot => ⟨m.shown, .ok (.frame m.frame)⟩

def stepEvents (m : Machine) : List Event :=
  match m.fetch with
  | .error _ => []
  | .ok w => [.executing m.pc w]

def events (m : Machine) : Operation → List Event
  | .load image offset =>
    match (m.load image offset).answer with
    | .error _ => []
    | .ok length => [.loaded length offset]
  | .reset => [.reset]
  | .step | .tick => m.stepEvents
  | .pause => [.timersPaused]
  | .resume => [.timersResumed]
  | _ => []

/-- The machine after a list of operations, failed ones included. -/
def performAll (m : Machine) (operations : List Operation) : Machine :=
  operations.foldl (fun m operation => (m.perform operation).machine) m

/-- The machines that operations lead to from a fresh one. -/
inductive Reachable : Machine → Prop
  | fresh (random : RandomSource) : Reachable (Machine.fresh random)
  | perform {m : Machine} (operation : Operation) :
      Reachable m → Reachable (m.perform operation).machine

end Machine

end ChipEight
