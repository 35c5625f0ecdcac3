import StackMachine.Machine.Step

/-!
# Runs

A run begins by pushing the top-level frame and then takes one step after the other
until the machine halts or faults. Nothing bounds its length, so a run is taken in
**turns**: `StackMachine.Run.advance` takes as many turns as it is given, stops
early when the run has ended, and can be continued from where it left off. A run
without a result is one that is still going on.
-/

namespace StackMachine

/-- How a run ended: with a halt, or with the error that stopped it. -/
abbrev Result := Except Error Unit

/-- What one turn of a machine came to. -/
structure Turn where
  /-- The machine after the turn. -/
  machine : Machine
  /-- What the turn let see. -/
  event : Option Event
  /-- How the run ended, if it did. -/
  result : Option Result

namespace Machine

/-- Leaves the initial state: the machine starts at address zero, in a top-level
frame. A frame stack without room for that frame is a fault. -/
def enter (m : Machine) : Turn :=
  let m := { m with ip := 0, origin := 0, status := .running }
  match m.frames.push {} with
  | .ok frames => ⟨{ m with frames := frames }, none, none⟩
  | .error failure => ⟨{ m with status := .faulted }, none, some (.error (failure.toFault 0))⟩

/-- Takes one step and says whether the run goes on. -/
def turn (m : Machine) : Turn :=
  match Exec.step m with
  | .ok event m => ⟨m, event, if m.status = .running then none else some (.ok ())⟩
  | .error fault m => ⟨{ m with status := .faulted }, none, some (.error fault)⟩

end Machine

/-- A run up to some moment. -/
structure Run where
  /-- The machine at that moment. -/
  machine : Machine
  /-- The events so far, in order. -/
  events : Array Event
  /-- How the run ended, if it has. -/
  result : Option Result

namespace Run

/-- The run of a machine, before its first step. A machine that is not ready refuses
to run and stays as it is. -/
def start (m : Machine) : Run :=
  if m.status = .ready then
    let t := m.enter
    ⟨t.machine, t.event.toArray, t.result⟩
  else ⟨m, #[], some (.error .alreadyRun)⟩

/-- The run after one more turn of its machine. -/
def next (r : Run) : Run :=
  let t := r.machine.turn
  ⟨t.machine, r.events ++ t.event.toArray, t.result⟩

/-- The run after at most `fuel` more turns. -/
def advance : Nat → Run → Run
  | 0, r => r
  | fuel + 1, r => if r.result.isSome then r else r.next.advance fuel

end Run

/-- The first `fuel` turns of a program on a new machine. -/
def Program.run (p : Program) (config : Config) (fuel : Nat) : Run :=
  (Run.start (Machine.load p config)).advance fuel

end StackMachine
