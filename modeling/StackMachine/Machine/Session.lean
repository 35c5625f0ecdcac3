import StackMachine.Log
import StackMachine.Machine.Run

/-!
# Sessions

A **session** is a machine together with where its trace goes. The trace of a run
goes to a **sink**, and remarks about the run itself – that it began, that it met a
word that is no opcode, how it ended – go to a journal. One sink, the log, is the
journal too: it turns every event into a message.

Neither the sink nor the journal is ever read while the machine runs, so a session
takes exactly the turns that its machine would take alone; it only tells more about
them.
-/

namespace StackMachine

/-- Where the texts of the events go. -/
inductive Sink
  /-- They are kept as a list. -/
  | buffer (texts : Array String)
  /-- They are written to the standard output, a line each. -/
  | stdout (written : String)
  /-- They are logged. -/
  | log
  /-- They are thrown away. -/
  | discard
  deriving Repr

/-- A machine that reports. -/
structure Session where
  machine : Machine
  sink : Sink
  journal : Journal

namespace Session

/-- Logs a remark about the run. -/
def log (s : Session) (level : Level) (text : String) : Session :=
  { s with journal := s.journal.log level text }

/-- Logs a remark about the course of the run, for debugging. -/
def debug (s : Session) (text : Unit → String) : Session :=
  { s with journal := s.journal.debug text }

/-- Hands the text of an event to the sink. -/
def emit (s : Session) (text : String) : Session :=
  match s.sink with
  | .buffer texts => { s with sink := .buffer (texts.push text) }
  | .stdout written => { s with sink := .stdout (written ++ text ++ "\n") }
  | .log => { s with journal := s.journal.trace text }
  | .discard => s

/-- Reports an event; a word that is no opcode is also remarked on. -/
def report (s : Session) (event : Event) : Session :=
  let s := match event with
    | .invalid word offset =>
      s.debug fun _ => "vm: invalid opcode " ++ word.hex ++ s!" at ip {offset}"
    | _ => s
  s.emit event.text

/-- Remarks on the end of the run. -/
def conclude (s : Session) : Result → Session
  | .ok () => s.debug fun _ => s!"vm: halted after {s.machine.steps} instructions"
  | .error fault =>
    s.log .warn (s!"vm: faulted after {s.machine.steps} instructions: " ++ fault.message)

/-- Takes over what a turn of the machine came to. -/
def absorb (s : Session) (t : Turn) : Option Result × Session :=
  let s := { s with machine := t.machine }
  let s := match t.event with
    | some event => s.report event
    | none => s
  match t.result with
  | some result => (some result, s.conclude result)
  | none => (none, s)

/-- Begins the run, which only a ready machine can do. -/
def start (s : Session) : Option Result × Session :=
  if s.machine.status = .ready then
    let s := s.debug fun _ =>
      s!"vm: run start ({s.machine.program.size} words, " ++
        s!"stack {s.machine.config.stackCapacity}, frames {s.machine.config.frameCapacity})"
    s.absorb s.machine.enter
  else (some (.error .alreadyRun), s)

/-- Takes at most `fuel` turns, and fewer when the run ends. -/
def advance : Nat → Session → Option Result × Session
  | 0, s => (none, s)
  | fuel + 1, s =>
    match s.absorb s.machine.turn with
    | (none, s) => s.advance fuel
    | ended => ended

/-- Begins the run and takes at most `fuel` turns. There is no result when the run
is not over by then. -/
def run (s : Session) (fuel : Nat) : Option Result × Session :=
  match s.start with
  | (none, s) => s.advance fuel
  | ended => ended

/-- What was written to the standard output, and the messages logged, since this was
last asked for. -/
def flush (s : Session) : (String × Array Message) × Session :=
  let (written, sink) := match s.sink with
    | .stdout written => (written, Sink.stdout "")
    | sink => ("", sink)
  ((written, s.journal.messages), { s with sink := sink, journal := s.journal.flush })

end Session

end StackMachine
