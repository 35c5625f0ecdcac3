import StackMachine.Command.Assembler
import StackMachine.Command.Runner

/-!
# The executable

Both commands live in one executable, which is the assembler when it is called by
that name and the runner otherwise. This module does what a value cannot do: it
reads and writes files, prints, and looks at the clock. Programs are run in batches
of turns, with what was written so far printed in between, so that a program without
end is seen working.
-/

namespace StackMachine

namespace Command

/-- The file error behind an error of the operating system. -/
def fileError (e : IO.Error) : FileError :=
  let known (code : UInt32) (details : String) : FileError :=
    if code = 2 then .notFound
    else if code = 20 then .notDirectory
    else if code = 21 then .isDirectory
    else if code = 36 then .nameTooLong
    else .other s!"{details} (os error {code})"
  match e with
  | .noFileOrDirectory .. => .notFound
  | .inappropriateType _ code details => known code details
  | .invalidArgument _ code details => known code details
  | .permissionDenied _ code details => known code details
  | .resourceExhausted _ code details => known code details
  | .alreadyExists _ code details => known code details
  | .noSuchThing _ code details => known code details
  | .resourceBusy code details => known code details
  | .hardwareFault code details => known code details
  | .unsupportedOperation code details => known code details
  | .otherError code details => known code details
  | e => .other (toString e)

/-- The files of the operating system. -/
def systemHost : Host IO where
  contains path := do
    try
      discard (IO.FS.realPath path)
      return true
    catch _ => return false
  read path := do
    try
      return .ok (← IO.FS.readBinFile path).toList
    catch e => return .error (fileError e)
  write path bytes := do
    try
      IO.FS.writeBinFile path bytes.toByteArray
      return .ok ()
    catch e => return .error (fileError e)

/-- Where output goes, and when the first message was shown. -/
structure Console where
  style : Style
  started : IO.Ref (Option Nat)

namespace Console

/-- A console that uses colours unless the terminal cannot or the user does not want
them. -/
def new : IO Console := do
  let terminal ← IO.getEnv "TERM"
  let plain ← IO.getEnv "NO_COLOR"
  let colored := plain.isNone && terminal.isSome && terminal != some "dumb"
  return ⟨{ colored := colored }, ← IO.mkRef none⟩

/-- The time since the first message, which is now if there was none. -/
def stamp (c : Console) : IO String := do
  let now ← IO.monoNanosNow
  let start ← c.started.modifyGet fun start => (start.getD now, some (start.getD now))
  let elapsed := now - start
  return formatElapsed (elapsed / 1000000000) (elapsed % 1000000000)

/-- Shows messages. -/
def showMessages (c : Console) (messages : Array Message) : IO Unit :=
  messages.forM fun m => do IO.eprint (c.style.render (← c.stamp) m)

/-- Prints text. That nobody reads it any more is no reason to stop. -/
def print (text : String) : IO Unit := do
  try
    let out ← IO.getStdout
    out.putStr text
    out.flush
  catch _ => return ()

/-- Prints an outcome, and returns its exit code. -/
def finish (c : Console) (o : Outcome) : IO UInt32 := do
  print o.stdout
  IO.eprint (o.stderr c.style (← c.stamp))
  return o.exitCode.toUInt32

/-- How many turns a program takes between two looks at its output. -/
def batch : Nat := 65536

/-- Runs a session to its end, printing what it writes. -/
partial def drive (c : Console) (progress : Option Result × Session) : IO UInt32 := do
  match progress with
  | (some result, s) => c.finish (Runner.conclude result s)
  | (none, s) =>
    let ((written, messages), s) := s.flush
    print written
    c.showMessages messages
    c.drive (s.advance batch)

end Console

/-- Runs the command of the given name. -/
def dispatch (program : String) (arguments : List String) : IO UInt32 := do
  let console ← Console.new
  if program == "assembler" then
    console.finish (← Assembler.run systemHost program arguments)
  else
    match ← Runner.prepare systemHost program arguments with
    | .finished outcome => console.finish outcome
    | .session s => console.drive s.start

end Command

end StackMachine

/-- Runs the command that the executable was called as. -/
def main (arguments : List String) : IO UInt32 := do
  let path ← IO.appPath
  StackMachine.Command.dispatch (path.fileName.getD "stack-machine") arguments
