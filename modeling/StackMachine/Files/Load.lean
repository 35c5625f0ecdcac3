import StackMachine.Assembly.Diagnostic
import StackMachine.Files.FileSystem
import StackMachine.Program.Forms

/-!
# Loading programs

What a command may ask of its surroundings is whether a path names anything, the
bytes of a file, and to write a file. A command is written for any **host** that
answers these three, in whatever monad it answers them. A file system that is a value
makes a host too, in the monad that threads it through; with it a command is a
function, from files to files.

A program file is assembly source, bytes, or text, and nothing in the file tells
which: whoever loads it has to know. A file that cannot be read is an error about
the file; one that can be read but makes no program has the error that its contents
have.
-/

namespace StackMachine

/-! ### Hosts -/

/-- Someone who can look at files and write them. -/
structure Host (m : Type → Type) where
  /-- Whether a path names anything. -/
  contains : String → m Bool
  /-- The bytes of a file. -/
  read : String → m (Except FileError (List UInt8))
  /-- Writes a file, making it or replacing its contents. -/
  write : String → List UInt8 → m (Except FileError Unit)

/-- The host that answers from a file system, and changes it. -/
def FileSystem.host : Host (StateM FileSystem) where
  contains path := do return (← get).contains path
  read path := do return (← get).read path
  write path bytes := do
    match (← get).write path bytes with
    | .ok fs => set fs; return .ok ()
    | .error e => return .error e

/-! ### Program files -/

/-- The forms of a program file. -/
inductive FileFormat
  | assembly
  | binary
  | text
  deriving DecidableEq, Repr

/-- The text with the given bytes. -/
def decodeText (bytes : List UInt8) : Except FileError String :=
  match String.fromUTF8? bytes.toByteArray with
  | some text => .ok text
  | none => .error .invalidText

/-- The program in the bytes of a file. The name of the file is for the messages;
assembly source that is refused is logged with its diagnostic. -/
def FileFormat.decode (format : FileFormat) (journal : Journal) (path : String)
    (bytes : List UInt8) : Except Error Program × Journal :=
  match format with
  | .binary => (Program.ofBytes bytes, journal)
  | .text =>
    match decodeText bytes with
    | .error e => (.error (.unreadableFile path e.message), journal)
    | .ok source => (Program.ofText source, journal)
  | .assembly =>
    match decodeText bytes with
    | .error e => (.error (.unreadableFile path e.message), journal)
    | .ok source => Assembly.assembleLogged journal path source

/-- Loads a program file. -/
def Host.load {m : Type → Type} [Monad m] (host : Host m) (format : FileFormat)
    (journal : Journal) (path : String) : m (Except Error Program × Journal) := do
  match ← host.read path with
  | .error e => return (.error (.unreadableFile path e.message), journal)
  | .ok bytes => return format.decode journal path bytes

end StackMachine
