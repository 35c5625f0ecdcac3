import StackMachine.Command.Outcome
import StackMachine.Files.Load
import StackMachine.Files.Path
import StackMachine.Program.Listing

/-!
# The assembler command

The command that turns an assembly file into a program file of bytes. Unlike the
runner it has nothing to say but messages, so even its usage is logged.

The file is written last, after everything that can be checked has been checked:
the options, that there is something to read, that there is a directory to write to,
and the source itself. A command that fails has therefore written nothing.
-/

namespace StackMachine

namespace Command

namespace Assembler

/-- What the options decide. -/
structure Options where
  /-- The source file. -/
  input : String
  /-- The file to write, when an option tells. -/
  output : Option String := none
  /-- Whether to print the listing. -/
  listing : Bool := false
  deriving DecidableEq, Repr

/-- What an argument asks for. -/
inductive Flag
  | output
  | listing
  deriving DecidableEq, Repr

/-- The options there are. -/
def flags : List (String × Flag) :=
  [("--output", .output), ("-o", .output), ("--listing", .listing), ("-l", .listing)]

/-- Why the arguments are refused. -/
inductive Refusal
  /-- An argument that is no option. -/
  | unexpected (argument : String)
  /-- An option without its value. -/
  | missingValue (flag : String)
  deriving DecidableEq, Repr

/-- What the arguments come to. -/
inductive Request
  /-- Say how the command is used; this was asked for, or is all there is to say. -/
  | usage (exitCode : Nat)
  | refused (refusal : Refusal)
  | assemble (options : Options)
  deriving DecidableEq, Repr

/-- Reads the options. -/
def readOptions (o : Options) : List String → Request
  | [] => .assemble o
  | argument :: rest =>
    match flags.lookup argument with
    | some .listing => readOptions { o with listing := true } rest
    | some .output =>
      match rest with
      | [] => .refused (.missingValue argument)
      | value :: rest => readOptions { o with output := some value } rest
    | none => .refused (.unexpected argument)

/-- Reads the arguments. -/
def read : List String → Request
  | [] => .usage 1
  | first :: rest =>
    if first == "--help" || first == "-h" then .usage 0 else readOptions { input := first } rest

/-- How the command is used, under the name it was called by. -/
def usage (program : String) : String :=
  textOfLines
    ["Assembly Compiler",
      "",
      "USAGE:",
      "    " ++ program ++ " <input.asm> [OPTIONS]",
      "",
      "ARGS:",
      "    <input.asm>    Assembly source file to compile",
      "",
      "OPTIONS:",
      "    -o, --output <file>    Output file path (defaults to <input>.bin)",
      "    -l, --listing          Print the disassembled program",
      "    -h, --help             Print this help message",
      "",
      "EXAMPLES:",
      "    # Compile to default output name",
      "    " ++ program ++ " program.asm",
      "",
      "    # Compile with explicit output",
      "    " ++ program ++ " program.asm -o output.bin"]

/-- The outcome of a command that failed with a message. -/
def failure (journal : Journal) (text : String) : Outcome :=
  { exitCode := 1, messages := (journal.log .error text).messages }

/-- What a refusal leaves behind. Only an unexpected argument is answered with the
usage of the command. -/
def Refusal.outcome (program : String) : Refusal → Outcome
  | unexpected argument =>
    let journal := Journal.log {} .error ("Unexpected argument: " ++ argument ++ "\n")
    { exitCode := 1, messages := (journal.log .info (usage program)).messages }
  | missingValue flag => failure {} (flag ++ " requires an argument")

/-- The file to write: the one that the options name, or the source file with its
extension exchanged. -/
def Options.outputPath (o : Options) : String :=
  o.output.getD (Path.withExtension o.input "bin")

/-- The directory of a path that has to be there before the path can be written. -/
def requiredDirectory? (path : String) : Option String :=
  (Path.parent? path).filter (!·.isEmpty)

/-- Assembles the source file and writes the program. -/
def compile {m : Type → Type} [Monad m] (host : Host m) (o : Options) : m Outcome := do
  match ← host.load .assembly {} o.input with
  | (.error e, journal) => return failure journal ("Assembly failed: " ++ e.message)
  | (.ok program, journal) =>
    let bytes := program.toBytes
    match ← host.write o.outputPath bytes with
    | .error e => return failure journal ("Failed to write output file: " ++ e.message)
    | .ok () =>
      let words := program.size
      let count := bytes.length
      let journal := journal.log .info ("Compiled " ++ o.input ++ " -> " ++ o.outputPath ++
        s!" ({words} words, {count} bytes)")
      return { exitCode := 0, stdout := if o.listing then program.listing else "",
               messages := journal.messages }

/-- Does what the options ask for, if there is something to read and a directory to
write to. -/
def assemble {m : Type → Type} [Monad m] (host : Host m) (o : Options) : m Outcome := do
  if !(← host.contains o.input) then
    return failure {} ("Input file does not exist: " ++ o.input)
  if let some directory := requiredDirectory? o.outputPath then
    if !(← host.contains directory) then
      return failure {} ("Output directory does not exist: " ++ directory)
  compile host o

/-- The whole command. -/
def run {m : Type → Type} [Monad m] (host : Host m) (program : String)
    (arguments : List String) : m Outcome :=
  match read arguments with
  | .usage exitCode =>
    let journal : Journal := {}
    return { exitCode := exitCode, messages := (journal.log .info (usage program)).messages }
  | .refused refusal => return refusal.outcome program
  | .assemble options => assemble host options

end Assembler

end Command

end StackMachine
