import StackMachine.Command.Outcome
import StackMachine.Files.Load
import StackMachine.Files.Path
import StackMachine.Machine.Session
import StackMachine.Program.Listing

/-!
# The runner

The command that runs a program file. Its first argument is the file, whatever it
looks like, unless it asks for help; options follow, from left to right, and the
last of several that contradict each other wins. All options are read before
anything else is done, so their order does not matter otherwise.

The work comes in three parts. `StackMachine.Command.Runner.read` reads the
arguments, `StackMachine.Command.Runner.prepare` loads the program and is done when
only a listing was asked for, and otherwise there is a session to run, whose end
`StackMachine.Command.Runner.conclude` turns into the outcome. Only the run can take
forever.
-/

namespace StackMachine

namespace Command

namespace Runner

/-- What the options decide. -/
structure Options where
  /-- The program file. -/
  path : String
  /-- The form of the file, when an option tells. -/
  format : Option FileFormat := none
  /-- The limits of the machine. -/
  config : Config := {}
  /-- Whether to print the listing instead of running the program. -/
  listing : Bool := false
  /-- Whether to log errors only. -/
  quiet : Bool := false
  deriving DecidableEq, Repr

/-- A limit that an option sets. -/
inductive Limit
  | stack
  | frames
  | steps
  deriving DecidableEq, Repr

/-- The option that sets a limit. -/
def Limit.name : Limit → String
  | stack => "--stack"
  | frames => "--frames"
  | steps => "--max-steps"

/-- Sets a limit. -/
def Limit.set (config : Config) (value : Nat) : Limit → Config
  | stack => { config with stackCapacity := value }
  | frames => { config with frameCapacity := value }
  | steps => { config with stepLimit := some value }

/-- What an argument asks for. -/
inductive Flag
  | format (format : FileFormat)
  | limit (limit : Limit)
  | listing
  | quiet
  | help
  deriving DecidableEq, Repr

/-- The options there are. -/
def flags : List (String × Flag) :=
  [("--asm", .format .assembly), ("--bin", .format .binary), ("--disasm", .listing),
    ("--quiet", .quiet), ("-h", .help), ("--help", .help)] ++
    [Limit.stack, .frames, .steps].map fun limit => (limit.name, .limit limit)

/-- Why the arguments are refused. -/
inductive Refusal
  /-- An argument that is no option. -/
  | unexpected (argument : String)
  /-- An option without its value. -/
  | missingValue (limit : Limit)
  /-- An option with a value that is no number. -/
  | invalidValue (limit : Limit) (value : String)
  deriving DecidableEq, Repr

/-- What the arguments come to. -/
inductive Request
  /-- Say how the command is used; this was asked for, or is all there is to say. -/
  | usage (exitCode : Nat)
  | refused (refusal : Refusal)
  | run (options : Options)
  deriving DecidableEq, Repr

/-- Reads the options. -/
def readOptions (o : Options) : List String → Request
  | [] => .run o
  | argument :: rest =>
    match flags.lookup argument with
    | some (.format format) => readOptions { o with format := some format } rest
    | some .listing => readOptions { o with listing := true } rest
    | some .quiet => readOptions { o with quiet := true } rest
    | some .help => .usage 0
    | some (.limit limit) =>
      match rest with
      | [] => .refused (.missingValue limit)
      | value :: rest =>
        match Numeral.count? value with
        | some n => readOptions { o with config := limit.set o.config n } rest
        | none => .refused (.invalidValue limit value)
    | none => .refused (.unexpected argument)

/-- Reads the arguments. -/
def read : List String → Request
  | [] => .usage 1
  | first :: rest =>
    if first == "--help" || first == "-h" then .usage 0 else readOptions { path := first } rest

/-- How the command is used, under the name it was called by. -/
def usage (program : String) : String :=
  textOfLines
    ["Stack VM",
      "",
      "USAGE:",
      "    " ++ program ++ " <program> [OPTIONS]",
      "",
      "ARGS:",
      "    <program>    Program file (.asm source, integer text, or binary with --bin)",
      "",
      "OPTIONS:",
      "    --asm              Treat the input as assembly source",
      "    --bin              Treat the input as little-endian 8-byte words",
      "    --stack <n>        Operand stack capacity (default 4096)",
      "    --frames <n>       Frame stack capacity (default 256)",
      "    --max-steps <n>    Fault after n instructions",
      "    --disasm           Print the program listing and exit",
      "    --quiet            Only log errors",
      "    -h, --help         Print this help message",
      "",
      "EXAMPLES:",
      "    # Assemble and run",
      "    " ++ program ++ " countdown.asm",
      "",
      "    # Run raw words with a small stack",
      "    " ++ program ++ " program.txt --stack 16",
      "",
      "    # Inspect a binary program",
      "    " ++ program ++ " program.bin --bin --disasm",
      ""]

/-- What a refusal leaves behind. Only an unexpected argument is answered with the
usage of the command. -/
def Refusal.outcome (program : String) : Refusal → Outcome
  | unexpected argument =>
    { exitCode := 1, notice := "Unexpected argument: " ++ argument ++ "\n\n" ++ usage program }
  | missingValue limit => { exitCode := 1, notice := limit.name ++ " requires an argument\n" }
  | invalidValue limit value =>
    { exitCode := 1, notice := "Invalid value for " ++ limit.name ++ ": " ++ value ++ "\n" }

/-- The form of a file as its name tells it: assembly source with the extension
`asm`, in capitals or not, and text otherwise. -/
def detectFormat (path : String) : FileFormat :=
  match Path.extension? path with
  | some extension =>
    if extension.toList.map Char.toLower = "asm".toList then .assembly else .text
  | none => .text

/-- A command that is done, or that has a program to run yet. -/
inductive Prepared
  | finished (outcome : Outcome)
  | session (session : Session)

/-- Loads the program and does what can be done without running it. -/
def prepareRun {m : Type → Type} [Monad m] (host : Host m) (o : Options) : m Prepared := do
  let journal : Journal := { threshold := if o.quiet then .error else .info }
  match ← host.load (o.format.getD (detectFormat o.path)) journal o.path with
  | (.error e, journal) =>
    let journal := journal.log .error ("failed to load " ++ o.path ++ ": " ++ e.message)
    return .finished { exitCode := 1, messages := journal.messages }
  | (.ok program, journal) =>
    let size := program.size
    let journal := journal.log .info ("loaded " ++ o.path ++ s!" ({size} words)")
    if o.listing then
      return .finished
        { exitCode := 0, stdout := program.listing, messages := journal.messages }
    else return .session ⟨.load program o.config, .stdout "", journal⟩

/-- Does everything that comes before the run. -/
def prepare {m : Type → Type} [Monad m] (host : Host m) (program : String)
    (arguments : List String) : m Prepared :=
  match read arguments with
  | .usage exitCode => return .finished { exitCode := exitCode, notice := usage program }
  | .refused refusal => return .finished (refusal.outcome program)
  | .run options => prepareRun host options

/-- The outcome of a run that is over. -/
def conclude (result : Result) (s : Session) : Outcome :=
  let stdout := match s.sink with
    | .stdout written => written
    | _ => ""
  match result with
  | .ok () =>
    let steps := s.machine.steps
    let journal := s.journal.log .info s!"halted after {steps} instructions"
    { exitCode := 0, stdout := stdout, messages := journal.messages }
  | .error fault =>
    let journal := s.journal.log .error ("execution failed: " ++ fault.message)
    { exitCode := 1, stdout := stdout, messages := journal.messages }

/-- The whole command, with a bound on the turns of the machine. There is no outcome
when the run is not over by then. -/
def run {m : Type → Type} [Monad m] (host : Host m) (fuel : Nat) (program : String)
    (arguments : List String) : m (Option Outcome) := do
  match ← prepare host program arguments with
  | .finished outcome => return some outcome
  | .session s =>
    let (result, s) := s.run fuel
    return result.map fun result => conclude result s

end Runner

end Command

end StackMachine
