import StackMachine.Program.Basic

/-!
# What can go wrong

One type holds every cause of failure: the **faults** that end a run, the refusal
to run twice, and the causes for which a program cannot be read, assembled or
loaded. A constructor carries what is needed to say what happened and where;
`StackMachine.Error.message` does the saying, and nothing else in the library
spells out a message of an error.

Where a fault carries an offset `ip`, it is the offset of the opcode that was
being executed, never that of its immediate. Lines and columns count from one, and
columns count characters.
-/

namespace StackMachine

/-- The causes of failure. -/
inductive Error
  /-- An instruction needed more operands than the stack held. -/
  | stackUnderflow (ip : Nat)
  /-- A stack of the given capacity was full. -/
  | stackOverflow (ip capacity : Nat)
  /-- A division, or a remainder, by zero. -/
  | divisionByZero (ip : Nat)
  /-- An opcode that names no relation was asked to compare. -/
  | unknownComparison (opcode : Word) (ip : Nat)
  /-- The instruction pointer left the program. -/
  | invalidPointer (target : Int)
  /-- The run used up its instruction budget. -/
  | stepLimitExceeded (limit : Nat)
  /-- A machine that has left its initial state was asked to run. -/
  | alreadyRun
  /-- A word that is no opcode. -/
  | unknownOpcode (opcode : Word) (offset : Nat)
  /-- A name that is no mnemonic. -/
  | unknownMnemonic (name : String)
  /-- A mnemonic with the wrong number of operands. -/
  | operandCount (mnemonic : String) (expected actual : Nat)
  /-- A token that cannot be read where it stands. -/
  | malformedToken (line column : Nat) (explanation : String)
  /-- A statement that makes no instruction. -/
  | badStatement (line column : Nat) (explanation : String)
  /-- A label defined a second time. -/
  | duplicateLabel (line : Nat) (label : String)
  /-- A reference to a label that is defined nowhere. -/
  | undefinedLabel (line : Nat) (label : String)
  /-- Bytes that encode no program. -/
  | undecodable (reason : String)
  /-- A file that could not be read. -/
  | unreadableFile (path cause : String)
  deriving DecidableEq, Repr

namespace Error

/-- The message of an error. -/
def message : Error → String
  | stackUnderflow ip => s!"stack underflow at ip {ip}"
  | stackOverflow ip capacity => s!"stack overflow at ip {ip} (capacity {capacity})"
  | divisionByZero ip => s!"division by zero at ip {ip}"
  | unknownComparison opcode ip =>
    "unknown comparison operator " ++ opcode.hex ++ s!" at ip {ip}"
  | invalidPointer target => s!"invalid instruction pointer {target}"
  | stepLimitExceeded limit => s!"step limit of {limit} instructions exceeded"
  | alreadyRun => "executor has already run"
  | unknownOpcode opcode offset =>
    "invalid instruction " ++ opcode.hex ++ s!" at offset {offset}"
  | unknownMnemonic name => s!"invalid instruction name: {name}"
  | operandCount mnemonic expected actual =>
    s!"{mnemonic} expects {expected} operand(s), got {actual}"
  | malformedToken line column explanation => s!"line {line}:{column}: {explanation}"
  | badStatement line column explanation => s!"line {line}:{column}: {explanation}"
  | duplicateLabel line label => s!"line {line}: duplicate label: {label}"
  | undefinedLabel line label => s!"line {line}: undefined label: {label}"
  | undecodable reason => s!"decoding error: {reason}"
  | unreadableFile path cause => s!"io error on {path}: {cause}"

/-- Whether the error is a fault, that is, one which a machine raises while it
executes and which ends its run. -/
def isFault : Error → Bool
  | stackUnderflow .. | stackOverflow .. | divisionByZero .. | unknownComparison ..
  | invalidPointer .. | stepLimitExceeded .. => true
  | _ => false

end Error

end StackMachine
