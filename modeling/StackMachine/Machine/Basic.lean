import StackMachine.BoundedStack
import StackMachine.Error
import StackMachine.Program.Basic
import Std.Data.TreeMap

/-!
# The state of a machine

A machine is made with three limits: how high its operand stack and its frame stack
may grow, and how many instructions one run may dispatch.

A **call frame** holds the variables that `LOAD` and `STORE` address, and the
address to resume at when the frame is left. Any word may name a variable,
negative ones included; a variable that was never stored reads as zero and takes
up no place.

A machine goes through `ready`, `running` and then one of `halted` and `faulted`,
each of them at most once. Besides its program and its limits it has an instruction
pointer, the offset of the opcode in execution (the **origin**, which faults
report), an operand stack, a stack of call frames, and the number of instructions
dispatched so far.

Instructions are written in `StackMachine.Exec`, the actions that may change the
machine and may fault. A fault does *not* undo what came before it: the machine it
leaves behind is the one at the moment of failure, so a word already fetched stays
fetched and an operand already popped stays popped. The primitive actions below –
fetch, push, pop, jump, and the two accesses to the frame on top – are each all or
nothing, and every partial effect of an instruction is a sequence of them.
-/

namespace StackMachine

/-! ### Limits and call frames -/

/-- The limits a machine is made with. -/
structure Config where
  /-- How many words the operand stack holds at most. -/
  stackCapacity : Nat := 4096
  /-- How many call frames there are at most. -/
  frameCapacity : Nat := 256
  /-- How many instructions a run dispatches at most; without a limit it goes on
  until it halts or faults. -/
  stepLimit : Option Nat := none
  deriving DecidableEq, Repr

/-- An activation record: where to resume, and the variables. -/
structure Frame where
  /-- The address to resume at when the frame is left. -/
  returnAddress : Nat := 0
  /-- The values stored so far, by the name of the variable. -/
  values : Std.TreeMap Word Word := ∅

namespace Frame

/-- The value of a variable, zero when nothing was stored there. -/
def load (f : Frame) (id : Word) : Word := f.values.getD id 0

/-- Creates or overwrites a variable. -/
def store (f : Frame) (id value : Word) : Frame :=
  { f with values := f.values.insert id value }

/-- The number of variables stored so far. -/
def count (f : Frame) : Nat := f.values.size

end Frame

/-! ### Machines -/

/-- The life of a machine. -/
inductive Status
  | ready
  | running
  | halted
  | faulted
  deriving DecidableEq, Repr

/-- A machine, at one moment of its life. -/
structure Machine where
  /-- The program it executes. -/
  program : Program
  /-- The limits it was made with. -/
  config : Config
  /-- Where it is in its life. -/
  status : Status
  /-- The address of the next word to fetch. -/
  ip : Nat
  /-- The address of the opcode in execution. -/
  origin : Nat
  /-- The operand stack. -/
  stack : BoundedStack Word
  /-- The call frames, the current one on top. -/
  frames : BoundedStack Frame
  /-- The number of instructions dispatched. -/
  steps : Nat

/-- A new machine for a program. -/
def Machine.load (program : Program) (config : Config) : Machine where
  program := program
  config := config
  status := .ready
  ip := 0
  origin := 0
  stack := .empty config.stackCapacity
  frames := .empty config.frameCapacity
  steps := 0

namespace Machine

/-- The frame that `LOAD` and `STORE` address, once a run has begun. -/
def currentFrame? (m : Machine) : Option Frame := m.frames.items.head?

end Machine

/-- A failure of a stack, as a fault of the instruction at the given offset. -/
def StackError.toFault (ip : Nat) : StackError → Error
  | .overflow capacity => .stackOverflow ip capacity
  | .underflow => .stackUnderflow ip

/-- Actions on a machine that may fault; a fault keeps the machine as it was when
the fault was raised. -/
abbrev Exec := EStateM Error Machine

namespace Exec

/-! ### The primitive actions -/

/-- The largest address that a word can hold, and so that a message can show. -/
def maxAddress : Nat := 0x7FFFFFFFFFFFFFFF

/-- Reads the word at the instruction pointer and moves past it. -/
def fetch : Exec Word := fun m =>
  match m.program.get? m.ip with
  | some word => .ok word { m with ip := m.ip + 1 }
  | none => .error (.invalidPointer (min m.ip maxAddress : Nat)) m

/-- Pushes a word on the operand stack. -/
def push (value : Word) : Exec Unit := fun m =>
  match m.stack.push value with
  | .ok stack => .ok () { m with stack := stack }
  | .error failure => .error (failure.toFault m.origin) m

/-- Pops a word from the operand stack. -/
def pop : Exec Word := fun m =>
  match m.stack.pop with
  | .ok (value, stack) => .ok value { m with stack := stack }
  | .error failure => .error (failure.toFault m.origin) m

/-- The word on top of the operand stack, which stays there. -/
def peek : Exec Word := fun m =>
  match m.stack.peek with
  | .ok value => .ok value m
  | .error failure => .error (failure.toFault m.origin) m

/-- The value of a variable of the current frame. -/
def load (id : Word) : Exec Word := fun m =>
  match m.frames.peek with
  | .ok frame => .ok (frame.load id) m
  | .error failure => .error (failure.toFault m.origin) m

/-- Stores a variable of the current frame. -/
def store (id value : Word) : Exec Unit := fun m =>
  match m.frames.peek with
  | .error failure => .error (failure.toFault m.origin) m
  | .ok frame =>
    match m.frames.replaceTop (frame.store id value) with
    | .ok (_, frames) => .ok () { m with frames := frames }
    | .error failure => .error (failure.toFault m.origin) m

/-- Moves the instruction pointer. A negative target is refused at once; one past
the end of the program is found out by the next fetch. -/
def jump (target : Word) : Exec Unit := fun m =>
  if target < 0 then .error (.invalidPointer target.toInt) m
  else .ok () { m with ip := target.toInt.toNat }

end Exec

end StackMachine
