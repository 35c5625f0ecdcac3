import StackMachine.Instruction
import StackMachine.Machine.Basic

/-!
# One step

What the machine does with one instruction. A step checks the budget, notes where
the opcode is, fetches it, counts it and executes it – in this order, which is what
decides the last details: a step refused for the budget fetches nothing, a fetch
that fails is not counted, and a word that is no opcode *is* counted, leaves its
trace and does nothing else.

Operands come off the stack before anything is done with them, the right one first.
`JIF` is the one instruction that looks before it takes: it pops its condition, and
its target only when the condition is true.

Four things leave a trace, an **event**: a `NOP`, a `HALT`, a printed value, and a
fetched word that is no opcode. Each has one line of text,
`StackMachine.Event.text`; the last kind also remembers which word was met and where,
for the log.
-/

namespace StackMachine

/-! ### What a step lets its surroundings see -/

/-- Something a run shows. -/
inductive Event
  /-- A `NOP` was executed. -/
  | nop
  /-- A `HALT` was executed. -/
  | halt
  /-- A value was printed. -/
  | printed (value : Word)
  /-- The word fetched as an opcode at the offset is none. -/
  | invalid (word : Word) (offset : Nat)
  deriving DecidableEq, Repr

/-- The text of an event. -/
def Event.text : Event → String
  | nop => "NOP"
  | halt => "HALT"
  | printed value => toString value.toInt
  | invalid .. => "INVALID OP"

/-! ### Steps -/

namespace Exec

/-- Pops the right operand, then the left one, and pushes what `f` makes of the two.
The offset of the instruction is handed to `f` for the faults it may raise. -/
def binary (f : Nat → Word → Word → Except Error Word) : Exec Unit := do
  let b ← pop
  let a ← pop
  match f (← get).origin a b with
  | .ok value => push value
  | .error fault => throw fault

/-- Ends the run. -/
def halt : Exec Unit := modify fun m => { m with status := .halted }

/-- Executes an instruction whose opcode has been fetched, and returns the event it
leaves behind, if any. -/
def execute (i : Instruction) : Exec (Option Event) :=
  match i with
  | .nop => return some .nop
  | .halt => do halt; return some .halt
  | .push => do push (← fetch); return none
  | .pop => do let _ ← pop; return none
  | .dup => do push (← peek); return none
  | .load => do push (← load (← fetch)); return none
  | .store => do let id ← fetch; store id (← pop); return none
  | .print => do return some (.printed (← pop))
  | .add => do binary fun _ a b => .ok (a + b); return none
  | .sub => do binary fun _ a b => .ok (a - b); return none
  | .mul => do binary fun _ a b => .ok (a * b); return none
  | .div => do
    binary fun ip a b => if b = 0 then .error (.divisionByZero ip) else .ok (a / b)
    return none
  | .mod => do
    binary fun ip a b => if b = 0 then .error (.divisionByZero ip) else .ok (a % b)
    return none
  | .not => do push (Word.ofBool !(← pop).isTrue); return none
  | .and => do binary fun _ a b => .ok (Word.ofBool (a.isTrue && b.isTrue)); return none
  | .or => do binary fun _ a b => .ok (Word.ofBool (a.isTrue || b.isTrue)); return none
  | .equal | .notEqual | .greater | .greaterEqual | .less | .lessEqual => do
    binary fun ip a b => (i.compare a b ip).map Word.ofBool
    return none
  | .jump => do jump (← pop); return none
  | .jumpIf => do
    if (← pop).isTrue then
      jump (← pop)
    return none

/-- Refuses to go on when the instruction budget is used up. -/
def checkBudget : Exec Unit := fun m =>
  match m.config.stepLimit with
  | none => .ok () m
  | some limit => if limit ≤ m.steps then .error (.stepLimitExceeded limit) m else .ok () m

/-- Fetches, decodes and executes one instruction. -/
def step : Exec (Option Event) := do
  checkBudget
  modify fun m => { m with origin := m.ip }
  let word ← fetch
  modify fun m => { m with steps := m.steps + 1 }
  match Instruction.decode? word with
  | some i => execute i
  | none => return some (.invalid word (← get).origin)

end Exec

end StackMachine
