import StackMachine.Error

/-!
# The instruction set

Twenty-four instructions, each with an opcode, a mnemonic and a category. The high
byte of an opcode names the category, so the table below can be read off the
numbers. `PUSH`, `LOAD` and `STORE` are followed by one **immediate** word in the
program; all others stand alone.

* `StackMachine.Instruction.decode?` reads an opcode, and is the inverse of
  `StackMachine.Instruction.opcode`;
* `StackMachine.Instruction.ofMnemonic?` reads a mnemonic, in capitals or not;
* `StackMachine.Instruction.compare` is the relation that a comparison decides.
-/

namespace StackMachine

/-- The instructions of the machine. -/
inductive Instruction
  /-- Does nothing but leave a trace. -/
  | nop
  /-- Ends the run. -/
  | halt
  /-- Pushes its immediate. -/
  | push
  /-- Drops the top value. -/
  | pop
  /-- Pushes a copy of the top value. -/
  | dup
  /-- Pushes the variable that its immediate names. -/
  | load
  /-- Pops into the variable that its immediate names. -/
  | store
  /-- Pops a value and prints it. -/
  | print
  /-- Pops `b`, then `a`, and pushes `a + b`. -/
  | add
  /-- Pops `b`, then `a`, and pushes `a - b`. -/
  | sub
  /-- Pops `b`, then `a`, and pushes `a * b`. -/
  | mul
  /-- Pops `b`, then `a`, and pushes the quotient, truncated toward zero. -/
  | div
  /-- Pops `b`, then `a`, and pushes the remainder of that quotient. -/
  | mod
  /-- Pops a truth value and pushes its negation. -/
  | not
  /-- Pops two truth values and pushes their conjunction. -/
  | and
  /-- Pops two truth values and pushes their disjunction. -/
  | or
  /-- Pops `b`, then `a`, and pushes whether they are equal. -/
  | equal
  /-- Pops `b`, then `a`, and pushes whether they differ. -/
  | notEqual
  /-- Pops `b`, then `a`, and pushes whether `a > b`. -/
  | greater
  /-- Pops `b`, then `a`, and pushes whether `a ≥ b`. -/
  | greaterEqual
  /-- Pops `b`, then `a`, and pushes whether `a < b`. -/
  | less
  /-- Pops `b`, then `a`, and pushes whether `a ≤ b`. -/
  | lessEqual
  /-- Pops a target and jumps there. -/
  | jump
  /-- Pops a condition; when it is true, pops a target and jumps there. -/
  | jumpIf
  deriving DecidableEq, Repr

/-- The groups of instructions. -/
inductive Category
  | general
  | data
  | arithmetic
  | logic
  | comparison
  | controlFlow
  deriving DecidableEq, Repr

namespace Instruction

/-- Every instruction, in the order of the opcodes. -/
def all : List Instruction :=
  [nop, halt, push, pop, dup, load, store, print, add, sub, mul, div, mod, not, and, or,
    equal, notEqual, greater, greaterEqual, less, lessEqual, jump, jumpIf]

/-- The word that stands for the instruction in a program. -/
def opcode : Instruction → Word
  | nop => 0x0000
  | halt => 0x0001
  | push => 0x0101
  | pop => 0x0102
  | dup => 0x0103
  | load => 0x0104
  | store => 0x0105
  | print => 0x0199
  | add => 0x0201
  | sub => 0x0202
  | mul => 0x0203
  | div => 0x0204
  | mod => 0x0205
  | not => 0x0301
  | and => 0x0302
  | or => 0x0303
  | equal => 0x0401
  | notEqual => 0x0402
  | greater => 0x0403
  | greaterEqual => 0x0404
  | less => 0x0405
  | lessEqual => 0x0406
  | jump => 0x0411
  | jumpIf => 0x0412

/-- The name of the instruction in assembly source and in listings. -/
def mnemonic : Instruction → String
  | nop => "NOP"
  | halt => "HALT"
  | push => "PUSH"
  | pop => "POP"
  | dup => "DUP"
  | load => "LOAD"
  | store => "STORE"
  | print => "PRINT_I"
  | add => "ADD"
  | sub => "SUB"
  | mul => "MUL"
  | div => "DIV"
  | mod => "MOD"
  | not => "NOT"
  | and => "AND"
  | or => "OR"
  | equal => "CMP_E"
  | notEqual => "CMP_NE"
  | greater => "CMP_G"
  | greaterEqual => "CMP_GE"
  | less => "CMP_L"
  | lessEqual => "CMP_LE"
  | jump => "JMP"
  | jumpIf => "JIF"

/-- The group an instruction belongs to. -/
def category : Instruction → Category
  | nop | halt => .general
  | push | pop | dup | load | store | print => .data
  | add | sub | mul | div | mod => .arithmetic
  | not | and | or => .logic
  | equal | notEqual | greater | greaterEqual | less | lessEqual => .comparison
  | jump | jumpIf => .controlFlow

/-- The number of immediate words that follow the opcode. -/
def immediates : Instruction → Nat
  | push | load | store => 1
  | _ => 0

/-- The number of words the instruction takes up in a program. -/
def size (i : Instruction) : Nat := 1 + i.immediates

/-- The instruction with a given opcode. -/
def decode? (w : Word) : Option Instruction := all.find? (·.opcode == w)

/-- The instruction with a given mnemonic. Only the case of ASCII letters is
ignored; blanks count. -/
def ofMnemonic? (name : String) : Option Instruction :=
  all.find? (·.mnemonic.toList == name.toList.map Char.toUpper)

/-- The verdict of a comparison on `a` and `b`. An instruction that is no
comparison has none, and is reported at the offset `ip`. -/
def compare (i : Instruction) (a b : Word) (ip : Nat) : Except Error Bool :=
  match i with
  | equal => .ok (a == b)
  | notEqual => .ok (a != b)
  | greater => .ok (decide (b < a))
  | greaterEqual => .ok (decide (b ≤ a))
  | less => .ok (decide (a < b))
  | lessEqual => .ok (decide (a ≤ b))
  | _ => .error (.unknownComparison i.opcode ip)

end Instruction

end StackMachine
