/-!
# Words and programs

Everything the machine handles is a **word**: a signed 64-bit integer in two's
complement. Code, operands, variables, jump targets and truth values are all the
same words, and only the instruction that meets one decides what it means.

A **program** is the bare sequence of words that the machine fetches from: no
header, no sections, and no line between code and data. The same word is an opcode
where the machine fetches an opcode and an immediate where it fetches an
immediate, so what a program means is decided by the run and not by its storage.

* `StackMachine.Word.isTrue`, `StackMachine.Word.ofBool` – words as truth
  values: zero is false and every other word is true, while a computed truth value
  is always `0` or `1`;
* `StackMachine.Word.ofInt?` – the word with a given value, when there is one;
* `StackMachine.Word.hex` – the hexadecimal text of the bit pattern, which is how
  messages show an opcode;
* `StackMachine.Program.get?` – the word at an address.
-/

namespace StackMachine

/-! ### Words -/

/-- A machine word: a signed 64-bit integer, whose arithmetic wraps around. -/
abbrev Word := Int64

namespace Word

/-- The truth value of a word: zero is false, everything else is true. -/
def isTrue (w : Word) : Bool := w != 0

/-- The word of a truth value: `1` for true and `0` for false. -/
def ofBool (b : Bool) : Word := if b then 1 else 0

/-- The word whose value is `n`, for `n` from `-2^63` to `2^63 - 1`. -/
def ofInt? (n : Int) : Option Word :=
  if Int64.minValue.toInt ≤ n ∧ n ≤ Int64.maxValue.toInt then some (Int64.ofInt n) else none

/-- The bit pattern of a word in lower-case hexadecimal, marked by `0x` and with
at least four digits. A negative word shows all sixteen digits of its two's
complement. -/
def hex (w : Word) : String :=
  "0x" ++ String.ofList ((Nat.toDigits 16 w.toUInt64.toNat).leftpad 4 '0')

end Word

/-! ### Programs -/

/-- A sequence of words to execute. -/
structure Program where
  /-- The words, the first one at address zero. -/
  words : Array Word
  deriving DecidableEq, Repr

namespace Program

/-- The program with the given words. -/
def ofList (words : List Word) : Program := ⟨words.toArray⟩

/-- The words from the first to the last. -/
def toList (p : Program) : List Word := p.words.toList

/-- The number of words. -/
def size (p : Program) : Nat := p.words.size

/-- Whether there is no word at all. -/
def isEmpty (p : Program) : Bool := p.words.isEmpty

/-- The word at an address, when the address is inside the program. -/
def get? (p : Program) (address : Nat) : Option Word := p.words[address]?

end Program

end StackMachine
