import StackMachine.Program.Basic

/-!
# Numerals

How integers are written in source text. A numeral is a sign, if any, and a
magnitude: decimal digits, or hexadecimal digits after `0x`. The letters of a
hexadecimal numeral, its mark included, may be capitals. There is one sign at most,
it stands in front of the mark, and nothing but digits may follow it: no blanks, no
separators between groups of digits.

A numeral of any length has a value, and only then is it asked whether the value
fits: `StackMachine.Numeral.word?` reads the values of words, and
`StackMachine.Numeral.count?` the unsigned ones that limits are given in.
-/

namespace StackMachine

namespace Numeral

/-- The value of a digit, decimal or hexadecimal. -/
def digitValue? (c : Char) : Option Nat :=
  if '0' ≤ c ∧ c ≤ '9' then some (c.toNat - '0'.toNat)
  else if 'a' ≤ c ∧ c ≤ 'f' then some (c.toNat - 'a'.toNat + 10)
  else if 'A' ≤ c ∧ c ≤ 'F' then some (c.toNat - 'A'.toNat + 10)
  else none

/-- The value of a digit in a base. -/
def digit? (base : Nat) (c : Char) : Option Nat := (digitValue? c).filter (· < base)

/-- The value of a nonempty run of digits. -/
def digits? (base : Nat) (digits : List Char) : Option Nat :=
  if digits.isEmpty then none
  else digits.foldlM (fun value c => (digit? base c).map (value * base + ·)) 0

/-- The value of a numeral without its sign. -/
def magnitude? : List Char → Option Nat
  | '0' :: 'x' :: digits => digits? 16 digits
  | '0' :: 'X' :: digits => digits? 16 digits
  | digits => digits? 10 digits

/-- The value of a numeral. -/
def integer? : List Char → Option Int
  | '-' :: rest => (magnitude? rest).map fun n => -(n : Int)
  | '+' :: rest => (magnitude? rest).map fun n => (n : Int)
  | rest => (magnitude? rest).map fun n => (n : Int)

/-- The word a numeral stands for. -/
def word? (text : String) : Option Word := (integer? text.toList).bind Word.ofInt?

/-- The number that a decimal numeral without minus sign stands for, below `2^64`. -/
def count? (text : String) : Option Nat :=
  let digits := match text.toList with
    | '+' :: rest => rest
    | rest => rest
  (digits? 10 digits).filter (· < UInt64.size)

end Numeral

end StackMachine
