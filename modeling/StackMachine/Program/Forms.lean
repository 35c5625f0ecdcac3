import StackMachine.Error
import StackMachine.Program.Basic
import StackMachine.Text.Basic
import StackMachine.Text.Numeral

/-!
# The forms of a program

A program as a sequence of bytes: eight for every word, the low ones first, and
nothing in between. Any number of bytes that is a multiple of eight is a program,
and no other number is.

A program as a text: numerals, between separators, on any number of lines and with
comments. A line is cut at its separators into **fields**, some of which are empty
where separators meet; the column of a field follows from the lengths of the fields
before it, each of which ends with one separator. The fields that are not empty have
to be numerals of words.

* `StackMachine.Program.toBytes`, `StackMachine.Program.ofBytes` – bytes;
* `StackMachine.Program.ofText` – text.
-/

namespace StackMachine

/-! ### Bytes -/

/-- The lowest `count` bytes of a number, the lowest one first. -/
def littleEndian : Nat → Nat → List UInt8
  | 0, _ => []
  | count + 1, n => UInt8.ofNat n :: littleEndian count (n / 256)

/-- The number with the given bytes, the lowest one first. -/
def ofLittleEndian : List UInt8 → Nat
  | [] => 0
  | b :: rest => b.toNat + 256 * ofLittleEndian rest

namespace Word

/-- The number of bytes of a word. -/
def byteCount : Nat := 8

/-- The bytes of the bit pattern of a word. -/
def toBytes (w : Word) : List UInt8 := littleEndian byteCount w.toUInt64.toNat

/-- The word whose bit pattern has the given bytes. -/
def ofBytes (bytes : List UInt8) : Word := (UInt64.ofNat (ofLittleEndian bytes)).toInt64

end Word

namespace Program

/-- The bytes of a program. -/
def toBytes (p : Program) : List UInt8 := p.toList.flatMap Word.toBytes

/-- The words in a sequence of bytes, as far as there are eight bytes for a word. -/
def wordsOfBytes : List UInt8 → List Word
  | a :: b :: c :: d :: e :: f :: g :: h :: rest =>
    Word.ofBytes [a, b, c, d, e, f, g, h] :: wordsOfBytes rest
  | _ => []

/-- Reads a program from bytes. -/
def ofBytes (bytes : List UInt8) : Except Error Program :=
  if bytes.length % Word.byteCount = 0 then .ok (ofList (wordsOfBytes bytes))
  else
    let length := bytes.length
    let unit := Word.byteCount
    .error (.undecodable s!"length {length} is not a multiple of {unit} bytes")

end Program

/-! ### Text -/

namespace Program

/-- A stretch of a line between two separators. -/
structure Field where
  column : Nat
  text : String
  deriving DecidableEq, Repr

/-- Gives fields their columns, the first one being given. -/
def locate (column : Nat) : List (List Char) → List Field
  | [] => []
  | field :: rest => ⟨column, String.ofList field⟩ :: locate (column + field.length + 1) rest

/-- The fields of a line. -/
def fields (line : List Char) : List Field :=
  locate 1 ((Text.dropComment line).splitOnP Text.isSeparator)

/-- The word of a field. -/
def Field.word (line : Nat) (f : Field) : Except Error Word :=
  match Numeral.word? f.text with
  | some w => .ok w
  | none => .error (.malformedToken line f.column ("invalid integer `" ++ f.text ++ "`"))

/-- The words of a line. -/
def lineWords (number : Nat) (line : List Char) : Except Error (List Word) :=
  ((fields line).filter (!·.text.isEmpty)).mapM (Field.word number)

/-- Reads a program from text. -/
def ofText (source : String) : Except Error Program := do
  let words ← ((Text.lines source.toList).zipIdx 1).mapM fun (line, number) =>
    lineWords number line
  return ofList words.flatten

end Program

end StackMachine
