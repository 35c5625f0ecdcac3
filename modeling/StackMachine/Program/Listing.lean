import StackMachine.Assembly.Statement
import StackMachine.Program.Basic
import StackMachine.Text.Basic

/-!
# Listings

A program read back as assembly. The **rows** of a listing tile the program: a row
is an instruction with its immediate, or a single word that is no opcode – or whose
immediate would lie beyond the end – and is written with the directive for raw
words. So every program has a listing, whatever its words are, and without its
addresses the listing is source text of that very program.
-/

namespace StackMachine

/-- What a row of a listing shows. -/
inductive Entry
  /-- A word as it is. -/
  | word (w : Word)
  /-- An instruction with its immediates. -/
  | instruction (i : Instruction) (immediates : List Word)
  deriving DecidableEq, Repr

namespace Entry

/-- The words that the row stands for. -/
def words : Entry → List Word
  | word w => [w]
  | instruction i immediates => i.opcode :: immediates

/-- The statement that the row shows. -/
def text : Entry → String
  | word w => Assembly.wordDirective ++ " " ++ toString w.toInt
  | instruction i immediates =>
    immediates.foldl (fun text w => text ++ " " ++ toString w.toInt) i.mnemonic

end Entry

/-- A row of a listing. -/
structure Row where
  /-- The address of the first word of the row. -/
  address : Nat
  /-- What it shows. -/
  entry : Entry
  deriving DecidableEq, Repr

/-- A row as a line of text: the address in six columns, then the statement. -/
def Row.text (r : Row) : String :=
  Text.pad .right 6 (toString r.address) ++ ": " ++ r.entry.text

namespace Program

/-- The rows for words that begin at an address. -/
def rowsFrom (address : Nat) : List Word → List Row
  | [] => []
  | w :: rest =>
    match Instruction.decode? w with
    | none => ⟨address, .word w⟩ :: rowsFrom (address + 1) rest
    | some i =>
      if i.immediates = 0 then ⟨address, .instruction i []⟩ :: rowsFrom (address + 1) rest
      else
        match rest with
        | [] => [⟨address, .word w⟩]
        | v :: rest => ⟨address, .instruction i [v]⟩ :: rowsFrom (address + 2) rest

/-- The rows of a program. -/
def rows (p : Program) : List Row := rowsFrom 0 p.toList

/-- The listing of a program, a line for each row. -/
def listing (p : Program) : String :=
  p.rows.foldl (fun text row => text ++ row.text ++ "\n") ""

end Program

end StackMachine
