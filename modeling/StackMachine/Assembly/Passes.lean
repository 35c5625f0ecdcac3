import StackMachine.Assembly.Statement
import StackMachine.Program.Basic
import StackMachine.Text.Numeral

/-!
# The two passes

The first pass of the assembler decides where everything goes. It walks through the
lines with the address of the next word, gives every label the address at its
definition, and checks all that can be checked before the labels are known: names
of labels, double definitions, mnemonics, and numbers of operands. Forward
references are why the operands have to wait.

The second pass gives the operands their values and puts the words down. An operand
is either a **reference** – `@` and the name of a label, which stands for the address
of that label – or a numeral.

* `StackMachine.Assembly.Layout.ofSource` – the first pass;
* `StackMachine.Assembly.assemble` – both passes: the program of a source text, or
  the first thing that is wrong with it.
-/

namespace StackMachine

namespace Assembly

/-! ### Layout -/

/-- The addresses of the labels defined so far, the latest one first. -/
abbrev LabelTable := List (String × Nat)

namespace LabelTable

/-- Defines a label. A malformed name is refused before a name that is taken. -/
def define (labels : LabelTable) (line address : Nat) (l : Label) : Except Error LabelTable :=
  if !isLabelName l.name then
    .error (.malformedToken line l.column ("invalid label name `" ++ l.name ++ "`"))
  else if (labels.lookup l.name).isSome then .error (.duplicateLabel line l.name)
  else .ok ((l.name, address) :: labels)

/-- Defines labels one after the other, all at the same address. -/
def defineAll (labels : LabelTable) (line address : Nat) : List Label → Except Error LabelTable
  | [] => .ok labels
  | l :: rest => do
    let labels ← labels.define line address l
    defineAll labels line address rest

end LabelTable

/-- A source text whose addresses are decided. -/
structure Layout where
  /-- The addresses of all labels. -/
  labels : LabelTable
  /-- The statements, in order. -/
  statements : List Statement
  /-- The number of words they take up. -/
  size : Nat
  deriving DecidableEq, Repr

namespace Layout

/-- Lays out lines from an address on, in the presence of labels defined before. -/
def place (address : Nat) (labels : LabelTable) : List Line → Except Error Layout
  | [] => .ok ⟨labels, [], address⟩
  | line :: rest => do
    let labels ← labels.defineAll line.number address line.labels
    match ← line.statement? with
    | none => place address labels rest
    | some s =>
      let layout ← place (address + s.head.size) labels rest
      return { layout with statements := s :: layout.statements }

/-- The layout of a source text. -/
def ofSource (source : String) : Except Error Layout := place 0 [] (Line.ofSource source)

end Layout

/-! ### Emission -/

/-- The value of an operand. -/
def resolve (labels : LabelTable) (line : Nat) (t : Token) : Except Error Word :=
  match t.text.toList with
  | '@' :: name =>
    match labels.lookup (String.ofList name) with
    | some address => .ok (Int64.ofNat address)
    | none => .error (.undefinedLabel line (String.ofList name))
  | _ =>
    match Numeral.word? t.text with
    | some w => .ok w
    | none => .error (.malformedToken line t.column ("invalid integer `" ++ t.text ++ "`"))

/-- The words of a statement. -/
def Statement.emit (labels : LabelTable) (s : Statement) : Except Error (List Word) := do
  let values ← s.operands.mapM (resolve labels s.line)
  return s.head.opcodes ++ values

/-- The words of a layout. -/
def Layout.emit (l : Layout) : Except Error Program := do
  let words ← l.statements.mapM (Statement.emit l.labels)
  return Program.ofList words.flatten

/-- The program of a source text. -/
def assemble (source : String) : Except Error Program := do
  (← Layout.ofSource source).emit

end Assembly

end StackMachine
