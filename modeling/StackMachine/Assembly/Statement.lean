import StackMachine.Instruction
import StackMachine.Text.Basic

/-!
# Tokens and statements

What a line of assembly source says. It is a sequence of **tokens**: maximal runs of
characters that do not separate, up to the comment. A token remembers the column it
starts at, which is all that an error message needs to point at it. The scanner goes
through a line once. It carries the column of the next character and the token it is
in the middle of, last character first; the token's own column is found when the
token ends, by counting back.

The tokens of a line are **label definitions**
– tokens that end with a colon – followed by at most one **statement**: the
mnemonic of an instruction with its operands, or `.word` with the word to put down.
Where a statement stands is known without its operands' values, since the head
alone decides how many words it takes up. Only the *number* of operands is checked
here, and what they mean is left for later, when all labels are known.
-/

namespace StackMachine

/-! ### Tokens -/

/-- A token of a source line. -/
structure Token where
  /-- The characters of the token. -/
  text : String
  /-- The column of its first character, counted from one. -/
  column : Nat
  deriving DecidableEq, Repr

namespace Token

/-- The token whose characters were met, last one first, before the given column; an
empty run is no token. -/
def ofPending (column : Nat) (pending : List Char) : List Token :=
  if pending.isEmpty then []
  else [⟨String.ofList pending.reverse, column - pending.length⟩]

/-- Scans code from the given column on. -/
def scan (column : Nat) (pending : List Char) : List Char → List Token
  | [] => ofPending column pending
  | c :: rest =>
    if Text.isSeparator c then ofPending column pending ++ scan (column + 1) [] rest
    else scan (column + 1) (c :: pending) rest

/-- The tokens of a line. -/
def ofLine (line : List Char) : List Token := scan 1 [] (Text.dropComment line)

end Token

/-! ### Statements -/

namespace Assembly

/-- The directive that puts down a word as it is. -/
def wordDirective : String := ".word"

/-- What a statement begins with. -/
inductive Head
  /-- The directive for a raw word. -/
  | word
  /-- A mnemonic. -/
  | instruction (i : Instruction)
  deriving DecidableEq, Repr

namespace Head

/-- The name of a head, as messages show it. -/
def name : Head → String
  | word => wordDirective
  | instruction i => i.mnemonic

/-- The number of operands that a head asks for. -/
def arity : Head → Nat
  | word => 1
  | instruction i => i.immediates

/-- The number of words that a statement with this head takes up. -/
def size : Head → Nat
  | word => 1
  | instruction i => i.size

/-- The words that come before those of the operands. -/
def opcodes : Head → List Word
  | word => []
  | instruction i => [i.opcode]

/-- The head that a token names. Only the case of ASCII letters is ignored. -/
def ofText? (text : String) : Option Head :=
  if text.toList.map Char.toLower = wordDirective.toList then some word
  else (Instruction.ofMnemonic? text).map instruction

end Head

/-- A statement, with as many operands as its head asks for. -/
structure Statement where
  /-- The line it stands on. -/
  line : Nat
  /-- What it begins with. -/
  head : Head
  /-- Its operands, not looked at yet. -/
  operands : List Token
  deriving DecidableEq, Repr

/-- Reads a statement off the tokens it is made of. -/
def Statement.ofTokens (line : Nat) (head : Token) (operands : List Token) :
    Except Error Statement :=
  match Head.ofText? head.text with
  | none => .error (.badStatement line head.column (Error.unknownMnemonic head.text).message)
  | some h =>
    if operands.length = h.arity then .ok ⟨line, h, operands⟩
    else
      .error (.badStatement line head.column
        (Error.operandCount h.name h.arity operands.length).message)

/-- The definition of a label, which may have any name as yet. -/
structure Label where
  name : String
  column : Nat
  deriving DecidableEq, Repr

/-- The label that a token defines, if it ends with a colon and is not a mere colon. -/
def Label.ofToken? (t : Token) : Option Label :=
  let cs := t.text.toList
  if 1 < cs.length ∧ cs.getLast? = some ':' then some ⟨String.ofList cs.dropLast, t.column⟩
  else none

/-- Whether a name may be given to a label: a letter or an underscore, then letters,
digits and underscores, all of them ASCII. -/
def isLabelName (name : String) : Bool :=
  match name.toList with
  | [] => false
  | c :: rest => (c.isAlpha || c == '_') && rest.all fun d => d.isAlphanum || d == '_'

/-- A line of source, taken apart. -/
structure Line where
  /-- The number of the line, counted from one. -/
  number : Nat
  /-- The labels defined in front of the statement. -/
  labels : List Label
  /-- The tokens of the statement, if there are any. -/
  body : List Token
  deriving DecidableEq, Repr

namespace Line

/-- Separates the label definitions in front from the rest of the tokens. -/
def split : List Token → List Label × List Token
  | [] => ([], [])
  | t :: rest =>
    match Label.ofToken? t with
    | some label =>
      let (labels, body) := split rest
      (label :: labels, body)
    | none => ([], t :: rest)

/-- The line with the given number and tokens. -/
def ofTokens (number : Nat) (tokens : List Token) : Line :=
  let (labels, body) := split tokens
  ⟨number, labels, body⟩

/-- The lines of a source text. -/
def ofSource (source : String) : List Line :=
  ((Text.lines source.toList).zipIdx 1).map fun (line, number) =>
    ofTokens number (Token.ofLine line)

/-- The statement of a line, if there is one. -/
def statement? (l : Line) : Except Error (Option Statement) :=
  match l.body with
  | [] => .ok none
  | head :: operands => (Statement.ofTokens l.number head operands).map some

end Line

end Assembly

end StackMachine
