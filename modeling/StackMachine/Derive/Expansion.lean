import StackMachine.Derive.Item
import StackMachine.Text.Numeral

/-!
# The derived display

From an item to the code that displays it. Every variant – or the structure itself
– gives one **arm**: a pattern that binds the fields, and the message written with
these bindings as its arguments. The arms are found first, since finding them is
what can fail, and are written out afterwards.

A message may refer to the fields of a tuple by position. The generated code passes
the fields by name, the field at position `n` as `f` followed by `n`, so a
placeholder that refers to a position has to get that letter. This is all that
happens to a message: a letter is inserted after some opening braces, and every
other character stays where it is. A brace opens a placeholder unless another one
follows it at once, in which case the two stand for one plain brace. The placeholder
is positional when digits follow and then its end, or the colon before its format; it
is renamed when there is a field at that position.

* `StackMachine.Derive.renamePositional` – the message with its placeholders renamed;
* `StackMachine.Derive.Item.arms` – the arms, or the first problem;
* `StackMachine.Derive.Item.expand` – the whole generated code.
-/

namespace StackMachine

namespace Derive

/-! ### Positional placeholders -/

/-- Whether the text after an opening brace refers to one of `count` positions. -/
def refersToField (count : Nat) (text : List Char) : Bool :=
  let after := text.dropWhile Char.isDigit
  match Numeral.digits? 10 (text.takeWhile Char.isDigit) with
  | some position =>
    decide (position < count) && (after.head? == some '}' || after.head? == some ':')
  | none => false

/-- Renames the positional placeholders for `count` fields. -/
def renamePlaceholders (count : Nat) : List Char → List Char
  | '{' :: '{' :: rest => '{' :: '{' :: renamePlaceholders count rest
  | '{' :: rest =>
    if refersToField count rest then '{' :: 'f' :: renamePlaceholders count rest
    else '{' :: renamePlaceholders count rest
  | c :: rest => c :: renamePlaceholders count rest
  | [] => []

/-- The message with its positional placeholders renamed for `count` fields. -/
def renamePositional (message : String) (count : Nat) : String :=
  String.ofList (renamePlaceholders count message.toList)

/-! ### Arms -/

/-- Why no display can be derived. -/
inductive Problem
  /-- There is no message attribute. -/
  | missing
  /-- The message attribute has no arguments. -/
  | withoutArguments
  /-- The arguments are not a single string literal. -/
  | notOneString
  /-- The item is a union. -/
  | unsupported
  deriving DecidableEq, Repr

/-- The message of a problem. -/
def Problem.message : Problem → String
  | missing => "missing #[error(\"...\")] attribute; every variant needs a display message"
  | withoutArguments => "expected #[error(\"message\")]"
  | notOneString =>
    "#[error] takes a single string literal, e.g. " ++
      "#[error(\"stack underflow at ip \x7bip\x7d\")]"
  | unsupported => "#[derive(Error)] is only supported on enums and structs"

/-- The message in a list of attributes. Only the first attribute whose path is the
single word `error` counts, whatever comes after it. -/
def messageOf (attributes : List Attribute) : Except Problem String :=
  match attributes.find? (·.path == ["error"]) with
  | none => .error .missing
  | some a =>
    match a.payload with
    | .arguments [.literal message] => .ok message
    | .arguments _ => .error .notOneString
    | _ => .error .withoutArguments

/-- The names that a pattern gives to the fields. -/
def Shape.bindings : Shape → List String
  | unit => []
  | tuple count => (List.range count).map fun n => "f" ++ toString n
  | named names => names

/-- The message as the generated code writes it, with the bindings for the fields. -/
def Shape.adaptMessage (message : String) : Shape → String
  | tuple count => renamePositional message count
  | _ => message

/-- One case of the display. -/
structure Arm where
  /-- The variant it is for; a structure has none. -/
  variant : Option String
  /-- The fields that the pattern binds. -/
  shape : Shape
  /-- The message as given. -/
  message : String
  deriving DecidableEq, Repr

namespace Item

/-- The arms of an item, or the first problem in the order of the variants. -/
def arms (item : Item) : Except Problem (List Arm) :=
  match item.body with
  | .enumeration variants =>
    variants.mapM fun v => do return ⟨some v.name, v.shape, ← messageOf v.attributes⟩
  | .record shape => do return [⟨none, shape, ← messageOf item.attributes⟩]
  | .union _ => .error .unsupported

end Item

open CodeToken

namespace Arm

/-- The words that name the constructor. -/
def constructorTokens (a : Arm) : List CodeToken := path false ("Self" :: a.variant.toList)

/-- The pattern of an arm. -/
def patternTokens (a : Arm) : List CodeToken :=
  let names := commaSeparated (a.shape.bindings.map fun n => [word n])
  match a.shape with
  | .unit => a.constructorTokens
  | .tuple _ => a.constructorTokens ++ marks "(" ++ names ++ marks ")"
  | .named _ => a.constructorTokens ++ marks "\x7b" ++ names ++ marks "\x7d"

/-- The arguments of an arm: each binding under its own name. -/
def argumentTokens (a : Arm) : List CodeToken :=
  commaSeparated (a.shape.bindings.map fun n => [word n, mark '=', word n])

/-- What an arm does: it writes its message. Without fields there is nothing to pass
on, and the message is written as it is. -/
def actionTokens (a : Arm) : List CodeToken :=
  let text := literal (a.shape.adaptMessage a.message)
  match a.shape with
  | .unit =>
    [word "f", mark '.', word "write_fmt", mark '(', word "format_args", mark '!', mark '(', text,
      mark ')', mark ')']
  | _ =>
    [word "write", mark '!', mark '(', word "f", mark ',', text, mark ','] ++ a.argumentTokens ++
      [mark ')']

/-- The code of an arm. -/
def tokens (a : Arm) : List CodeToken :=
  a.patternTokens ++ marks "=>" ++ a.actionTokens ++ marks ","

end Arm

namespace Parameter

/-- A parameter where it is introduced, with its bounds and without its default. -/
def declaration : Parameter → List CodeToken
  | lifetime name => [mark '\x27', word name]
  | type name bounds _ =>
    if bounds.isEmpty then [word name]
    else word name :: mark ':' :: [mark '+'].intercalate (bounds.map fun b => [word b])
  | constant name => [word "const", word name, mark ':', word "usize"]

/-- A parameter where it is used. -/
def use : Parameter → List CodeToken
  | lifetime name => [mark '\x27', word name]
  | type name _ _ => [word name]
  | constant name => [word name]

end Parameter

/-- A list in angle brackets, or nothing at all when it has no entries. -/
def bracketed (entries : List (List CodeToken)) : List CodeToken :=
  if entries.isEmpty then [] else marks "<" ++ commaSeparated entries ++ marks ">"

namespace Item

/-- The constraints of an item, or nothing at all when there are none. -/
def whereTokens (item : Item) : List CodeToken :=
  if item.constraints.isEmpty then []
  else word "where" :: commaSeparated (item.constraints.map fun c =>
    [word c.subject, mark ':', word c.bound])

/-- The head of an implementation of a trait for an item. -/
def implementationTokens (item : Item) (trait : List String) : List CodeToken :=
  word "impl" :: bracketed (item.parameters.map Parameter.declaration) ++ path true trait ++
    [word "for", word item.name] ++ bracketed (item.parameters.map Parameter.use) ++
    item.whereTokens

/-- The head of the function that displays a value. -/
def signatureTokens : List CodeToken :=
  marks "#[" ++ [word "allow", mark '(', word "unused_variables", mark ')', mark ']'] ++
    [word "fn", word "fmt", mark '(', mark '&', word "self", mark ',', word "f", mark ':', mark '&',
      word "mut"] ++ path true ["std", "fmt", "Formatter"] ++ marks "<'" ++ [word "_"] ++
    marks ">)->" ++ path true ["std", "fmt", "Result"]

/-- The code that displays an item with the given arms. -/
def code (item : Item) (arms : List Arm) : List CodeToken :=
  item.implementationTokens ["std", "fmt", "Display"] ++ marks "\x7b" ++ signatureTokens ++
    marks "\x7b" ++ [word "match", word "self"] ++ marks "\x7b" ++ arms.flatMap Arm.tokens ++
    marks "\x7d\x7d\x7d" ++ item.implementationTokens ["std", "error", "Error"] ++
    marks "\x7b\x7d"

/-- The generated code for an item. -/
def expand (item : Item) : Except Problem (List CodeToken) := do
  return item.code (← item.arms)

end Item

end Derive

end StackMachine
