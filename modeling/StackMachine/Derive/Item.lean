/-!
# Items and their code

Generated code is a flat sequence of **code tokens**: words, single marks, and
literals. Delimiters are marks like the others, and a mark of several characters is
several marks, so nothing about spacing or nesting has to be kept.

The types for which a display can be derived. An **item** is an enumeration with
its variants, a structure or a union; it may have generic parameters and
constraints on them. What a variant or a structure is to be displayed as, it says
in an attribute:

```text
#[error("stack underflow at ip {ip}")]
```

An attribute has a path and a payload, and a payload is nothing, a value after an
equals sign, or a parenthesised sequence of tokens.
-/

namespace StackMachine

namespace Derive

/-! ### Code tokens -/

/-- A token of generated code. -/
inductive CodeToken
  /-- An identifier or a keyword. -/
  | word (name : String)
  /-- A punctuation character or a delimiter. -/
  | mark (c : Char)
  /-- A string literal with the given value. -/
  | literal (value : String)
  /-- An integer literal. -/
  | integer (value : Nat)
  deriving DecidableEq, Repr

namespace CodeToken

/-- The marks that the characters of a text make. -/
def marks (text : String) : List CodeToken := text.toList.map mark

/-- A path of words, from the root when asked for. -/
def path (rooted : Bool) (names : List String) : List CodeToken :=
  (if rooted then marks "::" else []) ++ (marks "::").intercalate (names.map fun n => [word n])

/-- Sequences with commas between them. -/
def commaSeparated (items : List (List CodeToken)) : List CodeToken :=
  [mark ','].intercalate items

end CodeToken

/-! ### Items -/

/-- What an attribute has besides its path. -/
inductive Payload
  /-- Nothing, as in `#[a]`. -/
  | bare
  /-- A value, as in `#[a = 1]`. -/
  | assigned (tokens : List CodeToken)
  /-- Arguments, as in `#[a(1)]`. -/
  | arguments (tokens : List CodeToken)
  deriving DecidableEq, Repr

/-- An attribute of an item or a variant. -/
structure Attribute where
  path : List String
  payload : Payload
  deriving DecidableEq, Repr

/-- The fields of a variant or a structure. -/
inductive Shape
  /-- No fields, and no delimiters for any. -/
  | unit
  /-- Fields without names. -/
  | tuple (count : Nat)
  /-- Fields with names. -/
  | named (names : List String)
  deriving DecidableEq, Repr

/-- A variant of an enumeration. -/
structure Variant where
  name : String
  attributes : List Attribute
  shape : Shape
  deriving DecidableEq, Repr

/-- A generic parameter. -/
inductive Parameter
  /-- A lifetime. -/
  | lifetime (name : String)
  /-- A type with its bounds, and the type it stands for when none is given. -/
  | type (name : String) (bounds : List String) (default : Option String)
  /-- A constant that counts something. -/
  | constant (name : String)
  deriving DecidableEq, Repr

/-- A requirement that a type satisfies a bound. -/
structure Constraint where
  subject : String
  bound : String
  deriving DecidableEq, Repr

/-- What kind of type an item is. -/
inductive Body
  | enumeration (variants : List Variant)
  | record (shape : Shape)
  | union (shape : Shape)
  deriving DecidableEq, Repr

/-- A type for which a display can be derived. -/
structure Item where
  name : String
  attributes : List Attribute
  parameters : List Parameter
  constraints : List Constraint
  body : Body
  deriving DecidableEq, Repr

end Derive

end StackMachine
