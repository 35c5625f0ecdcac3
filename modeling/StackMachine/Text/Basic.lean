/-!
# Text

How text is taken apart, and how it is set in columns.

A line feed ends a **line**, and a carriage return right before it belongs to the
ending. What follows the last line feed is a line too, unless it is empty; a
carriage return at its end is one of its characters, for no line feed follows.

Between tokens stand **blanks**. A blank is any character with the Unicode property
`White_Space`, which is more than the ASCII blanks: the no-break spaces, the
typographic spaces and the line and paragraph separators are all in the table below.
Between tokens a comma does as well as a blank. A `#` begins a comment, which goes to
the end of its line.

A **field** has a width, and text that is narrower is filled up with blanks on the
side that the alignment leaves open. Text that is wider than its field is never cut.
Widths count characters.
-/

namespace StackMachine

namespace Text

/-! ### Lines -/

/-- A terminated line without the carriage return of its ending. -/
def dropReturn (line : List Char) : List Char :=
  if line.getLast? = some '\r' then line.dropLast else line

/-- The lines of a text. -/
def lines (text : List Char) : List (List Char) :=
  let pieces := text.splitOn '\n'
  pieces.dropLast.map dropReturn ++ (pieces.getLast?.filter (!·.isEmpty)).toList

/-! ### Blanks, separators and comments -/

/-- The code points with the property `White_Space`, as closed ranges. -/
def blankRanges : List (Nat × Nat) :=
  [(0x09, 0x0D), (0x20, 0x20), (0x85, 0x85), (0xA0, 0xA0), (0x1680, 0x1680), (0x2000, 0x200A),
    (0x2028, 0x2029), (0x202F, 0x202F), (0x205F, 0x205F), (0x3000, 0x3000)]

/-- Whether a character is a blank. -/
def isBlank (c : Char) : Bool :=
  blankRanges.any fun range => decide (range.1 ≤ c.toNat) && decide (c.toNat ≤ range.2)

/-- Whether a character separates tokens. -/
def isSeparator (c : Char) : Bool := c == ',' || isBlank c

/-- A line up to its comment. -/
def dropComment (line : List Char) : List Char := line.takeWhile (· != '#')

/-- Text without the blanks at its end. -/
def trimEnd (text : String) : String :=
  String.ofList (text.toList.reverse.dropWhile isBlank).reverse

end Text

/-! ### Columns -/

/-- Where text stands in a field that is wider than the text. -/
inductive Alignment
  | left
  | right
  | center
  deriving DecidableEq, Repr

namespace Text

/-- A run of blanks. -/
def blanks (n : Nat) : String := String.ofList (List.replicate n ' ')

/-- Fills text up to a width. Centred text that cannot stand in the middle stands
one column to the left of it. -/
def pad (alignment : Alignment) (width : Nat) (text : String) : String :=
  let gap := width - text.length
  match alignment with
  | .left => text ++ blanks gap
  | .right => blanks gap ++ text
  | .center => blanks (gap / 2) ++ text ++ blanks (gap - gap / 2)

/-- A number in decimal, filled up with zeros to a number of digits. -/
def zeroPadded (width n : Nat) : String :=
  String.ofList ((Nat.toDigits 10 n).leftpad width '0')

end Text

end StackMachine
