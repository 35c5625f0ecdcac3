import StackMachine.Assembly.Passes
import StackMachine.Log

/-!
# Diagnostics

An error with a place in a source text is shown the way compilers show them: the
explanation, the place, the line itself under a gutter with its number, and a caret
under the column. The errors about labels carry no column and are shown at the
first one. An error without a place is shown by its message alone, and so is the
place when the text has no such line.

The gutter is four columns wide and grows with the number; the gutter of the caret
stays as it is.
-/

namespace StackMachine

namespace Assembly

/-- A place in a source text, and what is wrong there. -/
structure Finding where
  line : Nat
  column : Nat
  explanation : String
  deriving DecidableEq, Repr

/-- The place of an error, when the error has one. -/
def Finding.ofError? : Error → Option Finding
  | .badStatement line column explanation => some ⟨line, column, explanation⟩
  | .malformedToken line column explanation => some ⟨line, column, explanation⟩
  | .duplicateLabel line label => some ⟨line, 1, "duplicate label: " ++ label⟩
  | .undefinedLabel line label => some ⟨line, 1, "undefined label: " ++ label⟩
  | _ => none

/-- A line without any carriage returns at its end. -/
def dropReturns (line : List Char) : List Char :=
  (line.reverse.dropWhile (· == '\r')).reverse

/-- The rows that show a line of the source, with a caret under a column. -/
def excerpt (number column : Nat) (line : List Char) : String :=
  "     |\n" ++
    Text.pad .right 4 (toString number) ++ " | " ++ String.ofList (dropReturns line) ++ "\n" ++
    "     | " ++ Text.blanks (column - 1) ++ "^\n"

/-- The diagnostic for an error in a source text of the given name. -/
def render (file source : String) (e : Error) : String :=
  match Finding.ofError? e with
  | none => "error: " ++ e.message ++ "\n"
  | some f =>
    let place := "error: " ++ f.explanation ++ "\n --> " ++ file ++ ":" ++ toString f.line ++
      ":" ++ toString f.column ++ "\n"
    match (Text.lines source.toList)[f.line - 1]? with
    | none => place
    | some line => place ++ excerpt f.line f.column line

/-- Assembles a source text of the given name, and logs the diagnostic when it is
refused. -/
def assembleLogged (journal : Journal) (name source : String) :
    Except Error Program × Journal :=
  match assemble source with
  | .ok program => (.ok program, journal)
  | .error e => (.error e, journal.log .error (Text.trimEnd (render name source e)))

end Assembly

end StackMachine
