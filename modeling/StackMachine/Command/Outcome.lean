import StackMachine.Log

/-!
# Outcomes of commands

What a command leaves behind, apart from the files it writes: an exit code, what it
wrote to the standard output, and what it wrote to the standard error. The last is
of two kinds, plain text and log messages, and no command mixes them: it gives
plain text only to say how it is used, before it has logged anything.
-/

namespace StackMachine

namespace Command

/-- What a command leaves behind. -/
structure Outcome where
  exitCode : Nat
  /-- The text on the standard output. -/
  stdout : String := ""
  /-- The plain text on the standard error. -/
  notice : String := ""
  /-- The messages logged to the standard error. -/
  messages : Array Message := #[]
  deriving Repr

namespace Outcome

/-- The text on the standard error, with messages in the given style and under the
given time. -/
def stderr (o : Outcome) (style : Style) (stamp : String) : String :=
  o.notice ++ style.renderAll stamp o.messages

end Outcome

/-- A text of several lines. -/
def textOfLines (lines : List String) : String :=
  String.join (lines.map (· ++ "\n"))

end Command

end StackMachine
