import StackMachine.Text.Basic

/-!
# The log

A message has a **level**, one of four, from the chattiest to the gravest. Each has a
**tag**, and a tag is set like any other field: cut to a precision if one is asked
for, then padded.

A **journal** keeps the messages that were logged, in order, and a threshold: a
message below the threshold is dropped when it is logged, not when it is shown, so
raising the threshold later does not remove what is already there.

Messages are kept as data. How one is shown is a matter of **style**: as a line with
the time that has passed, the tag of its level in brackets, and its text. Both fields
in front can be left out. A text of several lines has them on its first line only.
With colours, the line stands between two resets, and the first of them is followed
by the attributes of the level – intensity first, then the colour. The plain level
has no attributes, but still its two resets.
-/

namespace StackMachine

/-! ### Levels -/

/-- How grave a message is. -/
inductive Level
  | debug
  | info
  | warn
  | error
  deriving DecidableEq, Repr

namespace Level

/-- The place of a level in the order of gravity. -/
def rank : Level → Nat
  | debug => 0
  | info => 1
  | warn => 2
  | error => 3

/-- The name of a level in a log. -/
def tag : Level → String
  | debug => "DEBUG"
  | info => "INFO"
  | warn => "WARN"
  | error => "ERROR"

/-- The tag as a field: at most `precision` characters of it, padded to `width`. -/
def field (l : Level) (alignment : Alignment) (width : Nat) (precision : Option Nat) : String :=
  let shown := match precision with
    | none => l.tag
    | some n => String.ofList (l.tag.toList.take n)
  Text.pad alignment width shown

end Level

/-! ### Messages -/

/-- A logged message. -/
structure Message where
  level : Level
  text : String
  deriving DecidableEq, Repr

/-- The messages logged so far, and the lowest level that is kept. -/
structure Journal where
  threshold : Level := .info
  messages : Array Message := #[]
  deriving Repr

namespace Journal

/-- Whether a message of this level is kept. -/
def enabled (j : Journal) (level : Level) : Bool := decide (j.threshold.rank ≤ level.rank)

/-- Logs a message. -/
def log (j : Journal) (level : Level) (text : String) : Journal :=
  if j.enabled level then { j with messages := j.messages.push ⟨level, text⟩ } else j

/-- Logs a remark for debugging, whose text is made only when it is kept. -/
def debug (j : Journal) (text : Unit → String) : Journal :=
  if j.enabled .debug then j.log .debug (text ()) else j

/-- Logs the text of a trace event of the machine. -/
def trace (j : Journal) (text : String) : Journal := j.log .info ("vm: " ++ text)

/-- The journal after its messages have been shown. -/
def flush (j : Journal) : Journal := { j with messages := #[] }

end Journal

/-! ### How messages look -/

/-- Which parts of a message are shown. -/
structure Style where
  showElapsed : Bool := true
  showLevel : Bool := true
  colored : Bool := false
  deriving DecidableEq, Repr

/-- A time span as seconds, right-aligned to four columns, and milliseconds, cut
and not rounded. -/
def formatElapsed (seconds nanoseconds : Nat) : String :=
  Text.pad .right 4 (toString seconds) ++ "." ++ Text.zeroPadded 3 (nanoseconds / 1000000) ++ "s"

/-- A control sequence of a terminal. -/
def Style.control (code : String) : String := "\x1b[" ++ code ++ "m"

/-- The control sequences that set off a level. -/
def Level.attributes : Level → String
  | .debug => Style.control "2" ++ Style.control "36"
  | .info => ""
  | .warn => Style.control "1" ++ Style.control "33"
  | .error => Style.control "1" ++ Style.control "31"

namespace Style

/-- A message as it is shown; `stamp` is the text of the time that has passed. -/
def render (s : Style) (stamp : String) (m : Message) : String :=
  let elapsed := if s.showElapsed then stamp ++ " " else ""
  let tag := if s.showLevel then "[" ++ m.level.field .left 5 none ++ "] " else ""
  let line := elapsed ++ tag ++ m.text ++ "\n"
  if s.colored then control "0" ++ m.level.attributes ++ line ++ control "0" else line

/-- All messages of a journal, shown one after the other. -/
def renderAll (s : Style) (stamp : String) (messages : Array Message) : String :=
  messages.foldl (fun text m => text ++ s.render stamp m) ""

end Style

end StackMachine
