import StackMachine.Command.Runner
import StackMachine.Proofs.Files.Load
import StackMachine.Proofs.Machine.Sessions

/-!
# What the runner answers

The answer of a command is its exit code and what it has written to the standard output;
the messages are not part of it. That the two do not mix is the point of the runner's
logging, and here it is made precise: whatever is logged before, during and after a run,
and whether the command is asked to be quiet, the run answers what its program does under
its limits, `StackMachine.Program.answer?`.

A command is done before the run, or it has a session to run then, and there is nothing
between what it has prepared and its answer but that
(`StackMachine.Command.Runner.answer?_of_finished`,
`StackMachine.Command.Runner.answer?_of_session`).
-/

namespace StackMachine

/-! ### Answers -/

/-- **What a command answers**: the exit code and the standard output. -/
def Command.Outcome.answer (o : Command.Outcome) : Nat × String := (o.exitCode, o.stdout)

/-- The exit code that a run ends with. -/
def Result.exitCode : Result → Nat
  | .ok () => 0
  | .error _ => 1

/-- **What a program answers**, when it is listed or run within so many turns. There is no
answer as long as the run is not over. -/
def Program.answer? (p : Program) (c : Config) (listing : Bool) (fuel : Nat) :
    Option (Nat × String) :=
  if listing then some (0, p.listing)
  else (p.run c fuel).result.map fun result =>
    (result.exitCode, Command.textOfLines ((p.run c fuel).events.toList.map Event.text))

namespace Command

namespace Runner

/-! ### The whole command -/

/-- The names that ask for help in the place of a file. -/
def helpNames : List String := ["-h", "--help"]

/-- **What the runner answers**, with the files of a file system. -/
def answer? (fs : FileSystem) (fuel : Nat) (program : String) (arguments : List String) :
    Option (Nat × String) :=
  ((run FileSystem.host fuel program arguments).run fs).1.map Outcome.answer

/-- The outcome of a session that is over answers what its run does. -/
theorem answer_conclude (p : Program) (c : Config) (journal : Journal) (fuel : Nat) :
    let s := (⟨.load p c, .stdout "", journal⟩ : Session).run fuel
    (s.1.map fun result => conclude result s.2).map Outcome.answer = p.answer? c false fuel := by
  intro s
  obtain ⟨hresult, -, hsink⟩ := Session.tells_run ⟨.load p c, .stdout "", journal⟩ fuel
  change s.1 = (p.run c fuel).result at hresult
  change s.2.sink =
    ((p.run c fuel).events.toList.map Event.text).foldl Sink.put (.stdout "") at hsink
  rw [Sink.foldl_put_stdout, String.empty_append] at hsink
  rw [Program.answer?, if_neg Bool.false_ne_true, ← hresult, Option.map_map]
  refine congrArg (Option.map · s.1) (funext fun result => ?_)
  rcases result with _ | _ <;> simp [conclude, Outcome.answer, Result.exitCode, hsink]

variable {fs : FileSystem} {program : String} {arguments : List String}

theorem answer?_of_finished {outcome : Outcome}
    (h : ((prepare FileSystem.host program arguments).run fs).1 = .finished outcome) (fuel : Nat) :
    answer? fs fuel program arguments = some outcome.answer := by
  rw [answer?, run, StateT.run_bind]
  rcases hp : (prepare FileSystem.host program arguments).run fs with ⟨prepared, fs'⟩
  rw [hp] at h
  subst h
  rfl

theorem answer?_of_session {s : Session}
    (h : ((prepare FileSystem.host program arguments).run fs).1 = .session s) (fuel : Nat) :
    answer? fs fuel program arguments =
      ((s.run fuel).1.map fun result => conclude result (s.run fuel).2).map Outcome.answer := by
  rw [answer?, run, StateT.run_bind]
  rcases hp : (prepare FileSystem.host program arguments).run fs with ⟨prepared, fs'⟩
  rw [hp] at h
  subst h
  rfl

end Runner

end Command

end StackMachine
