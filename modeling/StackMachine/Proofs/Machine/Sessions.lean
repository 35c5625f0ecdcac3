import StackMachine.Command.Outcome
import StackMachine.Machine.Session
import StackMachine.Proofs.Machine.Runs

/-!
# A session is a run that is told about

A session takes the turns that its machine would take alone, and tells its sink the texts
of the events, each as it happens. So there is nothing to know about a session but the run
of its machine and what its sink makes of a text, `StackMachine.Sink.put`; the journal may
hold anything before, and whatever is logged during the run goes nowhere else.

The relation between the two is `StackMachine.Session.Tells`. A turn keeps it
(`StackMachine.Session.Tells.absorb`), and so does any number of turns
(`StackMachine.Session.tells_run`). The induction on the turns is the same for whatever else
a turn may keep, and is done once, in `StackMachine.Session.run_of_start`.
-/

namespace StackMachine

/-! ### Sinks -/

/-- What a sink is after it was handed a text. One that does not keep texts stays as it
is. -/
def Sink.put : Sink → String → Sink
  | .buffer texts, text => .buffer (texts.push text)
  | .stdout written, text => .stdout (written ++ text ++ "\n")
  | .log, _ => .log
  | .discard, _ => .discard

/-- A buffer keeps all texts, in order. -/
theorem Sink.foldl_put_buffer (texts : List String) (kept : Array String) :
    texts.foldl Sink.put (.buffer kept) = .buffer (kept ++ texts.toArray) := by
  induction texts generalizing kept with
  | nil => simp
  | cons text texts ih =>
    rw [List.foldl_cons, put, ih]
    simp

/-- The standard output gets a line for each text. -/
theorem Sink.foldl_put_stdout (texts : List String) (written : String) :
    texts.foldl Sink.put (.stdout written) = .stdout (written ++ Command.textOfLines texts) := by
  induction texts generalizing written with
  | nil => simp [Command.textOfLines]
  | cons text texts ih =>
    rw [List.foldl_cons, put, ih]
    simp [Command.textOfLines, String.append_assoc]

namespace Session

variable {s : Session} {sink : Sink} {r : Run} {n : Nat}

@[simp] theorem machine_emit (s : Session) (text : String) : (s.emit text).machine = s.machine := by
  rw [emit]
  split <;> rfl

@[simp] theorem sink_emit (s : Session) (text : String) :
    (s.emit text).sink = s.sink.put text := by
  rw [emit]
  split <;> simp only [Sink.put, *]

@[simp] theorem machine_report (s : Session) (event : Event) :
    (s.report event).machine = s.machine := by
  rcases event with _ | _ | _ | _ <;> exact machine_emit _ _

@[simp] theorem sink_report (s : Session) (event : Event) :
    (s.report event).sink = s.sink.put event.text := by
  rcases event with _ | _ | _ | _ <;> exact sink_emit _ _

@[simp] theorem machine_conclude (s : Session) (result : Result) :
    (s.conclude result).machine = s.machine := by
  rcases result with _ | _ <;> rfl

@[simp] theorem sink_conclude (s : Session) (result : Result) :
    (s.conclude result).sink = s.sink := by
  rcases result with _ | _ <;> rfl

/-! ### Turns -/

/-- What a session takes over from a turn. -/
theorem absorb_eq (s : Session) (t : Turn) :
    (s.absorb t).1 = t.result ∧ (s.absorb t).2.machine = t.machine ∧
      (s.absorb t).2.sink = (t.event.toList.map Event.text).foldl Sink.put s.sink := by
  obtain ⟨machine, event, result⟩ := t
  rw [absorb]
  rcases result with _ | result <;> rcases event with _ | event <;> simp

/-- **The session tells about the run**: its machine is that of the run, and its sink has
been handed the texts of the events. -/
structure Tells (sink : Sink) (r : Run) (s : Session) : Prop where
  machine : s.machine = r.machine
  sink : s.sink = (r.events.toList.map Event.text).foldl Sink.put sink

/-- A session that absorbs a turn of its machine tells about the run with this turn. -/
theorem Tells.absorb (h : Tells sink r s) :
    (s.absorb s.machine.turn).1 = r.next.result ∧
      Tells sink r.next (s.absorb s.machine.turn).2 := by
  obtain ⟨hresult, hmachine, hsink⟩ := absorb_eq s s.machine.turn
  rw [h.machine] at hresult hmachine hsink ⊢
  refine ⟨hresult, hmachine, ?_⟩
  rw [hsink, h.sink, Run.next, Array.toList_append, Option.toList_toArray, List.map_append,
    List.foldl_append]

/-- **What every turn keeps is kept by any number of turns**, and then the session goes on
exactly as long as the run. -/
theorem advance_of_absorb {I : Run → Session → Prop}
    (hturn : ∀ r s, r.result = none → I r s →
      (s.absorb s.machine.turn).1 = r.next.result ∧ I r.next (s.absorb s.machine.turn).2)
    (h : I r s) (hgoing : r.result = none) (n : Nat) :
    (s.advance n).1 = (r.advance n).result ∧ I (r.advance n) (s.advance n).2 := by
  induction n generalizing s r with
  | zero => exact ⟨hgoing.symm, h⟩
  | succ n ih =>
    obtain ⟨hresult, hkept⟩ := hturn r s hgoing h
    have hrun : r.advance (n + 1) = r.next.advance n := by
      rw [Run.advance, hgoing]
      rfl
    rw [Session.advance, hrun]
    rcases hs : s.absorb s.machine.turn with ⟨_ | result, s'⟩
    · rw [hs] at hresult hkept
      exact ih hkept hresult.symm
    · rw [hs] at hresult hkept
      have hend : r.next.result.isSome = true := by rw [← hresult, Option.isSome_some]
      rw [Run.advance_of_ended hend]
      exact ⟨hresult, hkept⟩

/-- **What holds at the start and is kept by every turn holds of the whole run.** -/
theorem run_of_start {I : Run → Session → Prop}
    (hturn : ∀ r s, r.result = none → I r s →
      (s.absorb s.machine.turn).1 = r.next.result ∧ I r.next (s.absorb s.machine.turn).2)
    (hstart : s.start.1 = r.result ∧ I r s.start.2) (n : Nat) :
    (s.run n).1 = (r.advance n).result ∧ I (r.advance n) (s.run n).2 := by
  obtain ⟨hresult, hkept⟩ := hstart
  rw [run]
  rcases hs : s.start with ⟨_ | result, s'⟩
  · rw [hs] at hresult hkept
    exact advance_of_absorb hturn hkept hresult.symm n
  · rw [hs] at hresult hkept
    have hend : r.result.isSome = true := by rw [← hresult, Option.isSome_some]
    rw [Run.advance_of_ended hend]
    exact ⟨hresult, hkept⟩

/-- The start of a session is the start of the run. -/
theorem tells_start (s : Session) :
    s.start.1 = (Run.start s.machine).result ∧ Tells s.sink (Run.start s.machine) s.start.2 := by
  rw [start, Run.start]
  split
  · refine ⟨(absorb_eq _ _).1, (absorb_eq _ _).2.1, ?_⟩
    rw [Option.toList_toArray]
    exact (absorb_eq _ _).2.2
  · exact ⟨rfl, rfl, rfl⟩

/-- **A session tells about the run of its machine**, whatever its sink and its journal. -/
theorem tells_run (s : Session) (n : Nat) :
    (s.run n).1 = ((Run.start s.machine).advance n).result ∧
      Tells s.sink ((Run.start s.machine).advance n) (s.run n).2 :=
  run_of_start (fun _ _ _ h => h.absorb) (tells_start s) n

end Session

end StackMachine
