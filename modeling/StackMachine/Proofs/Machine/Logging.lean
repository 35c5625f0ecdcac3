import StackMachine.Proofs.Machine.Sessions

/-!
# What a session logs

A run is remarked on at three places – where it begins, at a word that is no opcode, and
where it ends – and a log that is a sink gets a message for every event besides. Two sources
write to one journal, then, and a remark for debugging even asks the journal twice whether it
is wanted. All the same there is nothing to a level but this: it drops messages.

The reason is that the messages of a run are fixed before anybody decides which of them to
keep. They are the **chronicle** of the run (`StackMachine.Program.chronicle`), which knows
the program, its limits and the sink, but no journal; and whatever a session does to its
journal is to log, in order, the next messages of the chronicle
(`StackMachine.Session.Reports`). A journal that is handed messages keeps those that its
threshold lets through (`StackMachine.Journal.messages_logAll`), and the lowest threshold lets
through all of them.

* `StackMachine.Session.reports_run` – a session logs the chronicle of its run;
* `StackMachine.Program.loggedAt` – **logging changes nothing, and levels only filter**.
-/

namespace StackMachine

/-! ### Journals -/

namespace Journal

/-- A remark for debugging is logged like any other: the two checks are one. -/
theorem debug_eq (j : Journal) (text : Unit → String) :
    j.debug text = j.log .debug (text ()) := by
  rw [debug, log]
  split <;> rfl

/-- The journal after messages were handed to it, one after the other. -/
def logAll (j : Journal) (messages : List Message) : Journal :=
  messages.foldl (fun j m => j.log m.level m.text) j

theorem logAll_append (j : Journal) (ms ms' : List Message) :
    j.logAll (ms ++ ms') = (j.logAll ms).logAll ms' :=
  List.foldl_append

@[simp] theorem enabled_log (j : Journal) (level : Level) (text : String) :
    (j.log level text).enabled = j.enabled := by
  rw [log]
  split <;> rfl

theorem messages_log (j : Journal) (level : Level) (text : String) :
    (j.log level text).messages.toList =
      j.messages.toList ++ [⟨level, text⟩].filter (j.enabled ·.level) := by
  rw [log]
  rcases h : j.enabled level with _ | _ <;> simp [h]

/-- **A journal keeps of the messages those that its threshold lets through**, in order. -/
theorem messages_logAll (j : Journal) (ms : List Message) :
    (j.logAll ms).messages.toList = j.messages.toList ++ ms.filter (j.enabled ·.level) := by
  induction ms generalizing j with
  | nil => simp [logAll]
  | cons m ms ih =>
    change ((j.log m.level m.text).logAll ms).messages.toList = _
    rw [ih, messages_log, enabled_log, List.append_assoc, ← List.filter_append]
    rfl

end Journal

/-! ### The chronicle of a run -/

/-- The message with which a run begins. -/
def Program.announcement (p : Program) (c : Config) : Message :=
  ⟨.debug, s!"vm: run start ({p.size} words, " ++
    s!"stack {c.stackCapacity}, frames {c.frameCapacity})"⟩

/-- The remarks on an event: one on the word, if it is no opcode. -/
def Event.remarks : Event → List Message
  | .invalid word offset => [⟨.debug, "vm: invalid opcode " ++ word.hex ++ s!" at ip {offset}"⟩]
  | _ => []

/-- The messages that a sink makes of an event: one if it is the log. -/
def Sink.messages : Sink → Event → List Message
  | .log, event => [⟨.info, "vm: " ++ event.text⟩]
  | _, _ => []

/-- The message with which a run ends that has counted so many steps. -/
def Result.remark (steps : Nat) : Result → Message
  | .ok () => ⟨.debug, s!"vm: halted after {steps} instructions"⟩
  | .error fault => ⟨.warn, s!"vm: faulted after {steps} instructions: " ++ fault.message⟩

/-- The messages about a run since it has begun: those about its events, in order, and at the
end the one about its result. -/
def Run.messages (r : Run) (sink : Sink) : List Message :=
  (r.events.toList.flatMap fun event => event.remarks ++ sink.messages event) ++
    (r.result.map (Result.remark r.machine.steps)).toList

/-- **The chronicle of a run**, after so many turns: all there is to say about it. -/
def Program.chronicle (p : Program) (c : Config) (sink : Sink) (n : Nat) : List Message :=
  p.announcement c :: (p.run c n).messages sink

/-- A sink stays what it is. -/
theorem Sink.messages_put (sink : Sink) (text : String) :
    (sink.put text).messages = sink.messages := by
  rcases sink with _ | _ | _ | _ <;> rfl

theorem Sink.messages_foldl_put (sink : Sink) (texts : List String) :
    (texts.foldl Sink.put sink).messages = sink.messages := by
  induction texts generalizing sink with
  | nil => rfl
  | cons text texts ih => rw [List.foldl_cons, ih, messages_put]

/-- The messages about one turn more. -/
theorem Run.messages_next {r : Run} (hgoing : r.result = none) (sink : Sink) :
    r.next.messages sink = r.messages sink ++
      ((r.machine.turn.event.toList.flatMap fun event => event.remarks ++ sink.messages event) ++
        (r.machine.turn.result.map (Result.remark r.machine.turn.machine.steps)).toList) := by
  rw [messages, messages, next, hgoing]
  simp

/-! ### Sessions -/

namespace Session

variable {s : Session} {before : Sink} {r : Run} {j : Journal}

theorem journal_debug (s : Session) (text : Unit → String) :
    (s.debug text).journal = s.journal.log .debug (text ()) :=
  Journal.debug_eq _ _

theorem journal_emit (s : Session) (event : Event) :
    (s.emit event.text).journal = s.journal.logAll (s.sink.messages event) := by
  rw [emit]
  split <;> simp only [*] <;> rfl

theorem journal_report (s : Session) (event : Event) :
    (s.report event).journal = s.journal.logAll (event.remarks ++ s.sink.messages event) := by
  rcases event with _ | _ | _ | ⟨word, offset⟩
  · exact s.journal_emit .nop
  · exact s.journal_emit .halt
  · exact s.journal_emit (.printed _)
  · rw [report, journal_emit, journal_debug]
    rfl

theorem journal_conclude (s : Session) (result : Result) :
    (s.conclude result).journal = s.journal.logAll [result.remark s.machine.steps] := by
  rcases result with _ | _
  · rfl
  · exact s.journal_debug _

/-- **What a turn adds to the journal**: the messages about its event, then the one about its
result. -/
theorem journal_absorb (s : Session) (t : Turn) :
    (s.absorb t).2.journal = s.journal.logAll
      ((t.event.toList.flatMap fun event => event.remarks ++ s.sink.messages event) ++
        (t.result.map (Result.remark t.machine.steps)).toList) := by
  obtain ⟨machine, event, result⟩ := t
  rw [absorb, Journal.logAll_append]
  rcases result with _ | result <;> rcases event with _ | event <;>
    simp [journal_report, journal_conclude, Journal.logAll]

/-- **The session reports on the run**: it tells its sink of it, and has logged the messages
about it since the journal was as given. -/
structure Reports (before : Sink) (j : Journal) (r : Run) (s : Session) : Prop
    extends Tells before r s where
  journal : s.journal = j.logAll (r.messages before)

/-- A turn is reported on like the run before it. -/
theorem Reports.absorb (h : Reports before j r s) (hgoing : r.result = none) :
    (s.absorb s.machine.turn).1 = r.next.result ∧
      Reports before j r.next (s.absorb s.machine.turn).2 := by
  obtain ⟨hresult, htells⟩ := h.toTells.absorb
  refine ⟨hresult, htells, ?_⟩
  rw [journal_absorb, h.journal, h.machine, h.sink, Sink.messages_foldl_put,
    Run.messages_next hgoing, ← Journal.logAll_append]

/-- **A session reports on the run of its program** once it has announced it. -/
theorem reports_run (p : Program) (c : Config) (sink : Sink) (j : Journal) (n : Nat) :
    let s : Session := ⟨.load p c, sink, j⟩
    (s.run n).1 = (p.run c n).result ∧
      Reports sink (j.logAll [p.announcement c]) (p.run c n) (s.run n).2 := by
  intro s
  refine run_of_start (fun _ _ hgoing h => h.absorb hgoing) ?_ n
  obtain ⟨hresult, htells⟩ := tells_start s
  refine ⟨hresult, htells, ?_⟩
  have hrun : Run.start (Machine.load p c) = ⟨(Machine.load p c).enter.machine,
      (Machine.load p c).enter.event.toArray, (Machine.load p c).enter.result⟩ := rfl
  change (absorb _ (Machine.load p c).enter).2.journal = _
  rw [journal_absorb, journal_debug, hrun, Run.messages, Option.toList_toArray]
  rfl

end Session

/-! ### Levels -/

namespace Program

/-- A session that is about to run the program, with an empty journal of the given level. -/
def session (p : Program) (c : Config) (sink : Sink) (level : Level) : Session :=
  ⟨.load p c, sink, { threshold := level }⟩

/-- The messages that such a session has logged after so many turns. -/
def logged (p : Program) (c : Config) (sink : Sink) (level : Level) (n : Nat) : List Message :=
  ((p.session c sink level).run n).2.journal.messages.toList

/-- The messages logged are those of the chronicle that the level lets through. -/
theorem logged_eq (p : Program) (c : Config) (sink : Sink) (level : Level) (n : Nat) :
    p.logged c sink level n =
      (p.chronicle c sink n).filter fun m => decide (level.rank ≤ m.level.rank) := by
  obtain ⟨-, hreports⟩ := Session.reports_run p c sink { threshold := level } n
  rw [logged, session, hreports.journal, ← Journal.logAll_append, Journal.messages_logAll]
  rfl

/-- **What logging has to do with a run**, after any number of its turns. -/
structure LoggedAt (p : Program) (c : Config) (n : Nat) : Prop where
  /-- The result and the machine – its status, pointer, count, operands and variables – are
  the same with any sink and any level. -/
  execution : ∀ sink sink' level level',
    ((p.session c sink level).run n).1 = ((p.session c sink' level').run n).1 ∧
      ((p.session c sink level).run n).2.machine = ((p.session c sink' level').run n).2.machine
  /-- What is written to the standard output is what a buffer keeps, a line each. -/
  lines : ∃ texts : List String, ∀ level level',
    ((p.session c (.buffer #[]) level).run n).2.sink = .buffer texts.toArray ∧
      ((p.session c (.stdout "") level').run n).2.sink = .stdout (Command.textOfLines texts)
  /-- At the lowest level the messages are the chronicle of the run. -/
  chronicle : ∀ sink, p.logged c sink .debug n = p.chronicle c sink n
  /-- At any other level they are those of them that are at least of this level. -/
  filtered : ∀ sink level, p.logged c sink level n =
    (p.logged c sink .debug n).filter fun m => decide (level.rank ≤ m.level.rank)

/-- **Logging changes nothing, and levels only filter**, whatever the program and its limits,
and however long it runs. -/
theorem loggedAt (p : Program) (c : Config) (n : Nat) : p.LoggedAt c n := by
  have hchronicle (sink : Sink) : p.logged c sink .debug n = p.chronicle c sink n := by
    rw [logged_eq, List.filter_eq_self]
    exact fun m _ => decide_eq_true (Nat.zero_le _)
  refine ⟨fun sink sink' level level' => ?_, ?_, hchronicle, fun sink level => ?_⟩
  · obtain ⟨hresult, hreports⟩ := Session.reports_run p c sink { threshold := level } n
    obtain ⟨hresult', hreports'⟩ := Session.reports_run p c sink' { threshold := level' } n
    exact ⟨hresult.trans hresult'.symm, hreports.machine.trans hreports'.machine.symm⟩
  · refine ⟨(p.run c n).events.toList.map Event.text, fun level level' => ⟨?_, ?_⟩⟩
    · obtain ⟨-, hreports⟩ := Session.reports_run p c (.buffer #[]) { threshold := level } n
      rw [session, hreports.sink, Sink.foldl_put_buffer, Array.empty_append]
    · obtain ⟨-, hreports⟩ := Session.reports_run p c (.stdout "") { threshold := level' } n
      rw [session, hreports.sink, Sink.foldl_put_stdout, String.empty_append]
  · rw [logged_eq, hchronicle]

end Program

end StackMachine
