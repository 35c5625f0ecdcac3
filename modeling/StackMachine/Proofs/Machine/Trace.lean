import StackMachine.Proofs.Machine.History
import StackMachine.Proofs.Machine.Sessions

/-!
# What a trace tells

The texts that a run hands to its sink are determined by the words it has dispatched, each
by itself: `StackMachine.traceText?` says which text a word leaves, if it leaves one. That
the *fate* of the word does not enter is the point of this. A `PRINT_I` that finds no
operand has no value to show, and nothing else that leaves a text can fail, so there is
nothing that could be shown before a fault and would have to be taken back.

A number never reads `HALT`, nor does any other text, so a trace also tells how the run
has ended: the text is missing as long as the run goes on, and is the last one once it has
halted (`StackMachine.Program.halt_in_trace`).

* `StackMachine.Program.trace` – the texts that the history of a run leaves;
* `StackMachine.Machine.text_turn` – one turn;
* `StackMachine.Program.traced_run` – **the trace law**, for a session with a buffer.
-/

namespace StackMachine

/-! ### The text of a dispatched word -/

/-- The text that an instruction leaves, by the operands that it finds. -/
def Instruction.text? (i : Instruction) (operands : List Word) : Option String :=
  match i with
  | nop => some "NOP"
  | halt => some "HALT"
  | print => operands.getLast?.map fun a => toString a.toInt
  | _ => none

/-- **The text that a word leaves** when it is dispatched, by the operands that it finds:
`NOP` and `HALT` their names, a word that is no opcode `INVALID OP`, and `PRINT_I` the
decimal text of the operand on top, if there is one. -/
def traceText? (w : Word) (operands : List Word) : Option String :=
  match Instruction.decode? w with
  | none => some "INVALID OP"
  | some i => i.text? operands

/-- The text that a word of a history leaves. -/
def Dispatched.text? (d : Dispatched) : Option String := traceText? d.word d.operands

/-- **The trace that the first turns leave.** -/
def Program.trace (p : Program) (c : Config) (n : Nat) : List String :=
  (p.history c n).filterMap Dispatched.text?

theorem traceText?_opcode (i : Instruction) (operands : List Word) :
    traceText? i.opcode operands = i.text? operands := by
  rw [traceText?, Instruction.decode?_opcode]

theorem traceText?_of_unknown {w : Word} (hno : ∀ i : Instruction, w ≠ i.opcode)
    (operands : List Word) : traceText? w operands = some "INVALID OP" := by
  rw [traceText?, Instruction.decode?_eq_none_iff.mpr hno]

/-- **The text of a `PRINT_I` is read as the value** that it has popped. -/
theorem exists_of_text?_print {operands : List Word} {text : String}
    (h : Instruction.print.text? operands = some text) :
    ∃ s a, operands = s ++ [a] ∧ text = toString a.toInt ∧ Numeral.word? text = some a := by
  obtain ⟨a, ha, rfl⟩ := Option.map_eq_some_iff.mp h
  obtain ⟨s, hs⟩ := List.getLast?_eq_some_iff.mp ha
  exact ⟨s, a, hs, rfl, Numeral.word?_toString a⟩

/-- The text of a number has no letters. -/
theorem Numeral.toString_ne_halt (z : Int) : toString z ≠ "HALT" := by
  intro h
  have hmem : 'H' ∈ (toString z).toList := by
    rw [h]
    decide
  exact absurd (mem_toString hmem) (by decide)

/-! ### One turn -/

section Turn

variable {m m' : Machine} {w : Word} {emitted : Option String}

/-- A rule of an opcode emits the text of the word that it dispatches. -/
theorem Dispatch.emitted_eq (h : Dispatch m emitted m') (hw : m.program.get? m.ip = some w) :
    emitted = traceText? w m.stack.toList := by
  have hat {i : Instruction} (hi : m.At i) :
      traceText? w m.stack.toList = i.text? m.stack.toList := by
    rw [Option.some.inj (hw.symm.trans hi), traceText?_opcode]
  cases h with
  | unknown hw' hno =>
    rw [Option.some.inj (hw.symm.trans hw'), traceText?_of_unknown hno]
  | print hi hs =>
    rw [hat hi, Instruction.text?, hs, List.getLast?_concat, Option.map_some]
  | @binary i _ _ _ _ hi _ hn =>
    have hb := Instruction.isBinary_of_value? hn
    rw [hat hi]
    cases i <;> first | rfl | cases hb
  | nop hi | halt hi | push hi | dup hi | load hi | store hi | pop hi | not hi | jump hi
  | jumpIf hi | stay hi => exact (hat hi).symm

/-- Where there is a text to leave, there is a rule that emits it. -/
theorem exists_dispatch_of_text {text : String} (hw : m.program.get? m.ip = some w)
    (h : traceText? w m.stack.toList = some text) : ∃ m', Dispatch m (some text) m' := by
  rcases hi : Instruction.decode? w with _ | i
  · have hno := Instruction.decode?_eq_none_iff.mp hi
    obtain rfl := Option.some.inj ((traceText?_of_unknown hno _).symm.trans h)
    exact ⟨_, .unknown hw hno⟩
  · rw [Instruction.decode?_eq_some_iff.mp hi] at hw h
    rw [traceText?_opcode] at h
    cases i with
    | nop =>
      cases h
      exact ⟨_, .nop hw⟩
    | halt =>
      cases h
      exact ⟨_, .halt hw⟩
    | print =>
      obtain ⟨s, a, hs, rfl, -⟩ := exists_of_text?_print h
      exact ⟨_, .print hw hs⟩
    | _ => cases h

/-- **A turn shows the text of the word that it dispatches**, and nothing else. -/
theorem Machine.text_turn (hbudget : m.WithinBudget) (hw : m.program.get? m.ip = some w) :
    m.turn.event.map Event.text = traceText? w m.stack.toList := by
  rcases hs : Exec.step m with ⟨event, n⟩ | ⟨e, n⟩
  · rw [turn_of_step_ok hs]
    exact (Exec.dispatch_of_step hs).2.emitted_eq hw
  · rw [turn_of_step_error hs]
    rcases htext : traceText? w m.stack.toList with _ | text
    · rfl
    · -- The rule would have been followed.
      obtain ⟨m', hd⟩ := exists_dispatch_of_text hw htext
      obtain ⟨event, hok, -⟩ := Exec.exists_step_of_dispatch hbudget hd
      rw [hs] at hok
      cases hok

/-- The rule of `HALT` is the one that stops the machine. -/
theorem Dispatch.running_iff (h : Dispatch m emitted m') (hrunning : m.status = .running) :
    m'.status = .running ↔ emitted ≠ some "HALT" := by
  cases h with
  | halt => exact iff_of_false (by rintro ⟨⟩) fun hne => hne rfl
  | @print s a => exact iff_of_true hrunning fun h => Numeral.toString_ne_halt _ (Option.some.inj h)
  | _ => exact iff_of_true hrunning (by decide)

/-- **A turn halts the machine exactly when it shows `HALT`.** -/
theorem Machine.halts_turn_iff (hrunning : m.status = .running) :
    m.turn.result = some (.ok ()) ↔ m.turn.event.map Event.text = some "HALT" := by
  rcases hs : Exec.step m with ⟨event, n⟩ | ⟨e, n⟩
  · have hstatus := (Exec.dispatch_of_step hs).2.running_iff hrunning
    rw [turn_of_step_ok hs]
    by_cases htext : event.map Event.text = some "HALT"
    · simp [htext, hstatus]
    · simp [htext, hstatus.mpr htext]
  · rw [turn_of_step_error hs]
    simp

end Turn

/-! ### Runs -/

namespace Program

variable {p : Program} {c : Config} {n : Nat}

/-- The machine of a run that goes on is running. -/
theorem running_of_going (h : (p.run c n).result = none) :
    (p.run c n).machine.status = .running := by
  rcases n with _ | n
  · rw [run_zero_of_room (room_of_going h)]
  · have hn := run_going_of_le h (Nat.le_succ n)
    rw [run_succ_of_going hn] at h ⊢
    rcases hs : Exec.step (p.run c n).machine with ⟨event, m⟩ | ⟨e, m⟩
    · rw [Run.next, Machine.turn_of_step_ok hs] at h ⊢
      by_contra hstatus
      simp only [if_neg hstatus] at h
      cases h
    · rw [Run.next, Machine.turn_of_step_error hs] at h
      cases h

theorem trace_succ (p : Program) (c : Config) (n : Nat) :
    p.trace c (n + 1) = p.trace c n ++ ((p.dispatched? c n).bind Dispatched.text?).toList :=
  filterMap_history_succ Dispatched.text? p c n

/-- **The texts of the events are the trace of the history.** -/
theorem texts_events (p : Program) (c : Config) (n : Nat) :
    (p.run c n).events.toList.map Event.text = p.trace c n := by
  induction n with
  | zero =>
    rw [(p.run_zero c).2.1]
    rfl
  | succ n ih =>
    rw [trace_succ, ← ih]
    rcases hd : p.dispatched? c n with _ | d
    · rw [(idle_of_not_dispatched hd).events]
      simp
    · have h := dispatched?_eq_some_iff.mp hd
      have htext := Machine.text_turn h.budget h.word
      rw [h.operands] at htext
      rw [run_succ_of_going h.going, Run.next, Option.bind_some, Dispatched.text?, ← htext,
        Option.toList_map]
      simp

/-- **The text `HALT` is missing until the run has halted**, and then it is the last one
and the only one of its kind. -/
theorem halt_in_trace (p : Program) (c : Config) (n : Nat) :
    (p.run c n).result ≠ some (.ok ()) ∧ "HALT" ∉ p.trace c n ∨
      (p.run c n).result = some (.ok ()) ∧
        ∃ before, p.trace c n = before ++ ["HALT"] ∧ "HALT" ∉ before := by
  induction n with
  | zero => exact Or.inl ⟨(p.run_zero c).2.2, List.not_mem_nil⟩
  | succ n ih =>
    rw [trace_succ]
    rcases hd : p.dispatched? c n with _ | d
    · rw [Ne, (idle_of_not_dispatched hd).halted, Option.bind_none, Option.toList_none,
        List.append_nil]
      exact ih
    · have h := dispatched?_eq_some_iff.mp hd
      have htext := Machine.text_turn h.budget h.word
      have hhalts := Machine.halts_turn_iff (running_of_going h.going)
      rw [htext, h.operands] at hhalts
      rcases ih with ⟨-, hno⟩ | ⟨hok, -⟩
      · rw [run_succ_of_going h.going, Run.next, Option.bind_some, Dispatched.text?]
        by_cases hhalt : traceText? d.word d.operands = some "HALT"
        · right
          rw [hhalt]
          exact ⟨hhalts.mpr hhalt, _, rfl, hno⟩
        · left
          refine ⟨fun hok => hhalt (hhalts.mp hok), fun hmem => ?_⟩
          rcases List.mem_append.mp hmem with hmem | hmem
          · exact hno hmem
          · exact hhalt (Option.mem_toList.mp hmem)
      · -- A run that has halted dispatches nothing.
        rw [h.going] at hok
        cases hok

/-- **What the buffer of a session holds** after so many turns, and what it tells. -/
structure Traced (p : Program) (c : Config) (n : Nat) (result : Option Result) (s : Session) :
    Prop where
  /-- A turn dispatches a word exactly when the run goes on, the budget allows it and there is
  one, and the history remembers what it found. -/
  dispatches : ∀ j d, p.dispatched? c j = some d ↔ p.DispatchesAt c j d
  /-- The buffer holds the texts of the dispatched words, in order, and nothing else. -/
  texts : s.sink = .buffer (p.trace c n).toArray
  /-- The words of the history are the steps that the machine has counted. -/
  steps : (p.history c n).length = s.machine.steps
  /-- There are no more texts than steps. -/
  length : (p.trace c n).length ≤ s.machine.steps
  /-- `HALT` is among them exactly when the run has halted. -/
  halted_iff : "HALT" ∈ p.trace c n ↔ result = some (.ok ())
  /-- It is the last text then, and occurs only once. -/
  last : result = some (.ok ()) →
    ∃ before, p.trace c n = before ++ ["HALT"] ∧ "HALT" ∉ before
  /-- The text that a `PRINT_I` leaves is read as the value that it has popped. -/
  printed : ∀ d ∈ p.history c n, d.word = Instruction.print.opcode → ∀ text,
    d.text? = some text →
      ∃ s a, d.operands = s ++ [a] ∧ text = toString a.toInt ∧ Numeral.word? text = some a

/-- **The trace law**: whatever the program and the limits, and at any moment of its run, a
session with a buffer has told exactly what the dispatched words leave. -/
theorem traced_run (p : Program) (c : Config) (journal : Journal) (n : Nat) :
    let s : Session := ⟨.load p c, .buffer #[], journal⟩
    p.Traced c n (s.run n).1 (s.run n).2 := by
  intro s
  obtain ⟨hresult, hmachine, hsink⟩ := s.tells_run n
  change (s.run n).1 = (p.run c n).result at hresult
  change (s.run n).2.machine = (p.run c n).machine at hmachine
  change (s.run n).2.sink =
    ((p.run c n).events.toList.map Event.text).foldl Sink.put (.buffer #[]) at hsink
  have hlength := p.length_history c n
  rw [hresult]
  refine ⟨fun _ _ => dispatched?_eq_some_iff, ?_, ?_, ?_, ?_, ?_, ?_⟩
  · rw [hsink, texts_events, Sink.foldl_put_buffer, Array.empty_append]
  · rw [hmachine, hlength]
  · rw [hmachine, ← hlength]
    exact List.length_filterMap_le _ _
  · rcases p.halt_in_trace c n with ⟨hne, hno⟩ | ⟨hok, before, hlast, -⟩
    · exact iff_of_false hno hne
    · refine iff_of_true ?_ hok
      rw [hlast]
      simp
  · intro hok
    rcases p.halt_in_trace c n with ⟨hne, -⟩ | ⟨-, hlast⟩
    · exact absurd hok hne
    · exact hlast
  · intro d _ hw text htext
    rw [Dispatched.text?, hw, traceText?_opcode] at htext
    exact exists_of_text?_print htext

end Program

end StackMachine
