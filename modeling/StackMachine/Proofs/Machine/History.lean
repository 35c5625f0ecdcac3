import StackMachine.Proofs.Machine.Boundaries

/-!
# The history of a run

A run of a program is remembered best by the words it has dispatched, in order, each with
what it found when it was fetched: the word behind it, the operands, and whether it got
through or ended the run in a fault. Everything that a run shows or stores is a function
of this history, one word after the other, and that is how the laws about traces and
variables are put.

Which turns belong to the history is told by the count of steps and by nothing else
(`StackMachine.Program.offset?`). They are the turns that find a run going on, budget left,
and a word to dispatch (`StackMachine.Program.dispatched?_eq_some_iff`). The others are idle:
they find the budget used up, or no word, or a run that has ended before, and do nothing but
end it.

* `StackMachine.Program.history` – the dispatched words;
* `StackMachine.Program.length_history` – there are as many of them as steps;
* `StackMachine.Program.Idle` – what a turn does that is none of the history.
-/

namespace StackMachine

/-! ### Dispatched words -/

/-- The run has ended in an error. -/
def Run.failed (r : Run) : Bool :=
  match r.result with
  | some (.error _) => true
  | _ => false

theorem Run.failed_iff {r : Run} : r.failed = true ↔ ∃ e, r.result = some (.error e) := by
  rw [failed]
  rcases r.result with _ | ⟨_ | _⟩ <;> simp

/-- **A dispatched word**, with what it found and how it went. -/
structure Dispatched where
  /-- The word that was fetched as an opcode. -/
  word : Word
  /-- The word behind it, which is its immediate if it wants one. -/
  next : Option Word
  /-- The operands that it found, from the bottom to the top. -/
  operands : List Word
  /-- Whether it was carried out; if not, it has ended the run in a fault. -/
  completed : Bool
  deriving DecidableEq, Repr

namespace Program

variable {p : Program} {c : Config} {n : Nat} {d : Dispatched}

/-- **The word that a turn dispatches**, if it dispatches one. -/
def dispatched? (p : Program) (c : Config) (j : Nat) : Option Dispatched :=
  (p.offset? c j).bind fun a => (p.get? a).map fun w =>
    { word := w, next := p.get? (a + 1), operands := (p.run c j).machine.stack.toList,
      completed := !(p.run c (j + 1)).failed }

/-- **The words that the first turns dispatch**, in order. -/
def history (p : Program) (c : Config) (n : Nat) : List Dispatched :=
  (List.range n).filterMap (p.dispatched? c)

theorem history_succ (p : Program) (c : Config) (n : Nat) :
    p.history c (n + 1) = p.history c n ++ (p.dispatched? c n).toList :=
  List.filterMap_range_succ (p.dispatched? c) n

/-- What a history leaves behind is what each of its words leaves, in order. -/
theorem filterMap_history_succ {α : Type} (f : Dispatched → Option α) (p : Program) (c : Config)
    (n : Nat) :
    (p.history c (n + 1)).filterMap f =
      (p.history c n).filterMap f ++ ((p.dispatched? c n).bind f).toList := by
  rw [history_succ, List.filterMap_append]
  rcases p.dispatched? c n with _ | d
  · rfl
  · rcases h : f d with _ | a <;> simp [h]

/-- What a dispatched word remembers is true of the machine that dispatches it. -/
structure DispatchesAt (p : Program) (c : Config) (n : Nat) (d : Dispatched) : Prop where
  going : (p.run c n).result = none
  budget : (p.run c n).machine.WithinBudget
  word : (p.run c n).machine.program.get? (p.run c n).machine.ip = some d.word
  next : (p.run c n).machine.program.get? ((p.run c n).machine.ip + 1) = d.next
  operands : (p.run c n).machine.stack.toList = d.operands
  completed : d.completed = !(p.run c (n + 1)).failed

theorem dispatched?_eq_some_iff : p.dispatched? c n = some d ↔ p.DispatchesAt c n d := by
  rw [dispatched?, Option.bind_eq_some_iff]
  constructor
  · rintro ⟨a, ha, hd⟩
    obtain ⟨hn, hbudget, -, rfl⟩ := offset?_eq_some_iff.mp ha
    obtain ⟨w, hw, rfl⟩ := Option.map_eq_some_iff.mp hd
    have hp := (runs_of_going hn).program
    exact ⟨hn, hbudget, by rw [hp, hw], by rw [hp], rfl, rfl⟩
  · rintro ⟨hn, hbudget, hw, hnext, hs, hc⟩
    have hahead := Machine.ahead_ne_nil_iff.mpr (hw ▸ Option.some_ne_none _)
    rw [(runs_of_going hn).program] at hw hnext
    refine ⟨_, offset?_eq_some_iff.mpr ⟨hn, hbudget, hahead, rfl⟩, ?_⟩
    rw [hw, hnext, hs, Option.map_some, ← hc]

/-! ### Idle turns -/

/-- **What a turn does that dispatches no word**: nothing to the events, the variables and
the count, and it does not halt the machine. -/
structure Idle (p : Program) (c : Config) (n : Nat) : Prop where
  events : (p.run c (n + 1)).events = (p.run c n).events
  frames : (p.run c (n + 1)).machine.frames = (p.run c n).machine.frames
  steps : (p.run c (n + 1)).machine.steps = (p.run c n).machine.steps
  halted : (p.run c (n + 1)).result = some (.ok ()) ↔ (p.run c n).result = some (.ok ())

/-- A turn that fails before it has fetched a word is idle. -/
theorem idle_of_fault {e : Error} (hn : (p.run c n).result = none)
    (h : Fault (p.run c n).machine e 0 0)
    (he : (p.run c (n + 1)).result = some (.error e)) : p.Idle c n := by
  rw [run_succ_of_going hn] at he
  obtain ⟨hevent, fetched, popped, hf, hleft⟩ :=
    Machine.fault_of_turn (runs_of_going hn).frames_ne_nil he
  obtain ⟨rfl, rfl⟩ := hf.unique h
  have hrun := run_succ_of_going hn
  refine ⟨?_, ?_, ?_, ?_⟩
  · rw [hrun, Run.next, hevent]
    exact Array.append_empty
  · rw [hrun]
    exact hleft.frames
  · rw [hrun]
    exact hleft.steps
  · rw [hrun, he, hn]
    simp

/-- **A turn that is none of the history is idle.** -/
theorem idle_of_not_dispatched (h : p.dispatched? c n = none) : p.Idle c n := by
  rcases (p.run c n).going_or_ended with hn | hn
  · have hframe := (runs_of_going hn).frames_ne_nil
    have hrun := run_succ_of_going hn
    rcases (p.run c n).machine.withinBudget_or_exhausted with hbudget | ⟨limit, hl, hlimit⟩
    · rcases hw : (p.run c n).machine.program.get? (p.run c n).machine.ip with _ | w
      · have hfetch : (p.run c n).machine.Fetches _ := ⟨hbudget, Or.inl rfl⟩
        refine idle_of_fault hn (.noOpcode hw) ?_
        rw [hrun]
        exact Machine.result_turn_of_fetch hframe hfetch hw
      · -- There is a word, and it has been dispatched.
        have hd : p.DispatchesAt c n ⟨w, _, _, _⟩ := ⟨hn, hbudget, hw, rfl, rfl, rfl⟩
        rw [dispatched?_eq_some_iff.mpr hd] at h
        cases h
    · refine idle_of_fault hn (.stepLimit hl hlimit) ?_
      rw [hrun, Run.next, Machine.turn_of_step_error (Exec.step_of_exhausted hl hlimit)]
  · have hsame := run_of_ended hn (Nat.le_succ n)
    exact ⟨by rw [hsame], by rw [hsame], by rw [hsame], by rw [hsame]⟩

/-- A turn that dispatches a word counts it. -/
theorem DispatchesAt.steps (h : p.DispatchesAt c n d) :
    (p.run c (n + 1)).machine.steps = (p.run c n).machine.steps + 1 := by
  have hturn := Machine.steps_turn h.budget
  rw [h.word] at hturn
  rw [run_succ_of_going h.going]
  exact hturn

/-- Before the first turn nothing has been counted or shown, and nothing has halted. -/
theorem run_zero (p : Program) (c : Config) :
    (p.run c 0).machine.steps = 0 ∧ (p.run c 0).events = #[] ∧
      (p.run c 0).result ≠ some (.ok ()) := by
  rcases Nat.eq_zero_or_pos c.frameCapacity with h | h
  · rw [run_zero_of_no_room h]
    exact ⟨rfl, rfl, by rintro ⟨⟩⟩
  · rw [run_zero_of_room h]
    exact ⟨rfl, rfl, by rintro ⟨⟩⟩

/-- **The count of steps is the number of words dispatched.** -/
theorem length_offsets (p : Program) (c : Config) (n : Nat) :
    (p.offsets c n).length = (p.run c n).machine.steps := by
  induction n with
  | zero => exact (p.run_zero c).1.symm
  | succ n ih =>
    rw [offsets_succ, List.length_append, ih]
    rcases ho : p.offset? c n with _ | a
    · exact (idle_of_not_dispatched (by rw [dispatched?, ho]; rfl)).steps.symm
    · obtain ⟨hn, hbudget, hahead, -⟩ := offset?_eq_some_iff.mp ho
      have hturn := Machine.steps_turn hbudget
      rw [if_pos (Option.isSome_iff_ne_none.mpr (Machine.ahead_ne_nil_iff.mp hahead))] at hturn
      rw [run_succ_of_going hn]
      exact hturn.symm

/-- **The count of steps is the length of the history.** -/
theorem length_history (p : Program) (c : Config) (n : Nat) :
    (p.history c n).length = (p.run c n).machine.steps := by
  induction n with
  | zero => exact (p.run_zero c).1.symm
  | succ n ih =>
    rw [history_succ, List.length_append, ih]
    rcases hd : p.dispatched? c n with _ | d
    · exact (idle_of_not_dispatched hd).steps.symm
    · exact (dispatched?_eq_some_iff.mp hd).steps.symm

end Program

end StackMachine
