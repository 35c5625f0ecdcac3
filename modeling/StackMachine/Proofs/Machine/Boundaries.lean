import StackMachine.Proofs.Machine.Budget
import StackMachine.Proofs.Machine.Fetches
import StackMachine.Proofs.Program.Listing

/-!
# Where instructions begin

A listing and a machine cut a program into pieces independently of each other. The
listing goes through the words from the first to the last and looks ahead: an opcode that
wants an immediate and is the last word is a word like any other. The machine knows
nothing of the words ahead: it dispatches a word and fetches what that wants, and finds
out then whether it is there.

As long as the machine does not jump, the pieces are the same, and it does what the rows
show, one row a turn:

| the words ahead                | the row    | the machine                   |
|--------------------------------|------------|-------------------------------|
| no opcode                      | a word     | leaves `INVALID OP`           |
| an opcode without an immediate | its name   | executes it                   |
| an opcode with its immediate   | both       | executes it on the immediate  |
| an opcode without the one word | a word     | faults behind the program     |

The invariant behind this is about what is still to come: the rows that would be read off
the words ahead of the machine are the rows of the program that are left
(`StackMachine.Program.rowsFrom_ahead`). A turn moves the instruction pointer by the
number of words that the row shows, and that is all there is to keep
(`StackMachine.Machine.ahead_turn`).
-/

namespace StackMachine

variable {m m' : Machine} {p : Program} {c : Config} {i : Instruction} {e : Entry}
  {rest : List Word} {emitted : Option String} {a n : Nat}

/-! ### Instructions with their immediates -/

namespace Exec

/-- **What an instruction does once its immediates are fetched.** -/
def perform (i : Instruction) (immediates : List Word) : Exec (Option Event) :=
  match i, immediates with
  | .push, [v] => do push v; return none
  | .load, [id] => do push (← load id); return none
  | .store, [id] => do store id (← pop); return none
  | i, _ => execute i

theorem perform_nil (i : Instruction) : perform i [] = execute i := by
  cases i <;> rfl

/-- An instruction with an immediate fetches it and does the rest. -/
theorem execute_of_fetch {v : Word} (hi : i.immediates = 1) (h : fetch m = .ok v m') :
    execute i m = perform i [v] m' := by
  cases i with
  | push | load | store =>
    change EStateM.bind fetch _ m = _
    rw [EStateM.bind, h]
    rfl
  | _ => cases hi

end Exec

/-! ### One turn -/

namespace Machine

/-- The words from the instruction pointer on. -/
def ahead (m : Machine) : List Word := m.program.toList.drop m.ip

theorem getElem?_ahead (m : Machine) (k : Nat) : m.ahead[k]? = m.program.get? (m.ip + k) := by
  rw [ahead, List.getElem?_drop, Program.getElem?_toList]

/-- There are words ahead exactly when there is one to dispatch. -/
theorem ahead_ne_nil_iff : m.ahead ≠ [] ↔ m.program.get? m.ip ≠ none := by
  rw [← Nat.add_zero m.ip, ← getElem?_ahead, Ne, Ne, List.getElem?_eq_none_iff, Nat.le_zero,
    List.length_eq_zero_iff]

/-- The word at the instruction pointer is the opcode of an instruction whose immediate
would lie behind the program, **and the turn ends the run for it**. -/
def MissesImmediate (m : Machine) : Prop :=
  ∃ i : Instruction, m.At i ∧ i.immediates = 1 ∧ m.program.get? (m.ip + 1) = none ∧
    m.turn.result = some (.error (.invalidPointer (min (m.ip + 1) Exec.maxAddress : Nat)))

/-- **The machine does what a row shows** in its next turn. -/
structure Performs (m : Machine) (e : Entry) : Prop where
  /-- It leaves `INVALID OP` or misses an immediate exactly when the row shows a word. -/
  word_iff : (∃ w, e = .word w) ↔
    m.turn.event.map Event.text = some "INVALID OP" ∨ m.MissesImmediate
  /-- The word is the one that it fetches. -/
  word : ∀ w, e = .word w → m.program.get? m.ip = some w
  /-- An instruction is the one that it executes, on the immediates that the row shows. -/
  instruction : ∀ i immediates, e = .instruction i immediates →
    m.At i ∧ immediates.length = i.immediates ∧
      Exec.step m = Exec.perform i immediates (m.dispatched i.size)

/-- The word at the instruction pointer is that of a jump, whose condition is true if it
has one. -/
def WantsJump (m : Machine) : Prop :=
  m.At .jump ∨ m.At .jumpIf ∧ ∃ s c, m.stack.toList = s ++ [c] ∧ c.toInt ≠ 0

/-- **The machine takes a jump** in its next turn, and the run goes on at the target. -/
def TakesJump (m : Machine) : Prop := m.WantsJump ∧ m.turn.result = none

end Machine

/-- Nothing but a word that is no opcode leaves `INVALID OP`: numbers are written without
letters. -/
theorem Dispatch.emitted_ne_invalid (h : Dispatch m emitted m') (hi : m.At i) :
    emitted ≠ some "INVALID OP" := by
  cases h with
  | unknown hw hno => exact absurd (Option.some.inj (hi.symm.trans hw)).symm (hno i)
  | @print s a hw hs =>
    intro htext
    have hmem : 'I' ∈ (toString a.toInt).toList := by
      rw [Option.some.inj htext]
      decide
    exact absurd (Numeral.mem_toString hmem) (by decide)
  | _ => decide

/-- There is a word to dispatch. -/
theorem Dispatch.get?_ne_none (h : Dispatch m emitted m') : m.program.get? m.ip ≠ none := by
  cases h with
  | unknown hw => exact hw ▸ Option.some_ne_none _
  | _ => exact Machine.At.ne_none ‹m.At _›

/-- **A word that is dispatched moves the instruction pointer past it** and past its
immediates, unless it is a jump. -/
theorem Dispatch.ip_of_not_jump (h : Dispatch m emitted m') (hjump : ¬m.WantsJump) :
    (∃ i, m.At i ∧ m'.ip = m.ip + i.size) ∨ (∀ i, ¬m.At i) ∧ m'.ip = m.ip + 1 := by
  cases h with
  | unknown hw hno =>
    exact Or.inr ⟨fun i hi => hno i (Option.some.inj (hw.symm.trans hi)), rfl⟩
  | nop hw | halt hw | push hw | dup hw | load hw | store hw | pop hw | print hw | not hw
  | stay hw => exact Or.inl ⟨_, hw, rfl⟩
  | binary hw _ hn =>
    have hnone := Instruction.immediates_of_isBinary (Instruction.isBinary_of_value? hn)
    exact Or.inl ⟨_, hw, by rw [Instruction.size, hnone]; rfl⟩
  | jump hw => exact absurd (Or.inl hw) hjump
  | @jumpIf s t c hw hs hc =>
    exact absurd (Or.inr ⟨hw, s ++ [t], c, by rw [hs, List.append_assoc]; rfl, hc⟩) hjump

namespace Machine

/-- A turn after which the run goes on has followed a rule of the opcodes. -/
theorem dispatch_of_turn (h : m.turn.result = none) :
    m.WithinBudget ∧ ∃ emitted, Dispatch m emitted m.turn.machine := by
  cases hs : Exec.step m with
  | ok event n =>
    obtain ⟨hbudget, hd⟩ := Exec.dispatch_of_step hs
    rw [turn_of_step_ok hs]
    exact ⟨hbudget, _, hd⟩
  | error e n =>
    rw [turn_of_step_error hs] at h
    cases h

/-- An instruction does not leave `INVALID OP`. -/
theorem event_turn_ne_invalid (hi : m.At i) :
    m.turn.event.map Event.text ≠ some "INVALID OP" := by
  cases hs : Exec.step m with
  | ok event n =>
    rw [turn_of_step_ok hs]
    exact (Exec.dispatch_of_step hs).2.emitted_ne_invalid hi
  | error e n =>
    rw [turn_of_step_error hs]
    exact Option.some_ne_none _ ∘ Eq.symm

section Reads

variable (hframe : m.frames.toList ≠ []) (hr : Entry.Reads m.ahead e rest)

include hframe hr

/-- **A turn that does not jump moves the machine on by a row.** -/
theorem ahead_turn (hgoing : m.turn.result = none) (hjump : ¬m.WantsJump) :
    m.turn.machine.ip = m.ip + e.words.length ∧ m.turn.machine.ahead = rest := by
  obtain ⟨hbudget, emitted, hd⟩ := dispatch_of_turn hgoing
  have hword : m.program.get? m.ip = m.ahead[0]? := (m.getElem?_ahead 0).symm
  have hip : m.turn.machine.ip = m.ip + e.words.length := by
    rw [hr.isComplete.length_words]
    generalize hwords : m.ahead = words at hr hword
    cases hr with
    | unknown hno =>
      rcases hd.ip_of_not_jump hjump with ⟨i, hi, -⟩ | ⟨-, hip⟩
      · exact absurd (Option.some.inj (hword.symm.trans hi)) (hno i)
      · exact hip
    | @plain i | @immediate i =>
      rcases hd.ip_of_not_jump hjump with ⟨j, hj, hip⟩ | ⟨hno, -⟩
      · rw [hip, hj.unique (j := i) hword]
        rfl
      · exact absurd hword (hno i)
    | @truncated i hi =>
      -- The fetch of the immediate would have ended the run.
      have hnone : m.program.get? (m.ip + 1) = none := by
        rw [← getElem?_ahead, hwords]
        rfl
      have hfetch : m.Fetches (m.ip + 1) := ⟨hbudget, Or.inr ⟨i, hword, hi, rfl⟩⟩
      rw [result_turn_of_fetch hframe hfetch hnone] at hgoing
      cases hgoing
  refine ⟨hip, ?_⟩
  rw [ahead, hip, hd.kept.program, ← List.drop_drop]
  exact (congrArg (List.drop _) hr.words_eq).trans List.drop_left

/-- **A machine that dispatches a word does what the row for the words ahead shows.** -/
theorem performs_of_reads (hbudget : m.WithinBudget) : m.Performs e := by
  have hword : m.program.get? m.ip = m.ahead[0]? := (m.getElem?_ahead 0).symm
  have himm : m.program.get? (m.ip + 1) = m.ahead[1]? := (m.getElem?_ahead 1).symm
  generalize m.ahead = words at hr hword himm
  cases hr with
  | @unknown w rest hno =>
    have hstep : Exec.step m = .ok (some (.invalid w m.ip)) (m.dispatched 1) :=
      (Exec.step_eq_ok_iff hbudget).mpr ⟨w, hword, Or.inl ⟨hno, rfl, rfl⟩⟩
    refine ⟨⟨fun _ => Or.inl ?_, fun _ => ⟨w, rfl⟩⟩, ?_, ?_⟩
    · rw [turn_of_step_ok hstep]
      rfl
    · rintro _ ⟨⟩
      exact hword
    · rintro _ _ ⟨⟩
  | @plain i rest hi =>
    refine ⟨⟨?_, fun h => absurd h ?_⟩, ?_, ?_⟩
    · rintro ⟨_, ⟨⟩⟩
    · rintro (htext | ⟨j, hj, hone, -, -⟩)
      · exact event_turn_ne_invalid hword htext
      · rw [hj.unique hword, hi] at hone
        cases hone
    · rintro _ ⟨⟩
    · rintro _ _ ⟨⟩
      refine ⟨hword, hi.symm, ?_⟩
      rw [Exec.step_of_at hbudget hword, Exec.perform_nil, Instruction.size, hi]
  | @immediate i v rest hi =>
    refine ⟨⟨?_, fun h => absurd h ?_⟩, ?_, ?_⟩
    · rintro ⟨_, ⟨⟩⟩
    · rintro (htext | ⟨j, -, -, hnone, -⟩)
      · exact event_turn_ne_invalid hword htext
      · rw [himm] at hnone
        cases hnone
    · rintro _ ⟨⟩
    · rintro _ _ ⟨⟩
      refine ⟨hword, hi.symm, ?_⟩
      have hfetch : Exec.fetch (m.dispatched 1) = .ok v (m.dispatched 2) :=
        Exec.fetch_eq_ok_iff.mpr ⟨himm, rfl⟩
      rw [Exec.step_of_at hbudget hword, Exec.execute_of_fetch hi hfetch, Instruction.size, hi]
  | @truncated i hi =>
    have hfetch : m.Fetches (m.ip + 1) := ⟨hbudget, Or.inr ⟨i, hword, hi, rfl⟩⟩
    refine ⟨⟨fun _ => Or.inr ?_, fun _ => ⟨_, rfl⟩⟩, ?_, ?_⟩
    · exact ⟨i, hword, hi, himm, result_turn_of_fetch hframe hfetch himm⟩
    · rintro _ ⟨⟩
      exact hword
    · rintro _ _ ⟨⟩

end Reads

end Machine

/-! ### Runs -/

namespace Program

/-- **The run of a program takes a jump** in a turn. -/
def JumpsAt (p : Program) (c : Config) (j : Nat) : Prop :=
  (p.run c j).result = none ∧ (p.run c j).machine.TakesJump

/-- **The offset of the word that a turn dispatches**, if it dispatches one: the count
tells. -/
def offset? (p : Program) (c : Config) (j : Nat) : Option Nat :=
  if (p.run c j).machine.steps < (p.run c (j + 1)).machine.steps then
    some (p.run c j).machine.ip
  else none

/-- **The offsets of the words that the first turns dispatch**, in order. -/
def offsets (p : Program) (c : Config) (n : Nat) : List Nat :=
  (List.range n).filterMap (p.offset? c)

theorem offsets_succ (p : Program) (c : Config) (n : Nat) :
    p.offsets c (n + 1) = p.offsets c n ++ (p.offset? c n).toList :=
  List.filterMap_range_succ (p.offset? c) n

/-- One turn more is one row more. -/
theorem offsets_succ_eq_take {r : Row}
    (hoffsets : p.offsets c n = (p.rows.map Row.address).take n) (hr : p.rows[n]? = some r)
    (ha : p.offset? c n = some r.address) :
    p.offsets c (n + 1) = (p.rows.map Row.address).take (n + 1) := by
  rw [offsets_succ, hoffsets, ha, List.take_add_one, List.getElem?_map, hr]
  rfl

/-- **A turn dispatches a word** exactly when the run goes on, the budget allows it and
there are words ahead. -/
theorem offset?_eq_some_iff :
    p.offset? c n = some a ↔ (p.run c n).result = none ∧ (p.run c n).machine.WithinBudget ∧
      (p.run c n).machine.ahead ≠ [] ∧ a = (p.run c n).machine.ip := by
  constructor
  · intro h
    obtain ⟨hlt, ha⟩ := Option.ite_none_right_eq_some.mp h
    obtain rfl := Option.some.inj ha
    rcases (p.run c n).going_or_ended with hn | hn
    · rw [run_succ_of_going hn, Run.next] at hlt
      rcases (p.run c n).machine.withinBudget_or_exhausted with hbudget | ⟨limit, hl, hlimit⟩
      · refine ⟨hn, hbudget, Machine.ahead_ne_nil_iff.mpr fun hnone => ?_, rfl⟩
        simp [Machine.steps_turn hbudget, hnone] at hlt
      · rw [Machine.turn_of_step_error (Exec.step_of_exhausted hl hlimit)] at hlt
        exact absurd hlt (Nat.lt_irrefl _)
    · rw [run_of_ended hn (Nat.le_succ n)] at hlt
      exact absurd hlt (Nat.lt_irrefl _)
  · rintro ⟨hn, hbudget, hahead, rfl⟩
    have hw := Option.isSome_iff_ne_none.mpr (Machine.ahead_ne_nil_iff.mp hahead)
    refine Option.ite_none_right_eq_some.mpr ⟨?_, rfl⟩
    rw [run_succ_of_going hn, Run.next]
    simp [Machine.steps_turn hbudget, hw]

/-- **Before a jump, the rows that are left are those for the words ahead**, and every row
before them has had its turn. -/
theorem rowsFrom_ahead (hn : (p.run c n).result = none) (hjump : ∀ j < n, ¬p.JumpsAt c j) :
    rowsFrom (p.run c n).machine.ip (p.run c n).machine.ahead = p.rows.drop n ∧
      p.offsets c n = (p.rows.map Row.address).take n := by
  induction n with
  | zero =>
    rw [run_zero_of_room (room_of_going hn)]
    exact ⟨rfl, rfl⟩
  | succ n ih =>
    have hgoing := run_going_of_le hn (Nat.le_succ n)
    obtain ⟨hrows, hoffsets⟩ := ih hgoing fun j hj => hjump j (Nat.lt_succ_of_lt hj)
    rw [run_succ_of_going hgoing] at hn ⊢
    -- The turn has dispatched a word, and its row is the first of those that were left.
    obtain ⟨hbudget, emitted, hd⟩ := Machine.dispatch_of_turn hn
    have hahead := Machine.ahead_ne_nil_iff.mpr hd.get?_ne_none
    obtain ⟨e, rest, hr, heq⟩ := exists_reads (p.run c n).machine.ip hahead
    have hstay : ¬(p.run c n).machine.WantsJump :=
      fun h => hjump n (Nat.lt_succ_self n) ⟨hgoing, h, hn⟩
    obtain ⟨hip, hrest⟩ := Machine.ahead_turn (runs_of_going hgoing).frames_ne_nil hr hn hstay
    have hoff := offset?_eq_some_iff.mpr ⟨hgoing, hbudget, hahead, rfl⟩
    rw [hrows] at heq
    have hrow : p.rows[n]? = some ⟨(p.run c n).machine.ip, e⟩ := by
      rw [← List.head?_drop, heq, List.head?_cons]
    refine ⟨?_, offsets_succ_eq_take hoffsets hrow hoff⟩
    rw [Run.next, hip, hrest, ← List.tail_drop, heq, List.tail_cons]

/-- So the words ahead are read as a row, if there are any. -/
theorem exists_row_of_ahead (hn : (p.run c n).result = none) (hjump : ∀ j < n, ¬p.JumpsAt c j)
    (hahead : (p.run c n).machine.ahead ≠ []) :
    ∃ r rest, p.rows[n]? = some r ∧ r.address = (p.run c n).machine.ip ∧
      Entry.Reads (p.run c n).machine.ahead r.entry rest := by
  obtain ⟨e, rest, hr, heq⟩ := exists_reads (p.run c n).machine.ip hahead
  rw [(rowsFrom_ahead hn hjump).1] at heq
  refine ⟨⟨(p.run c n).machine.ip, e⟩, rest, ?_, rfl, hr⟩
  rw [← List.head?_drop, heq, List.head?_cons]

/-- **The word that a turn dispatches is that of its row**, if there was no jump before. -/
theorem exists_row (hjump : ∀ j < n, ¬p.JumpsAt c j) (ha : p.offset? c n = some a) :
    ∃ r, p.rows[n]? = some r ∧ r.address = a ∧ (p.run c n).machine.Performs r.entry := by
  obtain ⟨hn, hbudget, hahead, rfl⟩ := offset?_eq_some_iff.mp ha
  obtain ⟨r, rest, hrow, haddress, hr⟩ := exists_row_of_ahead hn hjump hahead
  exact ⟨r, hrow, haddress,
    Machine.performs_of_reads (runs_of_going hn).frames_ne_nil hr hbudget⟩

/-- **Up to the first jump, the machine goes from row to row.** -/
theorem offsets_prefix (hjump : ∀ j, j + 1 < n → ¬p.JumpsAt c j) :
    p.offsets c n <+: p.rows.map Row.address := by
  induction n with
  | zero => exact List.nil_prefix
  | succ n ih =>
    cases ha : p.offset? c n with
    | none =>
      rw [offsets_succ, ha, Option.toList_none, List.append_nil]
      exact ih fun j hj => hjump j (Nat.lt_succ_of_lt hj)
    | some a =>
      have hbefore : ∀ j < n, ¬p.JumpsAt c j := fun j hj => hjump j (Nat.succ_lt_succ hj)
      have hoffsets := (rowsFrom_ahead (offset?_eq_some_iff.mp ha).1 hbefore).2
      obtain ⟨r, hr, rfl, -⟩ := exists_row hbefore ha
      rw [offsets_succ_eq_take hoffsets hr ha]
      exact List.take_prefix _ _

/-- **The rows of a listing are the instructions of a machine.** -/
structure BoundariesAgree (p : Program) : Prop where
  /-- The lines of the listing are the rows. -/
  lines : Text.lines p.listing.toList = p.rows.map fun r => r.text.toList
  /-- The first row, or the end when there is none, is at address zero. -/
  first : (Row.boundaries p.rows p.size)[0]? = some 0
  /-- Every row begins where the one before it ends, and the program ends with the last. -/
  next : ∀ j r, p.rows[j]? = some r →
    (Row.boundaries p.rows p.size)[j + 1]? = some (r.address + r.entry.size)
  /-- A turn dispatches a word exactly when the run goes on, the budget allows it and there are
  words ahead, and it is the first of these. -/
  dispatches : ∀ c n a, p.offset? c n = some a ↔ (p.run c n).result = none ∧
    (p.run c n).machine.WithinBudget ∧ (p.run c n).machine.ahead ≠ [] ∧
      a = (p.run c n).machine.ip
  /-- The words that a run dispatches, up to the first jump and the word of the jump
  itself, are those of the first rows. -/
  segment : ∀ c n, (∀ j, j + 1 < n → ¬p.JumpsAt c j) →
    p.offsets c n <+: p.rows.map Row.address
  /-- Each of them does what its row shows. -/
  performs : ∀ c n a, (∀ j < n, ¬p.JumpsAt c j) → p.offset? c n = some a →
    ∃ r, p.rows[n]? = some r ∧ r.address = a ∧ (p.run c n).machine.Performs r.entry

/-- **The listing and the machine agree on where the instructions of a program begin**, for
every program, whether its words are opcodes or not, and for every run of it. -/
theorem boundariesAgree (p : Program) : p.BoundariesAgree where
  lines := by
    rw [toList_listing]
    refine Text.lines_terminated fun l hl => ?_
    obtain ⟨r, -, rfl⟩ := List.mem_map.mp hl
    exact r.isSingleLine_text
  first := by
    rw [← p.length_toList, ← Nat.zero_add p.toList.length]
    exact p.tiles_rows.boundaries_zero
  next j r hr := by
    rw [← p.length_toList, ← Nat.zero_add p.toList.length]
    exact p.tiles_rows.boundaries_succ hr
  dispatches _ _ _ := offset?_eq_some_iff
  segment c n := offsets_prefix
  performs c n a := exists_row

end Program

end StackMachine
