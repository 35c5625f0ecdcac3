import StackMachine.Proofs.Machine.History
import StackMachine.Proofs.Machine.Lifecycle
import StackMachine.Proofs.Machine.Pointer
import StackMachine.Proofs.Program.Recovery

/-!
# Programs without jumps

A program without jumps ends by itself: nothing takes the machine back, so there are at most as
many turns to take as there are instructions. The one thing to be careful about is what an
instruction is. A word that is equal to the opcode of a jump is no jump where it is the immediate
of another instruction, and the word alone does not tell. The listing does: up to the first jump,
a machine dispatches the words of its rows, one after the other
(`StackMachine.Program.offsets_prefix`). So there can be a first jump only where a row shows one,
and without such a row there is none.

What the machine dispatches are then the rows, each of them once at most, and as long as a run
goes on it dispatches one in every turn.

* `StackMachine.Program.JumpFree` – no row of the program shows a jump;
* `StackMachine.Program.JumpFree.not_jumpsAt` – its runs never jump;
* `StackMachine.Program.steps_le_length_rows` – a run that has not jumped has taken no more steps
  than there are rows;
* `StackMachine.Program.JumpFree.endsWithinRows` – **a program without jumps ends**, and after no
  more steps than that.
-/

namespace StackMachine

namespace Program

variable {p : Program} {c : Config} {i : Instruction} {n : Nat}

/-! ### Runs that have not jumped -/

/-- **As long as a run goes on, every turn counts a word.** -/
theorem steps_of_going (hn : (p.run c n).result = none) : (p.run c n).machine.steps = n := by
  induction n with
  | zero => exact (p.run_zero c).1
  | succ n ih =>
    have hgoing := run_going_of_le hn (Nat.le_succ n)
    rw [run_succ_of_going hgoing] at hn ⊢
    obtain ⟨-, emitted, hd⟩ := Machine.dispatch_of_turn hn
    rw [Run.next, hd.steps, ih hgoing]

/-- **A run that has not jumped has taken no more steps than there are rows**: what it has
dispatched are the first of them. -/
theorem steps_le_length_rows (hjump : ∀ j, j + 1 < n → ¬p.JumpsAt c j) :
    (p.run c n).machine.steps ≤ p.rows.length := by
  have hfirst := offsets_prefix hjump
  have hle := hfirst.length_le
  rwa [length_offsets, List.length_map] at hle

/-- **An instruction without an immediate that such a run is about to execute is shown by a
row.** -/
theorem exists_row_of_at (hn : (p.run c n).result = none) (hjump : ∀ j < n, ¬p.JumpsAt c j)
    (hi : (p.run c n).machine.At i) (hnone : i.immediates = 0) :
    ∃ r ∈ p.rows, r.entry.head = .instruction i := by
  obtain ⟨r, rest, hrow, -, hr⟩ :=
    exists_row_of_ahead hn hjump (Machine.ahead_ne_nil_iff.mpr hi.ne_none)
  refine ⟨r, List.mem_of_getElem? hrow, ?_⟩
  have hword : (p.run c n).machine.ahead[0]? = some i.opcode :=
    ((p.run c n).machine.getElem?_ahead 0).trans hi
  generalize (p.run c n).machine.ahead = words, r.entry = e at hr hword ⊢
  cases hr with
  | unknown hw => exact absurd (Option.some.inj hword) (hw i)
  | plain => rw [Entry.head, Instruction.opcode_injective (Option.some.inj hword)]
  | immediate hone | truncated hone =>
    rw [Instruction.opcode_injective (Option.some.inj hword), hnone] at hone
    cases hone

/-! ### Programs without jumps -/

/-- **No row of the program shows a jump.** Words that are equal to the opcode of a jump may be
immediates. -/
def JumpFree (p : Program) : Prop :=
  ∀ r ∈ p.rows, r.entry.head ≠ .instruction .jump ∧ r.entry.head ≠ .instruction .jumpIf

instance (p : Program) : Decidable p.JumpFree :=
  inferInstanceAs (Decidable (∀ r ∈ p.rows, _))

/-- **How the run of a program without jumps may end.** -/
inductive StraightEnding (p : Program) (c : Config) : Result → Prop
  | halted : StraightEnding p c (.ok ())
  | underflow (ip : Nat) : StraightEnding p c (.error (.stackUnderflow ip))
  | overflow (ip capacity : Nat) : StraightEnding p c (.error (.stackOverflow ip capacity))
  | divisionByZero (ip : Nat) : StraightEnding p c (.error (.divisionByZero ip))
  /-- Only if there is a limit. -/
  | stepLimit {limit : Nat} (h : c.stepLimit = some limit) :
    StraightEnding p c (.error (.stepLimitExceeded limit))
  /-- At the end of the program, where there is no word. -/
  | atEnd : StraightEnding p c (.error (.invalidPointer (min p.size Exec.maxAddress : Nat)))

/-- **The run of a program ends as one without jumps does**, within its rows. -/
structure EndsWithinRows (p : Program) (c : Config) (u : Run) : Prop where
  /-- It ends. -/
  ends : p.Ends c u
  /-- It has taken no more steps than there are rows. -/
  steps : u.machine.steps ≤ p.rows.length
  /-- These are the lines of the listing. -/
  rows : p.rows.length = (Text.lines p.listing.toList).length
  /-- The machine has halted, or faulted in one of a few ways. -/
  result : ∃ result, u.result = some result ∧ u.machine.status = result.status ∧
    p.StraightEnding c result
  /-- The address at which there is no word is the length of the program, if a word can hold
  it. -/
  address : p.size ≤ Exec.maxAddress → ∀ x, u.result = some (.error (.invalidPointer x)) →
    x = p.size

namespace JumpFree

variable {e : Error} (h : p.JumpFree)

include h

/-- A run that has not jumped is not at a jump. -/
theorem not_at (hn : (p.run c n).result = none) (hjump : ∀ j < n, ¬p.JumpsAt c j) :
    ¬(p.run c n).machine.At .jump ∧ ¬(p.run c n).machine.At .jumpIf := by
  constructor
  · intro hi
    obtain ⟨r, hr, hhead⟩ := exists_row_of_at hn hjump hi rfl
    exact (h r hr).1 hhead
  · intro hi
    obtain ⟨r, hr, hhead⟩ := exists_row_of_at hn hjump hi rfl
    exact (h r hr).2 hhead

/-- **A run of a program without jumps never jumps.** -/
theorem not_jumpsAt (c : Config) (n : Nat) : ¬p.JumpsAt c n := by
  induction n using Nat.strongRecOn with
  | ind n ih =>
    rintro ⟨hn, hjump, -⟩
    obtain ⟨hno, hno'⟩ := h.not_at hn ih
    exact hjump.elim hno fun hi => hno' hi.1

theorem not_lastJump (t : Word) : ¬p.LastJump c n t :=
  fun ⟨j, _, hjump, _⟩ => h.not_jumpsAt c j hjump

/-- **A fault of a program without jumps** is one of a few. -/
theorem straightEnding_of_fault {fetched popped : Nat} (hn : (p.run c n).result = none)
    (hf : Fault (p.run c n).machine e fetched popped) : p.StraightEnding c (.error e) := by
  have hruns := runs_of_going hn
  obtain ⟨hno, hno'⟩ := h.not_at hn fun j _ => h.not_jumpsAt c j
  have hip : (p.run c n).machine.ip ≤ p.size :=
    (ip_of_going hn).resolve_right fun ⟨t, hjump, _⟩ => h.not_lastJump t hjump
  cases hf with
  | stepLimit hl _ =>
    rw [hruns.config] at hl
    exact .stepLimit hl
  | noOpcode hw =>
    rw [hruns.program] at hw
    rw [Nat.le_antisymm hip (get?_eq_none_iff.mp hw)]
    exact .atEnd
  | noImmediate hw _ hv =>
    have hlt := lt_size_of_get? hw
    rw [hruns.program] at hv hlt
    have hend : (p.run c n).machine.ip + 1 = p.size :=
      Nat.le_antisymm hlt (get?_eq_none_iff.mp hv)
    rw [hend]
    exact .atEnd
  | overflow => exact .overflow _ _
  | noOperand | oneOperand => exact .underflow _
  | zeroDivisor => exact .divisionByZero _
  | jump hw => exact absurd hw hno
  | jumpIf hw => exact absurd hw hno'

/-- A run of such a program that is over has ended in one of these ways. -/
theorem straightEnding_of_result {result : Result} (hresult : (p.run c n).result = some result) :
    p.StraightEnding c result := by
  rcases Nat.eq_zero_or_pos c.frameCapacity with hc | hc
  · -- Without room for the frame, the run has ended before its first turn.
    have hzero := (ended_run_zero_iff p c).mpr hc
    rw [run_of_ended hzero (Nat.zero_le n), run_zero_of_no_room hc] at hresult
    cases hresult
    exact .overflow 0 0
  · cases result with
    | ok u => exact .halted
    | error e =>
      obtain ⟨j, hj, -, fetched, popped, hf, -⟩ := exists_fault hc hresult
      exact h.straightEnding_of_fault hj hf

/-- **The run of a program without jumps ends**, whatever its limits are, after no more steps than
its listing has rows. It needs no more than one turn beyond these. -/
theorem endsWithinRows (c : Config) :
    p.EndsWithinRows c (p.run c (p.rows.length + 1)) := by
  have hsteps : (p.run c (p.rows.length + 1)).machine.steps ≤ p.rows.length :=
    steps_le_length_rows fun j _ => h.not_jumpsAt c j
  have hended : (p.run c (p.rows.length + 1)).result.isSome = true := by
    refine ((p.run c (p.rows.length + 1)).going_or_ended).resolve_left fun hgoing => ?_
    rw [steps_of_going hgoing] at hsteps
    exact Nat.not_succ_le_self _ hsteps
  obtain ⟨result, hresult⟩ := Option.isSome_iff_exists.mp hended
  have hending := h.straightEnding_of_result hresult
  refine ⟨⟨hended, _, rfl⟩, hsteps, ?_, ⟨result, hresult, status_run hresult, hending⟩,
    fun hsize x hx => ?_⟩
  · rw [lines_listing, List.length_map]
  · rw [Option.some.inj (hresult.symm.trans hx)] at hending
    cases hending with
    | atEnd => rw [Nat.min_eq_left hsize]

end JumpFree

/-- The opcodes of both jumps as immediates, and a word that is no opcode: three rows, three steps,
and the end of the program. -/
theorem endsWithinRows_jumps_as_immediates :
    let p := ofList [Instruction.push.opcode, Instruction.jump.opcode, Instruction.load.opcode,
      Instruction.jumpIf.opcode, 7]
    p.JumpFree ∧ p.EndsWithinRows {} (p.run {} (p.rows.length + 1)) ∧ p.rows.length = 3 ∧
      (p.run {} (p.rows.length + 1)).machine.steps = 3 ∧
      (p.run {} (p.rows.length + 1)).result = some (.error (.invalidPointer 5)) := by
  intro p
  have hfree : p.JumpFree := by
    unfold p
    decide
  refine ⟨hfree, hfree.endsWithinRows {}, ?_, ?_, ?_⟩
  · unfold p
    rfl
  · unfold p
    rfl
  · unfold p
    rfl

end Program

end StackMachine
