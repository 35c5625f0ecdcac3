import StackMachine.Proofs.Machine.Invariant
import StackMachine.Proofs.Machine.Lockstep
import StackMachine.Proofs.Program.Basic

/-!
# Only what is fetched matters

A machine looks at its program in one way only, by fetching a word, and a step fetches at
most two: the one at the instruction pointer, and the one behind it when the first is the
opcode of an instruction with an immediate. Which addresses a run fetches from is
therefore settled by the run itself, `StackMachine.Program.Fetches`, and a program that
has the same words there has the same run: all others may be exchanged, added or left
out.

A fetch may also find no word, and this counts as well: there the other program must not
have one either. It is the one way in which the length of a program can be told, and a
run that never does it does not change when words are added at the end.

* `StackMachine.Machine.turn_withProgram` – one turn, in lockstep;
* `StackMachine.Program.run_withProgram` – the whole run;
* `StackMachine.Program.run_of_fetches` – both ways to say it.
-/

namespace StackMachine

/-! ### The same with another program -/

/-- The machine with another program. -/
def Machine.withProgram (m : Machine) (q : Program) : Machine := { m with program := q }

/-- What a turn came to, on the machine with another program. -/
def Turn.withProgram (t : Turn) (q : Program) : Turn :=
  { t with machine := t.machine.withProgram q }

/-- The run of the machine with another program: the same result, the same events, and
the same machine in everything but the program. -/
def Run.withProgram (r : Run) (q : Program) : Run :=
  { r with machine := r.machine.withProgram q }

/-! ### The addresses of a run -/

/-- **A step of the machine tries to fetch from an address**: from the instruction pointer
if the budget allows a step at all, and from behind it if the word there is the opcode of
an instruction with an immediate. -/
def Machine.Fetches (m : Machine) (a : Nat) : Prop :=
  m.WithinBudget ∧ (a = m.ip ∨ ∃ i : Instruction, m.At i ∧ i.immediates = 1 ∧ a = m.ip + 1)

/-- **A run of the program tries to fetch from an address**, in one of its turns. -/
def Program.Fetches (p : Program) (c : Config) (a : Nat) : Prop :=
  ∃ j, (p.run c j).result = none ∧ (p.run c j).machine.Fetches a

/-! ### One turn -/

namespace Exec

variable {m : Machine} {q : Program}

/-- Two machines that differ in their programs only. -/
def SameButProgram (q : Program) (m m' : Machine) : Prop := m' = m.withProgram q

theorem mirrors_sameButProgram : Mirrors (SameButProgram q) where
  origin := by rintro m m' rfl; rfl
  stack := by rintro m m' rfl; rfl
  frames := by rintro m m' rfl; rfl
  setStack := by rintro m m' s rfl; rfl
  setFrames := by rintro m m' s rfl; rfl
  setIp := by rintro m m' ip rfl; rfl
  halt := by rintro m m' rfl; rfl

/-- A fetch depends on the word that it fetches. -/
theorem matched_fetch (h : q.get? m.ip = m.program.get? m.ip) :
    Matched (SameButProgram q) (fetch m) (fetch (m.withProgram q)) := by
  simp only [fetch, Machine.withProgram, h]
  cases m.program.get? m.ip with
  | none => exact .error (.invalidPointer _) rfl
  | some w => exact .ok rfl

/-- **Dispatching depends on the words that it fetches**, and on no others. -/
theorem matched_dispatch_withProgram (hop : q.get? m.ip = m.program.get? m.ip)
    (himm : ∀ i : Instruction, m.At i → i.immediates = 1 →
      q.get? (m.ip + 1) = m.program.get? (m.ip + 1)) :
    Matched (SameButProgram q) (dispatch m) (dispatch (m.withProgram q)) := by
  cases hw : m.program.get? m.ip with
  | none =>
    rw [dispatch_of_none hw, dispatch_of_none (m := m.withProgram q) (hop.trans hw)]
    exact .error (.invalidPointer _) rfl
  | some w =>
    rw [dispatch_of_some hw, dispatch_of_some (m := m.withProgram q) (hop.trans hw)]
    cases hi : Instruction.decode? w with
    | none => exact .ok rfl
    | some i =>
      rw [Instruction.decode?_eq_some_iff.mp hi] at hw
      have hm : SameButProgram q (m.dispatched 1) ((m.withProgram q).dispatched 1) := rfl
      exact mirrors_sameButProgram.respects.execute i hm fun hone =>
        matched_fetch (m := m.dispatched 1) (himm i hw hone)

end Exec

namespace Machine

variable {m : Machine} {q : Program} {a : Nat}

/-- **A turn is the same with a program that has the same words where it fetches.** -/
theorem turn_withProgram (h : ∀ a, m.Fetches a → q.get? a = m.program.get? a) :
    (m.withProgram q).turn = m.turn.withProgram q := by
  rcases m.withinBudget_or_exhausted with hbudget | ⟨limit, hl, hlimit⟩
  · have hop := h m.ip ⟨hbudget, Or.inl rfl⟩
    have hd := Exec.matched_dispatch_withProgram hop fun i hi hone =>
      h (m.ip + 1) ⟨hbudget, Or.inr ⟨i, hi, hone, rfl⟩⟩
    unfold turn
    rw [Exec.step_eq_dispatch hbudget, Exec.step_eq_dispatch (m := m.withProgram q) hbudget]
    generalize Exec.dispatch m = r, Exec.dispatch (m.withProgram q) = r' at hd ⊢
    cases hd with
    | ok hn =>
      obtain rfl := hn
      rfl
    | error _ hn =>
      obtain rfl := hn
      rfl
  · -- A turn beyond the budget fetches nothing.
    rw [turn_of_step_error (Exec.step_of_exhausted hl hlimit),
      turn_of_step_error (Exec.step_of_exhausted (m := m.withProgram q) hl hlimit)]
    rfl

/-- **A fetch that finds no word ends the run**, and names the address. -/
theorem result_turn_of_fetch (hframe : m.frames.toList ≠ []) (h : m.Fetches a)
    (hnone : m.program.get? a = none) :
    m.turn.result = some (.error (.invalidPointer (min a Exec.maxAddress : Nat))) := by
  obtain ⟨hbudget, ha⟩ := h
  have hfault : ∃ fetched popped,
      Fault m (.invalidPointer (min a Exec.maxAddress : Nat)) fetched popped := by
    rcases ha with rfl | ⟨i, hi, hone, rfl⟩
    · exact ⟨0, 0, .noOpcode hnone⟩
    · exact ⟨1, 0, .noImmediate hi hone hnone⟩
  obtain ⟨m', hstep⟩ := (Exec.step_fails_iff hbudget hframe).mpr hfault
  rw [turn_of_step_error hstep]

end Machine

/-! ### Runs -/

namespace Program

variable {p q : Program} {c : Config} {a : Nat}

theorem run_zero_withProgram (p q : Program) (c : Config) :
    q.run c 0 = (p.run c 0).withProgram q := by
  rcases Nat.eq_zero_or_pos c.frameCapacity with h | h
  · rw [run_zero_of_no_room h, run_zero_of_no_room h]
    rfl
  · rw [run_zero_of_room h, run_zero_of_room h]
    rfl

/-- **A run is the same with a program that has the same words where it fetches.** -/
theorem run_withProgram (h : ∀ a, p.Fetches c a → q.get? a = p.get? a) (n : Nat) :
    q.run c n = (p.run c n).withProgram q := by
  induction n with
  | zero => exact run_zero_withProgram p q c
  | succ n ih =>
    rw [run_succ, run_succ, ih]
    rcases (p.run c n).going_or_ended with hn | hn
    · have hturn : ((p.run c n).machine.withProgram q).turn =
          (p.run c n).machine.turn.withProgram q := by
        refine Machine.turn_withProgram fun a ha => ?_
        rw [(runs_of_going hn).program]
        exact h a ⟨n, hn, ha⟩
      simp only [Run.withProgram, hn, Option.isSome_none, Bool.false_eq_true, if_false, Run.next,
        hturn, Turn.withProgram]
    · simp only [Run.withProgram, hn, if_true]

/-- A run that fetches from outside the program ends by it. -/
theorem exists_ends_of_fetches (h : p.Fetches c a) (hnone : p.get? a = none) :
    ∃ u, p.Ends c u ∧
      u.result = some (.error (.invalidPointer (min a Exec.maxAddress : Nat))) := by
  obtain ⟨j, hj, ha⟩ := h
  have hruns := runs_of_going hj
  rw [← hruns.program] at hnone
  have hresult := Machine.result_turn_of_fetch hruns.frames_ne_nil ha hnone
  have hrun : (p.run c (j + 1)).result =
      some (.error (.invalidPointer (min a Exec.maxAddress : Nat))) := by
    rw [run_succ_of_going hj]
    exact hresult
  exact ⟨_, ⟨by rw [hrun]; rfl, j + 1, rfl⟩, hrun⟩

/-- **Only the words that are fetched matter.** A program that has the same words, or none,
wherever the run of another one tries to fetch, has the same run at every moment of it. And
words added at the end change nothing about a run, unless it ends at an address behind
the program; an address too large for a word is shown as the largest one. -/
theorem run_of_fetches (p : Program) (c : Config) :
    (∀ q : Program, (∀ a, p.Fetches c a → q.get? a = p.get? a) →
      ∀ n, q.run c n = (p.run c n).withProgram q) ∧
    ∀ extra : List Word,
      (∀ u x, p.Ends c u → u.result = some (.error (.invalidPointer x)) →
        x < (min p.size Exec.maxAddress : Nat)) →
      ∀ n, (ofList (p.toList ++ extra)).run c n =
        (p.run c n).withProgram (ofList (p.toList ++ extra)) := by
  refine ⟨fun q h n => run_withProgram h n, fun extra h n => run_withProgram (fun a ha => ?_) n⟩
  refine get?_append_of_lt (Nat.lt_of_not_le fun hle => ?_) extra
  -- A fetch from behind the program would have ended the run there.
  obtain ⟨u, hu, hresult⟩ := exists_ends_of_fetches ha (get?_eq_none_iff.mpr hle)
  have hlt := h u _ hu hresult
  omega

/-- A jump over a word that is never fetched: the word may be any other, and behind the
program there may be more. -/
theorem run_of_fetches_skipped_word :
    let p := ofList [Instruction.push.opcode, 4, Instruction.jump.opcode, 7,
      Instruction.halt.opcode]
    let q := ofList [Instruction.push.opcode, 4, Instruction.jump.opcode, -1,
      Instruction.halt.opcode]
    (∀ a, p.Fetches {} a → q.get? a = p.get? a) ∧
      (∀ n, q.run {} n = (p.run {} n).withProgram q) ∧
      (∀ u x, p.Ends {} u → u.result = some (.error (.invalidPointer x)) →
        x < (min p.size Exec.maxAddress : Nat)) ∧
      ∀ n, (ofList (p.toList ++ [9])).run {} n =
        (p.run {} n).withProgram (ofList (p.toList ++ [9])) := by
  intro p q
  have hhalt : (p.run {} 3).result = some (.ok ()) := by
    unfold p
    rfl
  have hskip : ∀ a, p.Fetches {} a → a ≠ 3 := by
    rintro a ⟨j, hj, -, ha⟩ rfl
    have hlt : j < 3 := by
      refine Nat.lt_of_not_le fun hle => ?_
      rw [run_of_ended (by rw [hhalt]; rfl) hle, hhalt] at hj
      cases hj
    -- The pointer is at one of the three opcodes, and only the first has an immediate.
    have hip : (p.run {} j).machine.ip = 2 * j := by
      obtain rfl | rfl | rfl : j = 0 ∨ j = 1 ∨ j = 2 := by omega
      all_goals rfl
    rw [hip] at ha
    rcases ha with ha | ⟨i, hi, hone, ha⟩
    · omega
    · obtain rfl : j = 1 := by omega
      rw [Machine.At, (runs_of_going hj).program, hip] at hi
      rw [← Instruction.opcode_injective (i := .jump) (Option.some.inj hi)] at hone
      cases hone
  have hsame : ∀ a, p.Fetches {} a → q.get? a = p.get? a := by
    intro a ha
    have hne := hskip a ha
    obtain rfl | rfl | rfl | rfl | ha : a = 0 ∨ a = 1 ∨ a = 2 ∨ a = 4 ∨ 5 ≤ a := by omega
    · rfl
    · rfl
    · rfl
    · rfl
    · rw [get?_eq_none_iff.mpr ha, get?_eq_none_iff.mpr ha]
  have hends : ∀ u x, p.Ends {} u → u.result = some (.error (.invalidPointer x)) →
      x < (min p.size Exec.maxAddress : Nat) := by
    intro u x hu hx
    rw [hu.unique ⟨by rw [hhalt]; rfl, 3, rfl⟩, hhalt] at hx
    cases hx
  exact ⟨hsame, (run_of_fetches p {}).1 q hsame, hends, (run_of_fetches p {}).2 [9] hends⟩

end Program

end StackMachine
