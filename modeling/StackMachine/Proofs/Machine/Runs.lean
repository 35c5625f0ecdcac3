import StackMachine.Machine.Run

/-!
# Runs, turn by turn

A run is a sequence of turns that stops when one of them has a result. What this
file says about it needs nothing about the turns: a run can be taken one turn
further from where it got, an ended run stays as it is, so that there is at most one
ended run of a program, and the events of a run only ever grow.

* `StackMachine.Program.Ends` – a run of the program ends in this way;
* `StackMachine.Program.Ends.start_or_next` – an ended run has ended at the start or
  by a last turn.
-/

namespace StackMachine

/-! ### Turns -/

namespace Machine

variable {m n : Machine}

/-- A turn whose step succeeds goes on, unless the step has halted the machine. -/
theorem turn_of_step_ok {event : Option Event} (h : Exec.step m = .ok event n) :
    m.turn = ⟨n, event, if n.status = .running then none else some (.ok ())⟩ := by
  rw [turn, h]

/-- A turn whose step fails ends the run. -/
theorem turn_of_step_error {e : Error} (h : Exec.step m = .error e n) :
    m.turn = ⟨{ n with status := .faulted }, none, some (.error e)⟩ := by
  rw [turn, h]

end Machine

/-! ### Runs -/

namespace Run

/-- A run is going on or has ended. -/
theorem going_or_ended (r : Run) : r.result = none ∨ r.result.isSome = true := by
  cases r.result with
  | none => exact Or.inl rfl
  | some a => exact Or.inr rfl

/-- An ended run stays as it is. -/
theorem advance_of_ended {r : Run} (h : r.result.isSome = true) (n : Nat) :
    r.advance n = r := by
  cases n with
  | zero => rfl
  | succ n => rw [advance, if_pos h]

/-- **A run is taken one turn further at its end**, although it is defined by its
first turn. -/
theorem advance_succ (r : Run) (n : Nat) :
    r.advance (n + 1) =
      if (r.advance n).result.isSome then r.advance n else (r.advance n).next := by
  induction n generalizing r with
  | zero => rfl
  | succ n ih =>
    by_cases h : r.result.isSome = true
    · rw [advance_of_ended h, advance_of_ended h, if_pos h]
    · have hn : r.advance (n + 1) = r.next.advance n := by rw [advance, if_neg h]
      rw [advance, if_neg h, ih, hn]

theorem events_next (r : Run) : r.events.toList <+: r.next.events.toList := by
  rw [next, Array.toList_append]
  exact List.prefix_append _ _

end Run

namespace Program

variable {p : Program} {c : Config} {r u : Run} {j k : Nat}

theorem run_succ (p : Program) (c : Config) (n : Nat) :
    p.run c (n + 1) = if (p.run c n).result.isSome then p.run c n else (p.run c n).next :=
  Run.advance_succ _ n

theorem run_succ_of_going (h : (p.run c j).result = none) :
    p.run c (j + 1) = (p.run c j).next := by
  rw [run_succ, h]
  rfl

/-- **More fuel does nothing to an ended run.** -/
theorem run_of_ended (h : (p.run c j).result.isSome = true) (hjk : j ≤ k) :
    p.run c k = p.run c j := by
  induction hjk with
  | refl => rfl
  | @step k _ ih =>
    have hk : (p.run c k).result.isSome = true := by rw [ih, h]
    rw [run_succ, if_pos hk, ih]

/-- A run that is going on has been going on all the time. -/
theorem run_going_of_le (h : (p.run c k).result = none) (hjk : j ≤ k) :
    (p.run c j).result = none := by
  rcases (p.run c j).going_or_ended with hj | hj
  · exact hj
  · rw [← run_of_ended hj hjk, h] at hj
    cases hj

/-- The events of a run only ever grow. -/
theorem events_prefix (p : Program) (c : Config) (hjk : j ≤ k) :
    (p.run c j).events.toList <+: (p.run c k).events.toList := by
  induction hjk with
  | refl => exact List.prefix_rfl
  | step _ ih =>
    rw [run_succ]
    split
    · exact ih
    · exact ih.trans (Run.events_next _)

/-! ### The start -/

/-- Without room for the top-level frame, a run ends before its first turn. -/
theorem run_zero_of_no_room (h : c.frameCapacity = 0) :
    p.run c 0 = ⟨{ Machine.load p c with status := .faulted }, #[],
      some (.error (.stackOverflow 0 0))⟩ := by
  change Run.start (Machine.load p c) = _
  simp [Run.start, Machine.load, Machine.enter, BoundedStack.empty, BoundedStack.push, h,
    StackError.toFault]

/-- With room for it, a run begins at the address zero, in that frame. -/
theorem run_zero_of_room (h : 0 < c.frameCapacity) :
    p.run c 0 = ⟨{ Machine.load p c with
      status := .running, frames := ⟨[{}], c.frameCapacity, h⟩ }, #[], none⟩ := by
  change Run.start (Machine.load p c) = _
  simp [Run.start, Machine.load, Machine.enter, BoundedStack.empty, BoundedStack.push,
    BoundedStack.length, Nat.ne_of_gt h]

/-- **A run is refused at the start exactly when there is no room for a frame.** -/
theorem ended_run_zero_iff (p : Program) (c : Config) :
    (p.run c 0).result.isSome = true ↔ c.frameCapacity = 0 := by
  rcases Nat.eq_zero_or_pos c.frameCapacity with h | h
  · simp [run_zero_of_no_room h, h]
  · simp [run_zero_of_room h, Nat.ne_of_gt h]

/-! ### Ended runs -/

/-- **A run of the program ends** as given. -/
def Ends (p : Program) (c : Config) (r : Run) : Prop :=
  r.result.isSome = true ∧ ∃ fuel, p.run c fuel = r

/-- There is at most one way in which a run ends. -/
theorem Ends.unique (h : p.Ends c r) (h' : p.Ends c u) : r = u := by
  obtain ⟨hr, j, rfl⟩ := h
  obtain ⟨hu, k, rfl⟩ := h'
  rcases Nat.le_total j k with hjk | hkj
  · exact (run_of_ended hr hjk).symm
  · exact run_of_ended hu hkj

/-- A run that is over with some result is never over with another one. -/
theorem result_unique {r u : Result} (h : (p.run c j).result = some r)
    (h' : (p.run c k).result = some u) : r = u := by
  have hends : p.Ends c (p.run c j) := ⟨by rw [h, Option.isSome_some], j, rfl⟩
  have hends' : p.Ends c (p.run c k) := ⟨by rw [h', Option.isSome_some], k, rfl⟩
  rw [hends.unique hends', h'] at h
  exact (Option.some.inj h).symm

/-- **An ended run has ended at the start or by a last turn.** -/
theorem Ends.start_or_next (h : p.Ends c u) :
    (p.run c 0).result.isSome = true ∧ u = p.run c 0 ∨
      ∃ j, (p.run c j).result = none ∧ u = (p.run c j).next ∧ u = p.run c (j + 1) := by
  obtain ⟨hu, k, rfl⟩ := h
  induction k with
  | zero => exact Or.inl ⟨hu, rfl⟩
  | succ k ih =>
    rcases (p.run c k).going_or_ended with hk | hk
    · exact Or.inr ⟨k, hk, run_succ_of_going hk, rfl⟩
    · rw [run_of_ended hk (Nat.le_succ k)]
      exact ih hk

end Program

end StackMachine
