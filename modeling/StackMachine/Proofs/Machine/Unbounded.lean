import Mathlib.Data.Nat.Find
import StackMachine.Proofs.Machine.Invariant
import StackMachine.Proofs.Machine.Room

/-!
# Runs without a ceiling

The ceiling of the operand stack stops a run and does nothing else to it. To say so, a
run is compared with that of a machine whose operand stack has no ceiling. Such a machine
needs no new rules: no turn leaves more than one value more than it found, so it is enough
to raise the ceiling by one before every turn (`StackMachine.Program.runUnbounded`), and
no push will ever find the stack full.

As long as the stack of that run is no higher than a ceiling allows, the run under the
ceiling is the same, turn by turn. The turn that takes it higher for the first time is the
one in which the run under the ceiling overflows, and it does so before anything has
changed, since an instruction that takes operands off the stack never needs more room than
they leave.

* `StackMachine.Program.run_alike_runUnbounded` – the same run below the ceiling;
* `StackMachine.Program.exists_exceedsAt` – the overflow at it;
* `StackMachine.Program.run_roomier` – two ceilings, and two limits on the frames.
-/

namespace StackMachine

/-! ### The unbounded run -/

/-- The machine with its ceiling raised by one. -/
def Machine.raised (m : Machine) : Machine :=
  { m with stack :=
      ⟨m.stack.items, m.stack.capacity + 1, Nat.le_succ_of_le m.stack.length_le⟩ }

/-- **The run of a program on an operand stack without a ceiling**: whatever ceiling there
is gets out of the way of every turn. -/
def Program.runUnbounded (p : Program) (c : Config) : Nat → Run
  | 0 => p.run c 0
  | n + 1 =>
    let r := p.runUnbounded c n
    if r.result.isSome then r else { r with machine := r.machine.raised }.next

/-- The number of operands after so many turns of the unbounded run. -/
def Program.unboundedHeight (p : Program) (c : Config) (n : Nat) : Nat :=
  (p.runUnbounded c n).machine.stack.length

/-- **Two runs are alike**: the same events and the same end, and machines that differ in
their capacities only. -/
structure Run.Alike (r r' : Run) : Prop where
  machine : r.machine.Alike r'.machine
  events : r'.events = r.events
  result : r'.result = r.result

namespace Run.Alike

variable {r r' : Run}

theorem symm (h : r.Alike r') : r'.Alike r := ⟨h.machine.symm, h.events.symm, h.result.symm⟩

/-- Runs that are alike stay so when their next turns are alike. -/
theorem next (h : r.Alike r') (ht : r.machine.turn.Alike r'.machine.turn) :
    r.next.Alike r'.next := by
  refine ⟨ht.machine, ?_, ht.result⟩
  simp only [Run.next, h.events, ht.event]

end Run.Alike

namespace Machine

theorem alike_raised (m : Machine) : m.Alike m.raised := ⟨rfl, rfl, rfl, rfl, rfl, rfl, rfl, rfl⟩

/-- There always is room on a stack whose ceiling was just raised. -/
theorem room_raised (m : Machine) : m.raised.stack.toList.length < m.raised.stack.capacity := by
  rw [BoundedStack.length_toList]
  exact Nat.lt_succ_of_le m.stack.length_le

end Machine

namespace Program

variable {p : Program} {c c' : Config} {n : Nat}

theorem runUnbounded_succ_of_going (h : (p.runUnbounded c n).result = none) :
    p.runUnbounded c (n + 1) =
      { p.runUnbounded c n with machine := (p.runUnbounded c n).machine.raised }.next := by
  rw [runUnbounded]
  simp only [h, Option.isSome_none, Bool.false_eq_true, if_false]

theorem runUnbounded_succ_of_ended (h : (p.runUnbounded c n).result.isSome = true) :
    p.runUnbounded c (n + 1) = p.runUnbounded c n := by
  rw [runUnbounded]
  simp only [h, if_true]

/-- There is a frame all through the unbounded run. -/
theorem frames_runUnbounded (hc : 0 < c.frameCapacity) (n : Nat) :
    (p.runUnbounded c n).machine.frames.toList ≠ [] := by
  induction n with
  | zero => exact (runs_zero hc).frames_ne_nil
  | succ n ih =>
    rcases (p.runUnbounded c n).going_or_ended with hn | hn
    · rw [runUnbounded_succ_of_going hn]
      exact (Machine.kept_turn (m := (p.runUnbounded c n).machine.raised) ih).frames_ne_nil ih
    · rw [runUnbounded_succ_of_ended hn]
      exact ih

theorem not_overflows_raised (hc : 0 < c.frameCapacity) (n : Nat) :
    ¬Overflows (p.runUnbounded c n).machine.raised.turn.result :=
  Machine.not_overflows_turn (frames_runUnbounded hc n) (Machine.room_raised _)

theorem not_overflows_run_zero (hc : 0 < c.frameCapacity) : ¬Overflows (p.run c 0).result := by
  rintro ⟨e, he, -⟩
  rw [run_zero_of_room hc] at he
  cases he

/-- **Without a ceiling nothing overflows.** -/
theorem not_overflows_runUnbounded (hc : 0 < c.frameCapacity) (n : Nat) :
    ¬Overflows (p.runUnbounded c n).result := by
  induction n with
  | zero => exact not_overflows_run_zero hc
  | succ n ih =>
    rcases (p.runUnbounded c n).going_or_ended with hn | hn
    · rw [runUnbounded_succ_of_going hn]
      exact not_overflows_raised hc n
    · rw [runUnbounded_succ_of_ended hn]
      exact ih

/-! ### Below the ceiling, and at it -/

/-- Runs of machines with room for a frame begin alike, and the one with the higher ceiling
is roomier. -/
theorem run_zero_roomier {extra : Nat} (hc : 0 < c.frameCapacity) (hc' : 0 < c'.frameCapacity)
    (hl : c'.stepLimit = c.stepLimit) (hk : c'.stackCapacity = c.stackCapacity + extra) :
    (p.run c 0).Alike (p.run c' 0) ∧
      (p.run c 0).machine.Roomier [] extra (p.run c' 0).machine := by
  rw [run_zero_of_room hc, run_zero_of_room hc']
  have halike : Machine.Alike
      { Machine.load p c with status := .running, frames := ⟨[{}], c.frameCapacity, hc⟩ }
      { Machine.load p c' with status := .running, frames := ⟨[{}], c'.frameCapacity, hc'⟩ } :=
    ⟨rfl, hl, rfl, rfl, rfl, rfl, rfl, rfl⟩
  exact ⟨⟨halike, rfl, rfl⟩, halike, hk⟩

/-- **The ceiling stops the run in the turn behind the first `j`**: this turn of the
unbounded run takes the stack from as many values as the ceiling allows to one more, and
the run under the ceiling overflows in it, at the same offset and with nothing changed. -/
structure ExceedsAt (p : Program) (c : Config) (j : Nat) : Prop where
  going : (p.runUnbounded c j).result = none
  full : p.unboundedHeight c j = c.stackCapacity
  exceeded : p.unboundedHeight c (j + 1) = c.stackCapacity + 1
  ends : p.Ends c (p.run c (j + 1))
  result : (p.run c (j + 1)).result =
    some (.error (.stackOverflow (p.runUnbounded c j).machine.ip c.stackCapacity))
  operands : (p.run c (j + 1)).machine.stack.toList = (p.runUnbounded c j).machine.stack.toList
  frames : (p.run c (j + 1)).machine.frames.toList = (p.runUnbounded c j).machine.frames.toList
  events : (p.run c (j + 1)).events = (p.runUnbounded c j).events

/-- **One turn further**, the runs are still alike or the ceiling has stopped one of
them. -/
theorem alike_or_exceedsAt (hc : 0 < c.frameCapacity) (h : (p.run c n).Alike (p.runUnbounded c n)) :
    (p.run c (n + 1)).Alike (p.runUnbounded c (n + 1)) ∨ p.ExceedsAt c n := by
  rcases (p.run c n).going_or_ended with hn | hn
  · have hn' : (p.runUnbounded c n).result = none := h.result.trans hn
    have hruns := runs_of_going hn
    have hraised := h.machine.trans (Machine.alike_raised _)
    by_cases hover : Overflows (p.run c n).machine.turn.result
    · right
      obtain ⟨hresult, hevent, hfull, _, hleft⟩ :=
        Machine.of_overflows_turn hruns.frames_ne_nil hover
      obtain ⟨d, hd, hs⟩ := hleft.operands
      obtain rfl := List.eq_nil_of_length_eq_zero hd
      rw [List.append_nil] at hs
      obtain ⟨v, hv⟩ := Machine.operands_turn_of_overflows hraised hruns.frames_ne_nil hover
        (Machine.room_raised _)
      have hnext := run_succ_of_going hn
      refine ⟨hn', ?_, ?_, ⟨?_, n + 1, rfl⟩, ?_, ?_, ?_, ?_⟩
      · rw [unboundedHeight, ← BoundedStack.length_toList, h.machine.operands, List.nil_append,
          hfull, hruns.ceiling]
      · rw [unboundedHeight, runUnbounded_succ_of_going hn', ← BoundedStack.length_toList]
        change (Machine.turn _).machine.stack.toList.length = _
        rw [hv, List.length_append, hfull, hruns.ceiling, List.length_singleton]
      · rw [hnext]
        exact congrArg Option.isSome hresult
      · rw [hnext, ← hruns.ceiling, h.machine.ip]
        exact hresult
      · rw [hnext, h.machine.operands, List.nil_append]
        exact hs.symm
      · rw [hnext, h.machine.frames]
        exact congrArg BoundedStack.toList hleft.frames
      · rw [hnext, h.events, Run.next, hevent]
        exact Array.append_empty
    · left
      have hturn := hraised.turn hover (not_overflows_raised hc n)
      rw [run_succ_of_going hn, runUnbounded_succ_of_going hn']
      exact Run.Alike.next ⟨hraised, h.events, h.result⟩ hturn
  · left
    have hn' : (p.runUnbounded c n).result.isSome = true := by rw [h.result, hn]
    rw [run_of_ended hn (Nat.le_succ n), runUnbounded_succ_of_ended hn']
    exact h

/-- **Below the ceiling the run is the unbounded one.** -/
theorem run_alike_runUnbounded (hc : 0 < c.frameCapacity)
    (h : ∀ j ≤ n, p.unboundedHeight c j ≤ c.stackCapacity) :
    (p.run c n).Alike (p.runUnbounded c n) := by
  induction n with
  | zero => exact ⟨Machine.Alike.refl _, rfl, rfl⟩
  | succ n ih =>
    rcases alike_or_exceedsAt hc (ih fun j hj => h j (Nat.le_succ_of_le hj)) with halike | hexceeds
    · exact halike
    · have hle := h (n + 1) (Nat.le_refl _)
      have hlt := hexceeds.exceeded
      omega

/-- **The ceiling stops the run where the unbounded one exceeds it for the first time.** -/
theorem exists_exceedsAt (hc : 0 < c.frameCapacity)
    (h : c.stackCapacity < p.unboundedHeight c n) :
    ∃ j < n, (∀ i ≤ j, p.unboundedHeight c i ≤ c.stackCapacity) ∧ p.ExceedsAt c j := by
  have hex : ∃ i, c.stackCapacity < p.unboundedHeight c i := ⟨n, h⟩
  have hzero : p.unboundedHeight c 0 = 0 := by
    rw [unboundedHeight, runUnbounded, run_zero_of_room hc]
    rfl
  -- The first of all turns that exceed the ceiling has one before it.
  obtain ⟨j, hj⟩ : ∃ j, Nat.find hex = j + 1 := by
    refine Nat.exists_eq_succ_of_ne_zero fun hfind => ?_
    have hspec := Nat.find_spec hex
    rw [hfind, hzero] at hspec
    exact Nat.not_lt_zero _ hspec
  have hspec : c.stackCapacity < p.unboundedHeight c (j + 1) := hj ▸ Nat.find_spec hex
  have hbelow : ∀ i ≤ j, p.unboundedHeight c i ≤ c.stackCapacity := by
    intro i hi
    exact Nat.le_of_not_lt (Nat.find_min hex (by omega))
  have hjn : j + 1 ≤ n := hj ▸ Nat.find_min' hex h
  refine ⟨j, hjn, hbelow, ?_⟩
  rcases alike_or_exceedsAt hc (run_alike_runUnbounded hc hbelow) with halike | hexceeds
  · -- The run under the ceiling cannot have exceeded it.
    have hle := (p.run c (j + 1)).machine.stack.length_le_capacity
    rw [(runs_run hc (j + 1)).ceiling, halike.machine.symm.operands, List.nil_append,
      BoundedStack.length_toList] at hle
    exact absurd hspec (Nat.not_lt_of_ge hle)
  · exact hexceeds

/-! ### Two ceilings -/

/-- **A run that does not overflow is the same under a higher ceiling**, and any run is the
same with another limit on the frames. -/
theorem run_roomier {extra : Nat} (hc : 0 < c.frameCapacity) (hc' : 0 < c'.frameCapacity)
    (hl : c'.stepLimit = c.stepLimit) (hk : c'.stackCapacity = c.stackCapacity + extra)
    (hno : extra = 0 ∨ ¬Overflows (p.run c n).result) :
    (p.run c n).Alike (p.run c' n) ∧
      (p.run c n).machine.Roomier [] extra (p.run c' n).machine := by
  induction n with
  | zero => exact run_zero_roomier hc hc' hl hk
  | succ n ih =>
    rcases (p.run c n).going_or_ended with hn | hn
    · have hbefore : ¬Overflows (p.run c n).result := by
        rintro ⟨e, he, -⟩
        rw [hn] at he
        cases he
      obtain ⟨halike, hroomier⟩ := ih (Or.inr hbefore)
      have hn' : (p.run c' n).result = none := halike.result.trans hn
      rw [run_succ_of_going hn] at hno ⊢
      rw [run_succ_of_going hn']
      obtain ⟨hturn, hmachine⟩ := hroomier.turn hno
      exact ⟨halike.next hturn, hmachine⟩
    · have hsame := run_of_ended hn (Nat.le_succ n)
      rw [hsame] at hno ⊢
      obtain ⟨halike, hroomier⟩ := ih hno
      have hn' : (p.run c' n).result.isSome = true := by rw [halike.result, hn]
      rw [run_of_ended hn' (Nat.le_succ n)]
      exact ⟨halike, hroomier⟩

/-- **The unbounded run depends on no capacity**, as long as there is room for a frame. -/
theorem runUnbounded_alike (c' : Config) (hc : 0 < c.frameCapacity) (hc' : 0 < c'.frameCapacity)
    (hl : c'.stepLimit = c.stepLimit) (n : Nat) :
    (p.runUnbounded c n).Alike (p.runUnbounded c' n) := by
  induction n with
  | zero =>
    rcases Nat.le_total c.stackCapacity c'.stackCapacity with hle | hle
    · exact (run_zero_roomier hc hc' hl (Nat.add_sub_of_le hle).symm).1
    · exact (run_zero_roomier hc' hc hl.symm (Nat.add_sub_of_le hle).symm).1.symm
  | succ n ih =>
    rcases (p.runUnbounded c n).going_or_ended with hn | hn
    · have hn' : (p.runUnbounded c' n).result = none := ih.result.trans hn
      have hraised :=
        ((Machine.alike_raised _).symm.trans ih.machine).trans (Machine.alike_raised _)
      have hturn := hraised.turn (not_overflows_raised hc n) (not_overflows_raised hc' n)
      rw [runUnbounded_succ_of_going hn, runUnbounded_succ_of_going hn']
      exact Run.Alike.next ⟨hraised, ih.events, ih.result⟩ hturn
    · have hn' : (p.runUnbounded c' n).result.isSome = true := by rw [ih.result, hn]
      rw [runUnbounded_succ_of_ended hn, runUnbounded_succ_of_ended hn']
      exact ih

/-- **The runs of a program under ceilings simulate the one without.** -/
structure SimulatesUnbounded (p : Program) (c : Config) : Prop where
  /-- Without a ceiling there is one run, which does not overflow. -/
  unbounded : ∀ n, ¬Overflows (p.runUnbounded c n).result ∧ ∀ k f, 0 < f →
    (p.runUnbounded c n).Alike (p.runUnbounded { c with stackCapacity := k, frameCapacity := f } n)
  /-- As long as the stack of the unbounded run is no higher than the ceiling, the run under
  the ceiling is the same. -/
  below : ∀ n, (∀ j ≤ n, p.unboundedHeight c j ≤ c.stackCapacity) →
    (p.run c n).Alike (p.runUnbounded c n)
  /-- Otherwise the run under the ceiling overflows where the unbounded one exceeds the
  ceiling for the first time. -/
  above : ∀ n, c.stackCapacity < p.unboundedHeight c n →
    ∃ j < n, (∀ i ≤ j, p.unboundedHeight c i ≤ c.stackCapacity) ∧ p.ExceedsAt c j
  /-- A higher ceiling changes nothing about a run that does not overflow. -/
  higher : ∀ n, ∀ k ≥ c.stackCapacity, ¬Overflows (p.run c n).result →
    (p.run c n).Alike (p.run { c with stackCapacity := k } n)
  /-- Another limit on the frames changes nothing about any run. -/
  frames : ∀ n, ∀ f > 0, (p.run c n).Alike (p.run { c with frameCapacity := f } n)

/-- **Every program under a ceiling simulates the program without one**, on a machine with
room for a frame. -/
theorem simulatesUnbounded (hc : 0 < c.frameCapacity) : p.SimulatesUnbounded c where
  unbounded n := ⟨not_overflows_runUnbounded hc n, fun k f hf =>
    runUnbounded_alike { c with stackCapacity := k, frameCapacity := f } hc hf rfl n⟩
  below _ h := run_alike_runUnbounded hc h
  above _ h := exists_exceedsAt hc h
  higher _ k hk hno :=
    have hk' : k = c.stackCapacity + (k - c.stackCapacity) := (Nat.add_sub_of_le hk).symm
    And.left (run_roomier hc hc rfl hk' (Or.inr hno))
  frames _ _ hf := And.left (run_roomier hc hf rfl (Nat.add_zero _).symm (Or.inl rfl))

/-- Two values fit, and the sum of them takes no third place; the next two are one too
many, and the overflow is at the second of their instructions. -/
theorem simulatesUnbounded_sum_at_ceiling :
    let p := ofList [Instruction.push.opcode, 1, Instruction.push.opcode, 2,
      Instruction.add.opcode, Instruction.dup.opcode, Instruction.dup.opcode]
    let c : Config := { stackCapacity := 2 }
    0 < c.frameCapacity ∧ p.SimulatesUnbounded c ∧ p.unboundedHeight c 5 = 3 ∧
      (p.run c 5).result = some (.error (.stackOverflow 6 2)) := by
  intro p c
  refine ⟨by decide, simulatesUnbounded (by decide), ?_, ?_⟩
  · unfold p c
    rfl
  · unfold p c
    rfl

end Program

end StackMachine
