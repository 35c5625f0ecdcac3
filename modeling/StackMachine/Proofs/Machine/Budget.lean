import Mathlib.Order.Bounds.Defs
import StackMachine.Proofs.Machine.Lockstep
import StackMachine.Proofs.Machine.Runs

/-!
# Budgets

A step budget cuts a run and does nothing else to it: a machine with a budget and
the same machine without one go in lockstep until the budget is used up.

The count of steps is what ties the budget to the turns. As long as a run goes on,
every turn dispatches one word and counts it, so after `j` turns the count is `j`;
only the last turn may fail to find a word, and then it counts nothing.
-/

namespace StackMachine

/-! ### The same with another budget -/

/-- The limits with another budget. -/
def Config.withLimit (c : Config) (l : Option Nat) : Config := { c with stepLimit := l }

/-- The machine with another budget. -/
def Machine.withLimit (m : Machine) (l : Option Nat) : Machine :=
  { m with config := m.config.withLimit l }

/-- What a turn came to, on the machine with another budget. -/
def Turn.withLimit (t : Turn) (l : Option Nat) : Turn :=
  { t with machine := t.machine.withLimit l }

/-- The run of the machine with another budget: the same result, the same events, and
the same machine in everything but the budget. -/
def Run.withLimit (r : Run) (l : Option Nat) : Run :=
  { r with machine := r.machine.withLimit l }

theorem Machine.withLimit_none {m : Machine} (hm : m.config.stepLimit = none) :
    m.withLimit none = m := by
  simp only [withLimit, Config.withLimit, ← hm]

theorem Run.withLimit_none {r : Run} (hr : r.machine.config.stepLimit = none) :
    r.withLimit none = r := by
  simp only [withLimit, Machine.withLimit_none hr]

theorem Run.withLimit_withLimit (r : Run) (l l' : Option Nat) :
    (r.withLimit l).withLimit l' = r.withLimit l' :=
  rfl

/-- The run ended because its budget was used up. -/
def Run.Exceeded (r : Run) : Prop :=
  ∃ limit, r.result = some (.error (.stepLimitExceeded limit))

/-- **The run of a program within a budget**: `k` steps and the turn that finds the
budget used up. -/
def Program.runWithin (p : Program) (c : Config) (k : Nat) : Run :=
  p.run (c.withLimit (some k)) (k + 1)

/-! ### One turn -/

namespace Exec

variable {l : Option Nat} {p : Program} {n : Nat}

/-- Two machines that run the same program and differ in their budgets only, while
the count of steps is `n`. -/
def SameButLimit (l : Option Nat) (p : Program) (n : Nat) (m m' : Machine) : Prop :=
  m' = m.withLimit l ∧ m.program = p ∧ m.steps = n

theorem mirrors_sameButLimit : Mirrors (SameButLimit l p n) where
  origin := by rintro m m' ⟨rfl, -, -⟩; rfl
  stack := by rintro m m' ⟨rfl, -, -⟩; rfl
  frames := by rintro m m' ⟨rfl, -, -⟩; rfl
  setStack := by rintro m m' s ⟨rfl, hp, hn⟩; exact ⟨rfl, hp, hn⟩
  setFrames := by rintro m m' s ⟨rfl, hp, hn⟩; exact ⟨rfl, hp, hn⟩
  setIp := by rintro m m' ip ⟨rfl, hp, hn⟩; exact ⟨rfl, hp, hn⟩
  halt := by rintro m m' ⟨rfl, hp, hn⟩; exact ⟨rfl, hp, hn⟩

/-- A fetch does not look at the budget. -/
theorem lockstep_fetch_sameButLimit : Lockstep (SameButLimit l p n) fetch fetch := by
  rintro m m' ⟨rfl, hp, hn⟩
  simp only [fetch, Machine.withLimit]
  cases m.program.get? m.ip with
  | none => exact .error (.invalidPointer _) ⟨rfl, hp, hn⟩
  | some w => exact .ok ⟨rfl, hp, hn⟩

/-- **Dispatching counts a word exactly when there is one**, and does not depend on
the budget. -/
theorem matched_dispatch (m : Machine) (l : Option Nat) :
    Matched (SameButLimit l m.program (m.steps + if (m.program.get? m.ip).isSome then 1 else 0))
      (dispatch m) (dispatch (m.withLimit l)) := by
  cases hw : m.program.get? m.ip with
  | none =>
    rw [dispatch_of_none hw, dispatch_of_none (m := m.withLimit l) hw]
    exact .error (.invalidPointer _) ⟨rfl, rfl, rfl⟩
  | some w =>
    rw [dispatch_of_some hw, dispatch_of_some (m := m.withLimit l) hw]
    have hm : SameButLimit l m.program (m.steps + 1) (m.dispatched 1)
        ((m.withLimit l).dispatched 1) := ⟨rfl, rfl, rfl⟩
    cases Instruction.decode? w with
    | none => exact .ok hm
    | some i =>
      exact mirrors_sameButLimit.respects.execute i hm fun _ => lockstep_fetch_sameButLimit hm

end Exec

namespace Machine

variable {m : Machine} {k : Nat}

/-- **A turn that the budget allows counts a word** exactly when there is one. -/
theorem steps_turn (hbudget : m.WithinBudget) :
    m.turn.machine.steps = m.steps + if (m.program.get? m.ip).isSome then 1 else 0 := by
  have hd := Exec.matched_dispatch m none
  unfold turn
  rw [Exec.step_eq_dispatch hbudget]
  generalize Exec.dispatch m = r, Exec.dispatch (m.withLimit none) = r' at hd ⊢
  cases hd with
  | ok hn | error _ hn => exact hn.2.2

/-- **A turn within the budget** is the turn without one. -/
theorem turn_withLimit (hm : m.config.stepLimit = none) (hk : m.steps < k) :
    (m.withLimit (some k)).turn = m.turn.withLimit (some k) := by
  have hfree := Exec.step_of_unlimited hm
  have hcut : Exec.step (m.withLimit (some k)) = Exec.dispatch (m.withLimit (some k)) :=
    Exec.step_eq_dispatch fun limit hl => by cases hl; exact hk
  have hd := Exec.matched_dispatch m (some k)
  unfold turn
  rw [hfree, hcut]
  generalize Exec.dispatch m = r, Exec.dispatch (m.withLimit (some k)) = r' at hd ⊢
  cases hd with
  | ok hn =>
    obtain ⟨rfl, -, -⟩ := hn
    rfl
  | error _ hn =>
    obtain ⟨rfl, -, -⟩ := hn
    rfl

/-- **A turn beyond the budget** is the end of the run, and changes nothing else. -/
theorem turn_of_exhausted (hk : k ≤ m.steps) :
    (m.withLimit (some k)).turn =
      ⟨{ m.withLimit (some k) with status := .faulted }, none,
        some (.error (.stepLimitExceeded k))⟩ :=
  turn_of_step_error (Exec.step_of_exhausted (m := m.withLimit (some k)) rfl hk)

/-- **What a turn without a budget does to the bookkeeping**: it keeps the program,
there still is no budget, the count goes up by one word if there was one to find, and
the run ends without one. -/
structure FreeTurn (m : Machine) (t : Turn) : Prop where
  program : t.machine.program = m.program
  stepLimit : t.machine.config.stepLimit = none
  steps : t.machine.steps = m.steps + if (m.program.get? m.ip).isSome then 1 else 0
  notExceeded : ∀ limit, t.result ≠ some (.error (.stepLimitExceeded limit))
  noWord : m.program.get? m.ip = none →
    ∃ target, t.result = some (.error (.invalidPointer target))

theorem freeTurn (hm : m.config.stepLimit = none) : FreeTurn m m.turn := by
  have hstep := Exec.step_of_unlimited hm
  have hno : m.program.get? m.ip = none →
      ∃ target, m.turn.result = some (.error (.invalidPointer target)) := by
    intro hw
    rw [turn_of_step_error (hstep.trans (Exec.dispatch_of_none hw))]
    exact ⟨_, rfl⟩
  -- The machine without a budget is the same with no budget, so it matches itself.
  have hd := Exec.matched_dispatch m none
  rw [withLimit_none hm, ← hstep] at hd
  cases hr : Exec.step m with
  | ok event n =>
    rw [hr] at hd
    obtain ⟨hn, hp, hc⟩ := hd.rel_ok
    have hl : n.config.stepLimit = none := by rw [hn]; rfl
    rw [turn_of_step_ok hr] at hno ⊢
    refine ⟨hp, hl, hc, fun limit h => ?_, hno⟩
    dsimp only at h
    split at h <;> cases h
  | error e n =>
    rw [hr] at hd
    obtain ⟨he, hn, hp, hc⟩ := hd.rel_error
    have hl : n.config.stepLimit = none := by rw [hn]; rfl
    rw [turn_of_step_error hr] at hno ⊢
    refine ⟨hp, hl, hc, fun limit h => ?_, hno⟩
    cases h
    cases he

end Machine

/-! ### Runs -/

namespace Program

variable {p : Program} {c : Config} {r u : Run} {j k : Nat}

theorem run_zero_withLimit (p : Program) (c : Config) (l : Option Nat) :
    p.run (c.withLimit l) 0 = (p.run (c.withLimit none) 0).withLimit l := by
  rcases Nat.eq_zero_or_pos c.frameCapacity with h | h
  · rw [run_zero_of_no_room (c := c.withLimit l) h,
      run_zero_of_no_room (c := c.withLimit none) h]
    rfl
  · rw [run_zero_of_room (c := c.withLimit l) h,
      run_zero_of_room (c := c.withLimit none) h]
    rfl

/-- **The bookkeeping of a run without a budget**: as long as it goes on, the machine
runs the program it was loaded with, and has counted a word in every turn. -/
theorem run_free (h : (p.run (c.withLimit none) j).result = none) :
    (p.run (c.withLimit none) j).machine.program = p ∧
      (p.run (c.withLimit none) j).machine.config.stepLimit = none ∧
      (p.run (c.withLimit none) j).machine.steps = j := by
  induction j with
  | zero =>
    rcases Nat.eq_zero_or_pos c.frameCapacity with hc | hc
    · rw [run_zero_of_no_room (c := c.withLimit none) hc]
      exact ⟨rfl, rfl, rfl⟩
    · rw [run_zero_of_room (c := c.withLimit none) hc]
      exact ⟨rfl, rfl, rfl⟩
  | succ j ih =>
    have hj := run_going_of_le h (Nat.le_succ j)
    obtain ⟨hp, hl, hs⟩ := ih hj
    rw [run_succ_of_going hj] at h ⊢
    obtain ⟨hp', hl', hs', -, hno⟩ := Machine.freeTurn hl
    refine ⟨hp'.trans hp, hl', ?_⟩
    -- A turn without a word would have ended the run.
    cases hw : (p.run (c.withLimit none) j).machine.program.get?
        (p.run (c.withLimit none) j).machine.ip with
    | none =>
      obtain ⟨target, ht⟩ := hno hw
      rw [show (Run.next _).result = _ from ht] at h
      cases h
    | some w =>
      rw [hw, hs] at hs'
      exact hs'

/-- A run without a budget never gets one. -/
theorem stepLimit_run (p : Program) (c : Config) (j : Nat) :
    (p.run (c.withLimit none) j).machine.config.stepLimit = none := by
  rcases (p.run (c.withLimit none) j).going_or_ended with hj | hj
  · exact (run_free hj).2.1
  · have hend : p.Ends (c.withLimit none) (p.run (c.withLimit none) j) := ⟨hj, j, rfl⟩
    rcases hend.start_or_next with ⟨-, h₀⟩ | ⟨i, hi, hnext, -⟩
    · rw [h₀, run_zero_withLimit]
      rfl
    · rw [hnext]
      exact (Machine.freeTurn (run_free hi).2.1).stepLimit

/-- **A budget does nothing to the turns within it.** -/
theorem run_withLimit (hjk : j ≤ k) :
    p.run (c.withLimit (some k)) j = (p.run (c.withLimit none) j).withLimit (some k) := by
  induction j with
  | zero => exact run_zero_withLimit p c (some k)
  | succ j ih =>
    have hj := ih (by omega)
    rw [run_succ, run_succ, hj]
    rcases (p.run (c.withLimit none) j).going_or_ended with hr | hr
    · obtain ⟨-, hl, hs⟩ := run_free hr
      -- The count is the number of turns, and so still below the budget.
      have hturn := Machine.turn_withLimit hl (k := k) (by omega)
      simp only [Run.withLimit, hr, Option.isSome_none, Bool.false_eq_true, if_false, Run.next,
        hturn, Turn.withLimit]
    · simp [Run.withLimit, hr]

/-- A run without a budget never uses one up. -/
theorem not_exceeded_run : ¬(p.run (c.withLimit none) j).Exceeded := by
  rintro ⟨limit, h⟩
  have hend : p.Ends (c.withLimit none) (p.run (c.withLimit none) j) := ⟨by rw [h]; rfl, j, rfl⟩
  -- Neither the start nor a turn without a budget has this fault.
  rcases hend.start_or_next with ⟨h₀, hj⟩ | ⟨i, hi, hnext, -⟩
  · rw [hj, run_zero_of_no_room ((ended_run_zero_iff p _).mp h₀)] at h
    cases h
  · rw [hnext] at h
    exact (Machine.freeTurn (run_free hi).2.1).notExceeded limit h

/-! ### A program within a budget -/

/-- **Within a budget that is enough** the run is the one without a budget. -/
theorem runWithin_of_ended (h : (p.run (c.withLimit none) k).result.isSome = true) :
    p.runWithin c k = (p.run (c.withLimit none) k).withLimit (some k) := by
  have hk := run_withLimit (p := p) (c := c) (Nat.le_refl k)
  have hend : (p.run (c.withLimit (some k)) k).result.isSome = true := by
    rw [hk]
    exact h
  rw [runWithin, run_of_ended hend (Nat.le_succ k), hk]

/-- **Within a budget that is not enough** the run is the one without a budget, after as
many turns as the budget has steps, and the machine has faulted. -/
theorem runWithin_of_going (h : (p.run (c.withLimit none) k).result = none) :
    p.runWithin c k =
      ⟨{ (p.run (c.withLimit none) k).machine.withLimit (some k) with status := .faulted },
        (p.run (c.withLimit none) k).events, some (.error (.stepLimitExceeded k))⟩ := by
  have hk := run_withLimit (p := p) (c := c) (Nat.le_refl k)
  have hgoing : (p.run (c.withLimit (some k)) k).result = none := by
    rw [hk]
    exact h
  have hsteps : k ≤ (p.run (c.withLimit none) k).machine.steps :=
    Nat.le_of_eq (run_free h).2.2.symm
  rw [runWithin, run_succ_of_going hgoing, hk]
  simp only [Run.next, Run.withLimit, Machine.turn_of_exhausted hsteps, Option.toArray_none,
    Array.append_empty]

/-- **A budget is used up exactly by the runs that go on after as many turns.** -/
theorem exceeded_runWithin_iff :
    (p.runWithin c k).Exceeded ↔ (p.run (c.withLimit none) k).result = none := by
  constructor
  · intro h
    rcases (p.run (c.withLimit none) k).going_or_ended with hr | hr
    · exact hr
    · rw [runWithin_of_ended hr] at h
      exact absurd h not_exceeded_run
  · intro h
    rw [runWithin_of_going h]
    exact ⟨k, rfl⟩

theorem not_exceeded_runWithin_iff :
    ¬(p.runWithin c k).Exceeded ↔ (p.run (c.withLimit none) k).result.isSome = true := by
  rw [exceeded_runWithin_iff, Option.isSome_iff_ne_none]

/-- A budget takes no event away from the turns within it, and the turn that finds it
used up has none. -/
theorem events_runWithin (p : Program) (c : Config) (k : Nat) :
    (p.runWithin c k).events = (p.run (c.withLimit none) k).events := by
  rcases (p.run (c.withLimit none) k).going_or_ended with hr | hr
  · rw [runWithin_of_going hr]
  · rw [runWithin_of_ended hr]
    rfl

/-- **Within a budget every run ends**, in one way. -/
theorem ends_withLimit_iff : p.Ends (c.withLimit (some k)) r ↔ r = p.runWithin c k := by
  have hends : p.Ends (c.withLimit (some k)) (p.runWithin c k) := by
    refine ⟨?_, k + 1, rfl⟩
    rcases (p.run (c.withLimit none) k).going_or_ended with hr | hr
    · rw [runWithin_of_going hr]
      rfl
    · rw [runWithin_of_ended hr]
      exact hr
  constructor
  · exact fun h => h.unique hends
  · rintro rfl
    exact hends

/-- **A budget that is enough stays enough when it grows**, and the run stays the
same. -/
theorem runWithin_of_le (h : (p.run (c.withLimit none) j).result.isSome = true) (hjk : j ≤ k) :
    p.runWithin c k = (p.run (c.withLimit none) j).withLimit (some k) := by
  have hjk' := run_of_ended h hjk
  rw [runWithin_of_ended (by rw [hjk']; exact h), hjk']

/-! ### The least budget that is enough -/

/-- **How a run ends, and the budget it needs**: none when there is no room for the
top-level frame; as many steps as it has counted when its last turn dispatched a word,
which halted the machine or faulted; and one more when its last turn found no word to
dispatch, as that turn needs its share of the budget but is not counted. -/
inductive Ending (p : Program) (c : Config) : Run → Nat → Prop
  | noFrame : c.frameCapacity = 0 → Ending p c (p.run c 0) 0
  | dispatched {j : Nat} {w : Word} : (p.run c j).result = none →
      p.get? (p.run c j).machine.ip = some w → (p.run c (j + 1)).result.isSome = true →
      Ending p c (p.run c (j + 1)) (p.run c (j + 1)).machine.steps
  | noWord {j : Nat} : (p.run c j).result = none →
      p.get? (p.run c j).machine.ip = none →
      Ending p c (p.run c (j + 1)) ((p.run c (j + 1)).machine.steps + 1)

/-- Every ended run has one of the three endings. -/
theorem Ends.exists_ending (h : p.Ends c u) : ∃ n, p.Ending c u n := by
  rcases h.start_or_next with ⟨h₀, rfl⟩ | ⟨j, hj, -, rfl⟩
  · exact ⟨0, .noFrame ((ended_run_zero_iff p c).mp h₀)⟩
  · cases hw : p.get? (p.run c j).machine.ip with
    | none => exact ⟨_, .noWord hj hw⟩
    | some w => exact ⟨_, .dispatched hj hw h.1⟩

/-- The budget that an ending needs, in turns: the run is going on after one turn less,
and has ended after as many. -/
theorem Ending.turns {n : Nat} (h : p.Ending (c.withLimit none) u n) :
    (p.run (c.withLimit none) n).result.isSome = true ∧
      ∀ j < n, (p.run (c.withLimit none) j).result = none := by
  cases h with
  | noFrame hc => exact ⟨(ended_run_zero_iff p _).mpr hc, fun j hj => absurd hj (Nat.not_lt_zero j)⟩
  | @dispatched j w hj hw hend =>
    obtain ⟨hp, hl, hs⟩ := run_free hj
    have hsteps : (p.run (c.withLimit none) (j + 1)).machine.steps = j + 1 := by
      have := (Machine.freeTurn hl).steps
      rw [hp, hw, hs] at this
      rw [run_succ_of_going hj]
      exact this
    rw [hsteps]
    exact ⟨hend, fun i hi => run_going_of_le hj (Nat.le_of_lt_succ hi)⟩
  | @noWord j hj hw =>
    -- The last turn is not counted, so the count is that of the turns before.
    obtain ⟨hp, hl, hs⟩ := run_free hj
    have hturn := Machine.freeTurn hl
    have hsteps : (p.run (c.withLimit none) (j + 1)).machine.steps = j := by
      have := hturn.steps
      rw [hp, hw, hs] at this
      rw [run_succ_of_going hj]
      exact this
    obtain ⟨target, ht⟩ := hturn.noWord (by rw [hp]; exact hw)
    rw [hsteps, run_succ_of_going hj]
    refine ⟨?_, fun i hi => run_going_of_le hj (Nat.le_of_lt_succ hi)⟩
    rw [show (Run.next _).result = _ from ht]
    rfl

/-- **The budget that an ending needs is the least that is enough.** -/
theorem Ending.isLeast {n : Nat} (h : p.Ending (c.withLimit none) u n) :
    IsLeast {k | ¬(p.runWithin c k).Exceeded} n := by
  obtain ⟨hn, hlt⟩ := h.turns
  refine ⟨not_exceeded_runWithin_iff.mpr hn, fun k hk => ?_⟩
  rcases Nat.lt_or_ge k n with hkn | hnk
  · exact absurd (exceeded_runWithin_iff.mpr (hlt k hkn)) hk
  · exact hnk

/-! ### Budgets cut -/

/-- **Budgets cut the runs of a program without changing them.** -/
structure CutByBudgets (p : Program) (c : Config) : Prop where
  /-- Within any budget the run ends, and in one way. -/
  ends : ∀ k r, p.Ends (c.withLimit (some k)) r ↔ r = p.runWithin c k
  /-- A run that does not use its budget up is the run without a budget, and the run
  within every larger one. -/
  enough : ∀ k, ¬(p.runWithin c k).Exceeded →
    p.Ends (c.withLimit none) ((p.runWithin c k).withLimit none) ∧
      ∀ k' ≥ k, p.runWithin c k' = (p.runWithin c k).withLimit (some k')
  /-- A run that does says which budget it was and has counted that many steps, and no
  smaller budget is enough. -/
  exceeded : ∀ k limit, (p.runWithin c k).result = some (.error (.stepLimitExceeded limit)) →
    limit = k ∧ (p.runWithin c k).machine.steps = k ∧ ∀ j ≤ k, (p.runWithin c j).Exceeded
  /-- A larger budget only adds events. -/
  events : ∀ k, ∀ k' ≥ k,
    (p.runWithin c k).events.toList <+: (p.runWithin c k').events.toList
  /-- When the run without a budget ends, its ending tells the least budget that is
  enough. -/
  least : ∀ u, p.Ends (c.withLimit none) u →
    (∃ n, p.Ending (c.withLimit none) u n) ∧
      ∀ n, p.Ending (c.withLimit none) u n → IsLeast {k | ¬(p.runWithin c k).Exceeded} n

/-- **Every program is cut by budgets**, whatever room its machine has. -/
theorem cutByBudgets (p : Program) (c : Config) : p.CutByBudgets c where
  ends k r := ends_withLimit_iff
  enough k hk := by
    have hend := not_exceeded_runWithin_iff.mp hk
    rw [runWithin_of_ended hend]
    refine ⟨⟨hend, k, ?_⟩, fun k' hk' => runWithin_of_le hend hk'⟩
    rw [Run.withLimit_withLimit, Run.withLimit_none (stepLimit_run p c k)]
  exceeded k limit h := by
    have hgoing := exceeded_runWithin_iff.mp ⟨limit, h⟩
    rw [runWithin_of_going hgoing] at h ⊢
    cases h
    exact ⟨rfl, (run_free hgoing).2.2, fun j hj =>
      exceeded_runWithin_iff.mpr (run_going_of_le hgoing hj)⟩
  events k k' hk := by
    rw [events_runWithin, events_runWithin]
    exact events_prefix p _ hk
  least u hu := ⟨hu.exists_ending, fun n hn => hn.isLeast⟩

end Program

end StackMachine
