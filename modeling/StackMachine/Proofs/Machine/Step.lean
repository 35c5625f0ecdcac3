import Mathlib.Tactic.Simps.Basic
import StackMachine.Machine.Step

/-!
# The course of a step

A step first asks the budget and then **dispatches** the word at the instruction
pointer. The budget may stop the step before anything has happened, and does nothing
else; dispatching does not look at the budget. What dispatching does is settled by
the word: without one, the fetch fails and nothing is counted; a word that is no
opcode is counted and leaves its trace; an opcode is counted and executed.
-/

namespace StackMachine

variable {m : Machine} {w : Word} {i : Instruction}

/-- The machine once the word at its instruction pointer is dispatched: the word is
counted, its address is remembered, and `size` words have been fetched. -/
@[simps] def Machine.dispatched (m : Machine) (size : Nat) : Machine :=
  { m with ip := m.ip + size, origin := m.ip, steps := m.steps + 1 }

/-- The budget of the machine allows another step. -/
def Machine.WithinBudget (m : Machine) : Prop :=
  ∀ limit, m.config.stepLimit = some limit → m.steps < limit

/-- The budget allows another step, or it is used up. -/
theorem Machine.withinBudget_or_exhausted (m : Machine) :
    m.WithinBudget ∨ ∃ limit, m.config.stepLimit = some limit ∧ limit ≤ m.steps := by
  unfold WithinBudget
  cases m.config.stepLimit with
  | none => simp
  | some limit => simp [Nat.lt_or_ge]

namespace Exec

/-- What a step does once the budget allows it. -/
def dispatch : Exec (Option Event) := do
  modify fun m => { m with origin := m.ip }
  let word ← fetch
  modify fun m => { m with steps := m.steps + 1 }
  match Instruction.decode? word with
  | some i => execute i
  | none => return some (.invalid word (← get).origin)

/-! ### The budget -/

/-- A step within the budget dispatches. -/
theorem step_eq_dispatch (h : ∀ limit, m.config.stepLimit = some limit → m.steps < limit) :
    step m = dispatch m := by
  have hb : checkBudget m = .ok () m := by
    unfold checkBudget
    cases hl : m.config.stepLimit with
    | none => rfl
    | some limit => exact if_neg (Nat.not_le_of_gt (h limit hl))
  change EStateM.bind checkBudget (fun _ => dispatch) m = dispatch m
  rw [EStateM.bind, hb]

/-- A step without a budget dispatches. -/
theorem step_of_unlimited (h : m.config.stepLimit = none) : step m = dispatch m :=
  step_eq_dispatch fun limit hl => by rw [h] at hl; cases hl

/-- A step beyond the budget leaves the machine as it is. -/
theorem step_of_exhausted {limit : Nat} (hl : m.config.stepLimit = some limit)
    (h : limit ≤ m.steps) : step m = .error (.stepLimitExceeded limit) m := by
  have hb : checkBudget m = .error (.stepLimitExceeded limit) m := by
    unfold checkBudget
    rw [hl]
    exact if_pos h
  change EStateM.bind checkBudget (fun _ => dispatch) m = _
  rw [EStateM.bind, hb]

/-! ### The word -/

/-- The fetch of an opcode that is not there fails before anything is counted. -/
theorem dispatch_of_none (h : m.program.get? m.ip = none) :
    dispatch m =
      .error (.invalidPointer (min m.ip maxAddress : Nat)) { m with origin := m.ip } := by
  have hf : fetch { m with origin := m.ip } =
      .error (.invalidPointer (min m.ip maxAddress : Nat)) { m with origin := m.ip } := by
    unfold fetch
    simp only [h]
  change EStateM.bind fetch _ { m with origin := m.ip } = _
  rw [EStateM.bind, hf]

/-- A word that is there is counted, and then it is decoded. -/
theorem dispatch_of_some (h : m.program.get? m.ip = some w) :
    dispatch m = (match Instruction.decode? w with
      | some i => execute i
      | none => return some (.invalid w m.ip)) (m.dispatched 1) := by
  have hf : fetch { m with origin := m.ip } =
      .ok w { m with origin := m.ip, ip := m.ip + 1 } := by
    unfold fetch
    simp only [h]
  change EStateM.bind fetch _ { m with origin := m.ip } = _
  rw [EStateM.bind, hf]
  change (match Instruction.decode? w with
    | some i => execute i
    | none => do return some (.invalid w (← get).origin)) (m.dispatched 1) = _
  cases Instruction.decode? w with
  | none => rfl
  | some i => rfl

end Exec

end StackMachine
