import StackMachine.Proofs.Machine.Dispatch
import StackMachine.Proofs.Machine.Failures
import StackMachine.Proofs.Machine.Runs

/-!
# The faults of a step

The other side of `StackMachine.Dispatch`: the ways in which a step can fail. A fault
is not undone, so for the machine that is left it matters how far the step had got, and
two numbers tell: how many words it had **fetched**, none or the opcode or the opcode
and its immediate, and how many operands it had **popped**.

* `StackMachine.Fault` – one rule for each way to fail, with the fault and the two
  numbers, which are settled by the fault (`StackMachine.Fault.unique`);
* `StackMachine.Machine.LeftAfter` – what is left of a machine, as far as the two
  numbers decide it: a step that fails does nothing else;
* `StackMachine.Exec.fault_of_step` – **every step that fails does so by a rule**, as
  long as there is a frame, and leaves what the rule says;
* `StackMachine.Exec.step_fails_iff` – conversely, a step to which a rule applies fails;
* `StackMachine.Machine.fault_of_turn` – what this means for the turn that takes the step.
-/

namespace StackMachine

variable {m m' : Machine} {i : Instruction} {e : Error}

namespace Instruction

/-- **The number of operands that an instruction needs** of a stack. A jump with a
condition that is true needs its target too. -/
def needs (i : Instruction) (l : List Word) : Nat :=
  match i with
  | nop | halt | push | load => 0
  | pop | dup | store | print | not | jump => 1
  | jumpIf => if l.getLast?.any Word.isTrue then 2 else 1
  | _ => 2

theorem needs_of_isBinary (hi : i.isBinary = true) (l : List Word) : i.needs l = 2 := by
  cases i <;> first | rfl | cases hi

/-- A jump with a condition needs more than the condition exactly when it is true. -/
theorem needs_jumpIf_iff {s : List Word} {c : Word} :
    1 < jumpIf.needs (s ++ [c]) ↔ c.isTrue = true := by
  cases hc : c.isTrue <;> simp [needs, hc]

theorem immediates_of_isBinary (hi : i.isBinary = true) : i.immediates = 0 := by
  cases i <;> first | rfl | cases hi

end Instruction

/-- The immediate of the instruction is there, if it has one. -/
def Machine.HasImmediate (m : Machine) (i : Instruction) : Prop :=
  i.immediates = 1 → ∃ v, m.program.get? (m.ip + 1) = some v

/-! ### The rules -/

/-- **The rules of the faults**: the fault that a step of the machine raises, how many
words it has fetched by then and how many operands it has popped. -/
inductive Fault (m : Machine) : Error → Nat → Nat → Prop
  /-- A budget that is used up stops a step before it begins. -/
  | stepLimit {limit : Nat} (hl : m.config.stepLimit = some limit) (h : limit ≤ m.steps) :
    Fault m (.stepLimitExceeded limit) 0 0
  | noOpcode (hw : m.program.get? m.ip = none) :
    Fault m (.invalidPointer (min m.ip Exec.maxAddress : Nat)) 0 0
  | noImmediate {i : Instruction} (hw : m.At i) (hi : i.immediates = 1)
      (hv : m.program.get? (m.ip + 1) = none) :
    Fault m (.invalidPointer (min (m.ip + 1) Exec.maxAddress : Nat)) 1 0
  /-- Only an instruction that takes nothing off the stack can find it full. -/
  | overflow {i : Instruction} (hw : m.At i) (hv : m.HasImmediate i)
      (hi : i = .push ∨ i = .dup ∨ i = .load)
      (hneeds : i.needs m.stack.toList ≤ m.stack.toList.length)
      (hfull : m.stack.toList.length = m.stack.capacity) :
    Fault m (.stackOverflow m.ip m.stack.capacity) i.size 0
  | noOperand {i : Instruction} (hw : m.At i) (hv : m.HasImmediate i)
      (hs : m.stack.toList = []) (hi : 0 < i.needs []) :
    Fault m (.stackUnderflow m.ip) i.size 0
  /-- The one operand that there is has been popped. -/
  | oneOperand {i : Instruction} {b : Word} (hw : m.At i) (hs : m.stack.toList = [b])
      (hi : 1 < i.needs [b]) :
    Fault m (.stackUnderflow m.ip) 1 1
  | zeroDivisor {i : Instruction} {s : List Word} {a : Word} (hw : m.At i)
      (hi : i = .div ∨ i = .mod) (hs : m.stack.toList = s ++ [a, 0]) :
    Fault m (.divisionByZero m.ip) 1 2
  | jump {s : List Word} {t : Word} (hw : m.At .jump) (hs : m.stack.toList = s ++ [t])
      (ht : t.toInt < 0) :
    Fault m (.invalidPointer t.toInt) 1 1
  | jumpIf {s : List Word} {t c : Word} (hw : m.At .jumpIf) (hs : m.stack.toList = s ++ [t, c])
      (hc : c.toInt ≠ 0) (ht : t.toInt < 0) :
    Fault m (.invalidPointer t.toInt) 1 2

/-- **The fault and the machine settle how far the step had got**: no two rules agree on
the one and differ in the other. -/
theorem Fault.unique {fetched popped fetched' popped' : Nat} (h : Fault m e fetched popped)
    (h' : Fault m e fetched' popped') : fetched = fetched' ∧ popped = popped' := by
  cases h with
  | stepLimit | zeroDivisor =>
    cases h'
    exact ⟨rfl, rfl⟩
  | overflow hw =>
    cases h' with
    | overflow hw' => exact ⟨by rw [hw.unique hw'], rfl⟩
  | noOperand hw _ hs =>
    cases h' with
    | noOperand hw' => exact ⟨by rw [hw.unique hw'], rfl⟩
    | oneOperand _ hs' =>
      rw [hs] at hs'
      cases hs'
  | oneOperand hw hs =>
    cases h' with
    | noOperand _ _ hs' =>
      rw [hs] at hs'
      cases hs'
    | oneOperand => exact ⟨rfl, rfl⟩
  | noOpcode hw =>
    generalize he : Error.invalidPointer _ = e at h'
    cases h' with
    | noOpcode => exact ⟨rfl, rfl⟩
    | noImmediate hw' | jump hw' | jumpIf hw' => exact absurd hw hw'.ne_none
    | _ => cases he
  | noImmediate hw hi =>
    generalize he : Error.invalidPointer _ = e at h'
    cases h' with
    | noOpcode hw' => exact absurd hw' hw.ne_none
    | noImmediate => exact ⟨rfl, rfl⟩
    | jump hw' | jumpIf hw' =>
      rw [hw.unique hw'] at hi
      cases hi
    | _ => cases he
  | jump hw =>
    generalize he : Error.invalidPointer _ = e at h'
    cases h' with
    | noOpcode hw' => exact absurd hw' hw.ne_none
    | noImmediate hw' hi =>
      rw [← hw.unique hw'] at hi
      cases hi
    | jump => exact ⟨rfl, rfl⟩
    | jumpIf hw' => cases hw.unique hw'
    | _ => cases he
  | jumpIf hw =>
    generalize he : Error.invalidPointer _ = e at h'
    cases h' with
    | noOpcode hw' => exact absurd hw' hw.ne_none
    | noImmediate hw' hi =>
      rw [← hw.unique hw'] at hi
      cases hi
    | jump hw' => cases hw.unique hw'
    | jumpIf => exact ⟨rfl, rfl⟩
    | _ => cases he

/-- **What is left of a machine** by a step that has fetched some words and popped some
operands when it fails. The step is counted once its opcode is fetched. -/
structure Machine.LeftAfter (m : Machine) (fetched popped : Nat) (m' : Machine) : Prop where
  program : m'.program = m.program
  config : m'.config = m.config
  frames : m'.frames = m.frames
  ceiling : m'.stack.capacity = m.stack.capacity
  operands : ∃ d, d.length = popped ∧ m.stack.toList = m'.stack.toList ++ d
  ip : m'.ip = m.ip + fetched
  steps : m'.steps = m.steps + if fetched = 0 then 0 else 1

namespace Machine

/-- Before anything is fetched. -/
theorem leftAfter_zero (m : Machine) (origin : Nat) :
    m.LeftAfter 0 0 { m with origin := origin } :=
  ⟨rfl, rfl, rfl, rfl, ⟨[], rfl, (List.append_nil _).symm⟩, rfl, rfl⟩

/-- Before anything is popped. -/
theorem leftAfter_dispatched (m : Machine) (n : Nat) :
    m.LeftAfter (n + 1) 0 (m.dispatched (n + 1)) :=
  ⟨rfl, rfl, rfl, rfl, ⟨[], rfl, (List.append_nil _).symm⟩, rfl, rfl⟩

/-- Once the operands `d` are popped. -/
theorem leftAfter_setOperands {s d : List Word} (hs : m.stack.toList = s ++ d) (n : Nat) :
    m.LeftAfter (n + 1) d.length ((m.dispatched (n + 1)).setOperands s) := by
  have hle := Exec.length_le_of_append hs
  refine ⟨rfl, rfl, rfl, BoundedStack.capacity_withItems hle, ⟨d, rfl, ?_⟩, rfl, rfl⟩
  rw [hs]
  exact congrArg (· ++ d) (BoundedStack.toList_withItems _ _).symm

theorem hasImmediate_of_none (hi : i.immediates = 0) : m.HasImmediate i := by
  intro hone
  rw [hi] at hone
  cases hone

theorem hasImmediate_of_fetch {v : Word} (h : Exec.fetch (m.dispatched 1) = .ok v m') :
    m.HasImmediate i :=
  fun _ => ⟨v, (Exec.fetch_eq_ok_iff.mp h).1⟩

end Machine

namespace Exec

/-! ### From a failed execution to a rule -/

theorem fault_of_fetch (hw : m.At i) (hi : i.immediates = 1)
    (h : fetch (m.dispatched 1) = .error e m') : Fault m e 1 0 ∧ m.LeftAfter 1 0 m' := by
  obtain ⟨hv, rfl, rfl⟩ := fetch_eq_error_iff.mp h
  exact ⟨.noImmediate hw hi hv, m.leftAfter_dispatched 0⟩

theorem fault_of_push {v : Word} (hw : m.At i) (hv : m.HasImmediate i)
    (hi : i = .push ∨ i = .dup ∨ i = .load)
    (hneeds : i.needs m.stack.toList ≤ m.stack.toList.length)
    (h : push v (m.dispatched i.size) = .error e m') :
    Fault m e i.size 0 ∧ m.LeftAfter i.size 0 m' := by
  obtain ⟨hfull, rfl, rfl⟩ := push_eq_error_iff.mp h
  refine ⟨.overflow hw hv hi hneeds hfull, ?_⟩
  rw [Instruction.size, Nat.add_comm]
  exact m.leftAfter_dispatched _

theorem fault_of_empty (hw : m.At i) (hv : m.HasImmediate i) (hi : 0 < i.needs [])
    (hs : m.stack.toList = []) :
    Fault m (.stackUnderflow m.ip) i.size 0 ∧ m.LeftAfter i.size 0 (m.dispatched i.size) := by
  refine ⟨.noOperand hw hv hs hi, ?_⟩
  rw [Instruction.size, Nat.add_comm]
  exact m.leftAfter_dispatched _

theorem fault_of_pop (hw : m.At i) (hv : m.HasImmediate i) (hi : 0 < i.needs [])
    (h : pop (m.dispatched i.size) = .error e m') :
    Fault m e i.size 0 ∧ m.LeftAfter i.size 0 m' := by
  obtain ⟨hs, rfl, rfl⟩ := pop_eq_error_iff.mp h
  exact fault_of_empty hw hv hi hs

/-- The only operands without a value are a dividend and a zero. -/
theorem exists_execute_eq_binary_faults (hi : i.isBinary = true) :
    ∃ f, execute i = (do binary f; return none) ∧ ∀ ip a b e,
      f ip a b = .error e → e = .divisionByZero ip ∧ (i = .div ∨ i = .mod) ∧ b = 0 := by
  cases i with
  | div | mod =>
    refine ⟨_, rfl, fun ip a b e he => ?_⟩
    by_cases hb : b = 0
    · rw [if_pos hb] at he
      cases he
      exact ⟨rfl, by simp, hb⟩
    · rw [if_neg hb] at he
      cases he
  | nop | halt | push | pop | dup | load | store | print | not | jump | jumpIf => cases hi
  | _ => exact ⟨_, rfl, fun ip a b e he => by cases he⟩

theorem fault_of_execute_binary (hw : m.At i) (hi : i.isBinary = true)
    (h : execute i (m.dispatched 1) = .error e m') :
    ∃ fetched popped, Fault m e fetched popped ∧ m.LeftAfter fetched popped m' := by
  obtain ⟨f, hf, hzero⟩ := exists_execute_eq_binary_faults hi
  rw [hf, bind_pure_eq_error_iff] at h
  rcases of_binary_eq_error h with
    ⟨hs, rfl, rfl⟩ | ⟨b, hs, rfl, rfl⟩ | ⟨s, a, b, hs, he, rfl⟩
  · have hneeds : 0 < i.needs [] := by
      rw [Instruction.needs_of_isBinary hi]
      exact Nat.two_pos
    have hnone := Instruction.immediates_of_isBinary hi
    have hfault := fault_of_empty (m := m) hw (Machine.hasImmediate_of_none hnone) hneeds hs
    rw [Instruction.size, hnone] at hfault
    exact ⟨1, 0, hfault⟩
  · have hneeds : 1 < i.needs [b] := by
      rw [Instruction.needs_of_isBinary hi]
      exact Nat.one_lt_two
    exact ⟨1, 1, .oneOperand hw hs hneeds,
      Machine.leftAfter_setOperands (m := m) (s := []) (d := [b]) hs 0⟩
  · obtain ⟨rfl, hdiv, rfl⟩ := hzero _ _ _ _ he
    exact ⟨1, 2, .zeroDivisor hw hdiv hs, Machine.leftAfter_setOperands (m := m) hs 0⟩

theorem fault_of_execute_jumpIf (hw : m.At .jumpIf)
    (h : execute .jumpIf (m.dispatched 1) = .error e m') :
    ∃ fetched popped, Fault m e fetched popped ∧ m.LeftAfter fetched popped m' := by
  rcases bind_eq_error_iff.mp h with h | ⟨c, _, hc, h⟩
  · exact ⟨1, 0, fault_of_pop hw (Machine.hasImmediate_of_none rfl) Nat.one_pos h⟩
  obtain ⟨s, hs, rfl⟩ := pop_eq_ok_iff.mp hc
  -- A condition that is false leaves nothing to fail.
  cases htrue : c.isTrue with
  | false =>
    simp only [htrue, Bool.false_eq_true, if_false] at h
    exact absurd h pure_ne_error
  | true =>
    simp only [htrue, if_true] at h
    rcases bind_eq_error_iff.mp h with h | ⟨t, _, ht, h⟩
    · obtain ⟨hempty, rfl, rfl⟩ := pop_eq_error_iff.mp h
      obtain rfl : s = [] := (BoundedStack.toList_withItems _ _).symm.trans hempty
      have hneeds := (Instruction.needs_jumpIf_iff (s := [])).mpr htrue
      exact ⟨1, 1, .oneOperand hw hs hneeds,
        Machine.leftAfter_setOperands (m := m) (s := []) (d := [c]) hs 0⟩
    · obtain ⟨s', hs', rfl⟩ := pop_eq_ok_iff.mp ht
      obtain rfl : s = s' ++ [t] := (BoundedStack.toList_withItems _ _).symm.trans hs'
      rw [Machine.setOperands_setOperands (length_le_of_append hs)] at h
      have hs' : m.stack.toList = s' ++ [t, c] := hs.trans (List.append_assoc s' [t] [c])
      obtain ⟨hneg, rfl, rfl⟩ := jump_eq_error_iff.mp (bind_pure_eq_error_iff.mp h)
      exact ⟨1, 2, .jumpIf hw hs' ((isTrue_iff c).mp htrue) hneg,
        Machine.leftAfter_setOperands (m := m) hs' 0⟩

/-- **An execution that fails does so by a rule.** -/
theorem fault_of_execute (hw : m.At i) (hframe : m.frames.toList ≠ [])
    (h : execute i (m.dispatched 1) = .error e m') :
    ∃ fetched popped, Fault m e fetched popped ∧ m.LeftAfter fetched popped m' := by
  by_cases hb : i.isBinary = true
  · exact fault_of_execute_binary hw hb h
  cases i with
  | nop => exact absurd h pure_ne_error
  | halt => exact absurd (bind_pure_eq_error_iff.mp h) modify_ne_error
  | push =>
    rcases bind_eq_error_iff.mp h with h | ⟨v, _, hv, h⟩
    · exact ⟨1, 0, fault_of_fetch hw rfl h⟩
    have himm := Machine.hasImmediate_of_fetch (i := .push) hv
    obtain ⟨-, rfl⟩ := fetch_eq_ok_iff.mp hv
    exact ⟨2, 0, fault_of_push hw himm (by simp) (Nat.zero_le _) (bind_pure_eq_error_iff.mp h)⟩
  | dup =>
    have himm : m.HasImmediate .dup := Machine.hasImmediate_of_none rfl
    rcases bind_eq_error_iff.mp h with h | ⟨v, _, hv, h⟩
    · obtain ⟨hs, rfl, rfl⟩ := peek_eq_error_iff.mp h
      exact ⟨1, 0, fault_of_empty hw himm Nat.one_pos hs⟩
    obtain ⟨⟨s, hs⟩, rfl⟩ := peek_eq_ok_iff.mp hv
    have hneeds : Instruction.dup.needs m.stack.toList ≤ m.stack.toList.length := by
      rw [show m.stack.toList = s ++ [v] from hs, List.length_append]
      exact Nat.le_add_left 1 _
    exact ⟨1, 0, fault_of_push hw himm (by simp) hneeds (bind_pure_eq_error_iff.mp h)⟩
  | load =>
    rcases bind_eq_error_iff.mp h with h | ⟨id, _, hid, h⟩
    · exact ⟨1, 0, fault_of_fetch hw rfl h⟩
    have himm := Machine.hasImmediate_of_fetch (i := .load) hid
    obtain ⟨-, rfl⟩ := fetch_eq_ok_iff.mp hid
    rcases bind_eq_error_iff.mp h with h | ⟨v, _, hv, h⟩
    · exact absurd h (load_ne_error hframe)
    obtain ⟨_, _, _, _, rfl⟩ := load_eq_ok_iff.mp hv
    exact ⟨2, 0, fault_of_push hw himm (by simp) (Nat.zero_le _) (bind_pure_eq_error_iff.mp h)⟩
  | store =>
    rcases bind_eq_error_iff.mp h with h | ⟨id, _, hid, h⟩
    · exact ⟨1, 0, fault_of_fetch hw rfl h⟩
    have himm := Machine.hasImmediate_of_fetch (i := .store) hid
    obtain ⟨-, rfl⟩ := fetch_eq_ok_iff.mp hid
    rcases bind_eq_error_iff.mp h with h | ⟨a, _, ha, h⟩
    · exact ⟨2, 0, fault_of_pop hw himm Nat.one_pos h⟩
    obtain ⟨s, hs, rfl⟩ := pop_eq_ok_iff.mp ha
    exact absurd (bind_pure_eq_error_iff.mp h) (store_ne_error hframe)
  | pop | print =>
    have h := bind_pure_eq_error_iff.mp h
    exact ⟨1, 0, fault_of_pop hw (Machine.hasImmediate_of_none rfl) Nat.one_pos h⟩
  | not =>
    rcases bind_eq_error_iff.mp h with h | ⟨a, _, ha, h⟩
    · exact ⟨1, 0, fault_of_pop hw (Machine.hasImmediate_of_none rfl) Nat.one_pos h⟩
    obtain ⟨s, hs, rfl⟩ := pop_eq_ok_iff.mp ha
    exact absurd (bind_pure_eq_error_iff.mp h) (push_setOperands_ne_error (by simp) hs)
  | jump =>
    rcases bind_eq_error_iff.mp h with h | ⟨t, _, ht, h⟩
    · exact ⟨1, 0, fault_of_pop hw (Machine.hasImmediate_of_none rfl) Nat.one_pos h⟩
    obtain ⟨s, hs, rfl⟩ := pop_eq_ok_iff.mp ht
    obtain ⟨hneg, rfl, rfl⟩ := jump_eq_error_iff.mp (bind_pure_eq_error_iff.mp h)
    exact ⟨1, 1, .jump hw hs hneg, Machine.leftAfter_setOperands (m := m) hs 0⟩
  | jumpIf => exact fault_of_execute_jumpIf hw h
  | _ => exact absurd rfl hb

/-- **A step that fails does so by a rule**, and leaves of the machine what the rule
says. -/
theorem fault_of_step (hframe : m.frames.toList ≠ []) (h : step m = .error e m') :
    ∃ fetched popped, Fault m e fetched popped ∧ m.LeftAfter fetched popped m' := by
  rcases m.withinBudget_or_exhausted with hbudget | ⟨limit, hl, hlimit⟩
  · rw [step_eq_dispatch hbudget] at h
    cases hw : m.program.get? m.ip with
    | none =>
      rw [dispatch_of_none hw] at h
      cases h
      exact ⟨0, 0, .noOpcode hw, m.leftAfter_zero m.ip⟩
    | some w =>
      rw [dispatch_of_some hw] at h
      cases hi : Instruction.decode? w with
      | none =>
        simp only [hi] at h
        exact absurd h pure_ne_error
      | some i =>
        simp only [hi] at h
        rw [Instruction.decode?_eq_some_iff.mp hi] at hw
        exact fault_of_execute hw hframe h
  · rw [step_of_exhausted hl hlimit] at h
    cases h
    exact ⟨0, 0, .stepLimit hl hlimit, m.leftAfter_zero m.origin⟩

/-! ### From a rule to a failed step -/

/-- A step at an opcode executes the instruction. -/
theorem step_of_at (hbudget : m.WithinBudget) (hw : m.At i) :
    step m = execute i (m.dispatched 1) := by
  rw [step_eq_dispatch hbudget, dispatch_of_some hw, Instruction.decode?_opcode]

theorem execute_of_noImmediate (hi : i.immediates = 1)
    (hv : m.program.get? (m.ip + 1) = none) :
    execute i (m.dispatched 1) =
      .error (.invalidPointer (min (m.ip + 1) maxAddress : Nat)) (m.dispatched 1) := by
  have hfetch := fetch_eq_error_iff (m := m.dispatched 1).mpr ⟨hv, rfl, rfl⟩
  cases i with
  | push | load | store => exact bind_of_error hfetch
  | _ => exact absurd hi (by decide)

theorem execute_of_full (hframe : m.frames.toList ≠ []) (hv : m.HasImmediate i)
    (hi : i = .push ∨ i = .dup ∨ i = .load)
    (hneeds : i.needs m.stack.toList ≤ m.stack.toList.length)
    (hfull : m.stack.toList.length = m.stack.capacity) :
    execute i (m.dispatched 1) =
      .error (.stackOverflow m.ip m.stack.capacity) (m.dispatched i.size) := by
  have hpush {v : Word} (n : Nat) : push v (m.dispatched n) =
      .error (.stackOverflow m.ip m.stack.capacity) (m.dispatched n) :=
    push_eq_error_iff.mpr ⟨hfull, rfl, rfl⟩
  rcases hi with rfl | rfl | rfl
  · obtain ⟨v, hv⟩ := hv rfl
    exact bind_of_ok (fetch_eq_ok_iff.mpr ⟨hv, rfl⟩) (bind_of_error (hpush 2))
  · have hs := (List.dropLast_concat_getLast (List.ne_nil_of_length_pos hneeds)).symm
    exact bind_of_ok (peek_eq_ok_iff.mpr ⟨⟨_, hs⟩, rfl⟩) (bind_of_error (hpush 1))
  · obtain ⟨id, hid⟩ := hv rfl
    have hf := (List.dropLast_concat_getLast hframe).symm
    refine bind_of_ok (fetch_eq_ok_iff.mpr ⟨hid, rfl⟩) ?_
    exact bind_of_ok (load_eq_ok_iff.mpr ⟨_, _, hf, rfl, rfl⟩) (bind_of_error (hpush 2))

theorem execute_of_empty (hv : m.HasImmediate i) (hs : m.stack.toList = [])
    (hi : 0 < i.needs []) :
    execute i (m.dispatched 1) = .error (.stackUnderflow m.ip) (m.dispatched i.size) := by
  have hpop (n : Nat) : pop (m.dispatched n) = .error (.stackUnderflow m.ip) (m.dispatched n) :=
    pop_eq_error_iff.mpr ⟨hs, rfl, rfl⟩
  cases i with
  | nop | halt | push | load => cases hi
  | dup => exact bind_of_error (peek_eq_error_iff.mpr ⟨hs, rfl, rfl⟩)
  | store =>
    obtain ⟨id, hid⟩ := hv rfl
    exact bind_of_ok (fetch_eq_ok_iff.mpr ⟨hid, rfl⟩) (bind_of_error (hpop 2))
  | pop | print | not | jump | jumpIf => exact bind_of_error (hpop 1)
  | _ => exact bind_of_error (bind_of_error (hpop 1))

theorem execute_of_singleton {b : Word} (hs : m.stack.toList = [b]) (hi : 1 < i.needs [b]) :
    execute i (m.dispatched 1) =
      .error (.stackUnderflow m.ip) ((m.dispatched 1).setOperands []) := by
  cases i with
  | nop | halt | push | load | pop | dup | store | print | not | jump =>
    simp [Instruction.needs] at hi
  | jumpIf =>
    refine bind_of_ok (pop_eq_ok_iff.mpr ⟨[], hs, rfl⟩) ?_
    simp only [(Instruction.needs_jumpIf_iff (s := [])).mp hi, if_true]
    exact bind_of_error (pop_eq_error_iff.mpr ⟨BoundedStack.toList_withItems _ _, rfl, rfl⟩)
  | _ => exact bind_of_error (pop_pop_of_singleton (m := m.dispatched 1) hs)

theorem execute_of_zeroDivisor {s : List Word} {a : Word} (hi : i = .div ∨ i = .mod)
    (hs : m.stack.toList = s ++ [a, 0]) :
    execute i (m.dispatched 1) =
      .error (.divisionByZero m.ip) ((m.dispatched 1).setOperands s) := by
  rcases hi with rfl | rfl
  · exact bind_of_error (binary_of_error (m := m.dispatched 1) hs (if_pos rfl))
  · exact bind_of_error (binary_of_error (m := m.dispatched 1) hs (if_pos rfl))

theorem jump_of_neg {t : Word} (ht : t.toInt < 0) :
    (do jump t; return (none : Option Event)) m = .error (.invalidPointer t.toInt) m :=
  bind_of_error (jump_eq_error_iff.mpr ⟨ht, rfl, rfl⟩)

theorem execute_jump_of_neg {s : List Word} {t : Word} (hs : m.stack.toList = s ++ [t])
    (ht : t.toInt < 0) :
    execute .jump (m.dispatched 1) =
      .error (.invalidPointer t.toInt) ((m.dispatched 1).setOperands s) :=
  bind_of_ok (pop_eq_ok_iff.mpr ⟨s, hs, rfl⟩) (jump_of_neg ht)

theorem execute_jumpIf_of_neg {s : List Word} {t c : Word} (hs : m.stack.toList = s ++ [t, c])
    (hc : c.toInt ≠ 0) (ht : t.toInt < 0) :
    execute .jumpIf (m.dispatched 1) =
      .error (.invalidPointer t.toInt) ((m.dispatched 1).setOperands s) := by
  have hs' : (m.dispatched 1).stack.toList = (s ++ [t]) ++ [c] :=
    hs.trans (List.append_assoc s [t] [c]).symm
  refine bind_of_ok (pop_eq_ok_iff.mpr ⟨_, hs', rfl⟩) ?_
  simp only [(isTrue_iff c).mpr hc, if_true]
  refine bind_of_ok (pop_eq_ok_iff.mpr ⟨s, BoundedStack.toList_withItems _ _, rfl⟩) ?_
  rw [Machine.setOperands_setOperands (length_le_of_append hs')]
  exact jump_of_neg ht

/-- **A step fails exactly when a rule applies**, as long as the budget is not used up and
there is a frame. -/
theorem step_fails_iff (hbudget : m.WithinBudget) (hframe : m.frames.toList ≠ []) :
    (∃ m', step m = .error e m') ↔ ∃ fetched popped, Fault m e fetched popped := by
  constructor
  · rintro ⟨m', h⟩
    obtain ⟨fetched, popped, hf, -⟩ := fault_of_step hframe h
    exact ⟨fetched, popped, hf⟩
  rintro ⟨fetched, popped, hf⟩
  have hat {i : Instruction} (hw : m.At i) := step_of_at hbudget hw
  cases hf with
  | stepLimit hl hlimit => exact absurd (hbudget _ hl) (Nat.not_lt_of_ge hlimit)
  | noOpcode hw => exact ⟨_, (step_eq_dispatch hbudget).trans (dispatch_of_none hw)⟩
  | noImmediate hw hi hv => exact ⟨_, (hat hw).trans (execute_of_noImmediate hi hv)⟩
  | overflow hw hv hi hneeds hfull =>
    exact ⟨_, (hat hw).trans (execute_of_full hframe hv hi hneeds hfull)⟩
  | noOperand hw hv hs hi => exact ⟨_, (hat hw).trans (execute_of_empty hv hs hi)⟩
  | oneOperand hw hs hi => exact ⟨_, (hat hw).trans (execute_of_singleton hs hi)⟩
  | zeroDivisor hw hi hs => exact ⟨_, (hat hw).trans (execute_of_zeroDivisor hi hs)⟩
  | jump hw hs ht => exact ⟨_, (hat hw).trans (execute_jump_of_neg hs ht)⟩
  | jumpIf hw hs hc ht => exact ⟨_, (hat hw).trans (execute_jumpIf_of_neg hs hc ht)⟩

end Exec

/-! ### Turns -/

/-- **A turn that ends in a fault** has no event, and leaves of the machine what the rule
of the fault says. -/
theorem Machine.fault_of_turn (hframe : m.frames.toList ≠ [])
    (h : m.turn.result = some (.error e)) :
    m.turn.event = none ∧
      ∃ fetched popped, Fault m e fetched popped ∧ m.LeftAfter fetched popped m.turn.machine := by
  cases hs : Exec.step m with
  | ok event n =>
    rw [turn_of_step_ok hs] at h
    dsimp only at h
    split at h <;> cases h
  | error fault n =>
    rw [turn_of_step_error hs] at h ⊢
    cases h
    obtain ⟨fetched, popped, hf, hl⟩ := Exec.fault_of_step hframe hs
    exact ⟨rfl, fetched, popped, hf,
      ⟨hl.program, hl.config, hl.frames, hl.ceiling, hl.operands, hl.ip, hl.steps⟩⟩

end StackMachine
