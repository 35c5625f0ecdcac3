import StackMachine.Proofs.Machine.Invariant

/-!
# What can be learnt from a fault

A run that ends in a fault can be inspected: the fault names an offset, and the machine
shows its operands, its pointer and its count. Both can be relied upon. The machine is
the one before the last turn, less what its rule in `StackMachine.Fault` says, and so
the offset and the word at it can be looked up in it again.

* `StackMachine.Program.leftAfter_of_fault` – **what a fault leaves** of the machine of
  a run;
* `StackMachine.Error.Blames` – the conditions under which a fault is to blame on a
  word, and the offset it has to name;
* `StackMachine.Program.exists_blames` – **every fault names its true cause**.
-/

namespace StackMachine

variable {m : Machine} {p : Program} {c : Config} {u : Run} {e : Error} {j : Nat}

namespace Program

/-- **What a fault leaves of a run**: the events as they were, and the machine but for
the words that the last turn had fetched and the operands that it had popped when it
failed, which depends on the kind of failure alone. -/
theorem leftAfter_of_fault (hgoing : (p.run c j).result = none)
    (hfault : (p.run c (j + 1)).result = some (.error e)) :
    (p.run c (j + 1)).events = (p.run c j).events ∧
      ∃ fetched popped, Fault (p.run c j).machine e fetched popped ∧
        (p.run c j).machine.LeftAfter fetched popped (p.run c (j + 1)).machine := by
  rw [run_succ_of_going hgoing] at hfault ⊢
  obtain ⟨hevent, hleft⟩ := Machine.fault_of_turn (runs_of_going hgoing).frames_ne_nil hfault
  refine ⟨?_, hleft⟩
  rw [Run.next, hevent]
  exact Array.append_empty

/-- A jump on a true condition to a negative target: both operands are gone, and the
pointer is behind the opcode and not at the target. -/
theorem leftAfter_of_fault_negative_target :
    let p := ofList [Instruction.nop.opcode, Instruction.push.opcode, -3,
      Instruction.push.opcode, 1, Instruction.jumpIf.opcode]
    (p.run {} 3).result = none ∧
      (p.run {} 4).result = some (.error (.invalidPointer (-3))) ∧
      (p.run {} 4).events = (p.run {} 3).events ∧
      ∃ fetched popped, Fault (p.run {} 3).machine (.invalidPointer (-3)) fetched popped ∧
        (p.run {} 3).machine.LeftAfter fetched popped (p.run {} 4).machine := by
  intro p
  have hgoing : (p.run {} 3).result = none := by
    unfold p
    rfl
  have hfault : (p.run {} 4).result = some (.error (.invalidPointer (-3))) := by
    unfold p
    rfl
  exact ⟨hgoing, hfault, leftAfter_of_fault hgoing hfault⟩

end Program

/-! ### The cause of a fault -/

/-- **The word at the pointer of a machine is to blame** for a fault. The first three
causes name its offset, and what they say about the operands is true of the machine
before it was dispatched. The budget and a missing word need no instruction, and the
other errors are no faults of a run. -/
def Error.Blames (p : Program) (c : Config) (m : Machine) : Error → Prop
  | .stackUnderflow ip => ip = m.ip ∧
      ∃ i : Instruction, p.get? ip = some i.opcode ∧
        m.stack.toList.length < i.needs m.stack.toList
  | .stackOverflow ip capacity => ip = m.ip ∧ capacity = c.stackCapacity ∧
      ∃ i : Instruction, p.get? ip = some i.opcode ∧ (i = .push ∨ i = .dup ∨ i = .load) ∧
        m.stack.toList.length = capacity
  | .divisionByZero ip => ip = m.ip ∧
      ∃ i : Instruction, p.get? ip = some i.opcode ∧ (i = .div ∨ i = .mod) ∧
        ∃ s a, m.stack.toList = s ++ [a, 0]
  | .invalidPointer target =>
      (∃ a, (a = m.ip ∨ a = m.ip + 1) ∧ p.get? a = none ∧
        target = (min a Exec.maxAddress : Nat)) ∨
      (∃ i : Instruction, p.get? m.ip = some i.opcode ∧ (i = .jump ∨ i = .jumpIf) ∧ target < 0)
  | .stepLimitExceeded limit => c.stepLimit = some limit ∧ m.steps = limit
  | _ => False

/-- **A fault raised by a rule has that cause.** -/
theorem Fault.blames {fetched popped : Nat} (h : Fault m e fetched popped) (hm : m.Runs p c) :
    e.Blames p c m := by
  have hat {i : Instruction} (hi : m.At i) : p.get? m.ip = some i.opcode := by
    rw [← hm.program]
    exact hi
  cases h with
  | stepLimit hl hlimit =>
    rw [hm.config] at hl
    exact ⟨hl, Nat.le_antisymm (hm.steps _ hl) hlimit⟩
  | noOpcode hw =>
    rw [hm.program] at hw
    exact Or.inl ⟨_, Or.inl rfl, hw, rfl⟩
  | noImmediate _ _ hv =>
    rw [hm.program] at hv
    exact Or.inl ⟨_, Or.inr rfl, hv, rfl⟩
  | overflow hw _ hi _ hfull => exact ⟨rfl, hm.ceiling, _, hat hw, hi, hfull⟩
  | noOperand hw _ hs hi => exact ⟨rfl, _, hat hw, by rw [hs]; exact hi⟩
  | oneOperand hw hs hi => exact ⟨rfl, _, hat hw, by rw [hs]; exact hi⟩
  | zeroDivisor hw hi hs => exact ⟨rfl, _, hat hw, hi, _, _, hs⟩
  | jump hw _ ht => exact Or.inr ⟨_, hat hw, Or.inl rfl, ht⟩
  | jumpIf hw _ _ ht => exact Or.inr ⟨_, hat hw, Or.inr rfl, ht⟩

namespace Program

/-- **Every fault names its true cause.** A run that got its frame and ends in an error
ends by a last turn, and the word which this turn dispatched is to blame. -/
theorem exists_blames (hc : 0 < c.frameCapacity) (hend : p.Ends c u)
    (he : u.result = some (.error e)) :
    ∃ j, (p.run c j).result = none ∧ u = p.run c (j + 1) ∧ e.Blames p c (p.run c j).machine := by
  obtain ⟨-, n, rfl⟩ := hend
  obtain ⟨j, hj, hrun, fetched, popped, hf, -⟩ := exists_fault hc he
  exact ⟨j, hj, hrun, hf.blames (runs_of_going hj)⟩

/-- A jump into the middle of an instruction: the immediate of the last `PUSH` is the
opcode of `DIV`, and dispatched as such it is what the fault names. -/
theorem exists_blames_jump_to_immediate :
    let p := ofList [Instruction.push.opcode, 6, Instruction.push.opcode, 0,
      Instruction.push.opcode, 8, Instruction.jump.opcode, Instruction.push.opcode,
      Instruction.div.opcode]
    let c : Config := { stackCapacity := 3 }
    let u := p.run c 5
    0 < c.frameCapacity ∧ p.Ends c u ∧ u.result = some (.error (.divisionByZero 8)) ∧
      ∃ j, (p.run c j).result = none ∧ u = p.run c (j + 1) ∧
        (Error.divisionByZero 8).Blames p c (p.run c j).machine := by
  intro p c u
  have he : u.result = some (.error (.divisionByZero 8)) := by
    unfold u p c
    rfl
  have hend : p.Ends c u := ⟨by rw [he]; rfl, 5, rfl⟩
  exact ⟨by decide, hend, he, exists_blames (by decide) hend he⟩

end Program

end StackMachine
