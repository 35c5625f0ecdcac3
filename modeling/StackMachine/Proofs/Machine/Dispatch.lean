import StackMachine.Machine.Run
import StackMachine.Proofs.Instruction
import StackMachine.Proofs.Machine.Actions
import StackMachine.Proofs.Machine.Step

/-!
# What an opcode does

The meaning of the opcodes, stated without reference to how the machine works them
out. `StackMachine.Dispatch` relates a machine to what the word at its instruction
pointer makes of it and to the text that this emits: one rule for each way in which
a word can be dispatched, over the operands as a list from the bottom to the top and
over the *values* of the words, which are integers. A word that no rule applies to
cannot be dispatched, whether a word is missing, an operand, room on the stack, or
a number to divide by.

* `StackMachine.Instruction.value?` – the instructions that replace two operands by
  one value are one rule with a table of what the value is;
* `StackMachine.step_iff_dispatch` – **a step succeeds exactly when a rule
  applies**, and then does what the rule says, to every component of the machine.
-/

namespace StackMachine

variable {m m' : Machine} {i : Instruction} {event : Option Event} {emitted : Option String}

/-! ### The values of instructions -/

/-- A truth value as an integer. -/
def truthValue (p : Prop) [Decidable p] : Int := if p then 1 else 0

namespace Instruction

/-- **The value of an instruction on two operands**, `a` below `b`, as an integer
that need not fit into a word. A quotient by zero has no value, and an instruction
that does not replace two operands by one has none either. -/
def value? (i : Instruction) (a b : Int) : Option Int :=
  match i with
  | add => some (a + b)
  | sub => some (a - b)
  | mul => some (a * b)
  | div => if b = 0 then none else some (a.tdiv b)
  | mod => if b = 0 then none else some (a.tmod b)
  | and => some (truthValue (a ≠ 0 ∧ b ≠ 0))
  | or => some (truthValue (a ≠ 0 ∨ b ≠ 0))
  | equal => some (truthValue (a = b))
  | notEqual => some (truthValue (a ≠ b))
  | greater => some (truthValue (b < a))
  | greaterEqual => some (truthValue (b ≤ a))
  | less => some (truthValue (a < b))
  | lessEqual => some (truthValue (a ≤ b))
  | _ => none

/-- Whether an instruction replaces two operands by one value. -/
def isBinary (i : Instruction) : Bool := (i.value? 0 1).isSome

theorem isBinary_of_value? {a b n : Int} (h : i.value? a b = some n) : i.isBinary = true := by
  cases i <;> first | rfl | simp [value?] at h

end Instruction

/-! ### The rules -/

/-- The word at the instruction pointer is the opcode of the instruction. -/
def Machine.At (m : Machine) (i : Instruction) : Prop := m.program.get? m.ip = some i.opcode

/-- A machine is at one instruction only. -/
theorem Machine.At.unique {j : Instruction} (hi : m.At i) (hj : m.At j) : i = j :=
  Instruction.opcode_injective (Option.some.inj (hi.symm.trans hj))

/-- A machine is at no instruction where its program has no word. -/
theorem Machine.At.ne_none (hi : m.At i) : m.program.get? m.ip ≠ none := by
  rw [show m.program.get? m.ip = some i.opcode from hi]
  exact Option.some_ne_none _

/-- **The rules of the opcodes**: what the word at the instruction pointer makes of
a machine, and the text it emits, if any. -/
inductive Dispatch (m : Machine) : Option String → Machine → Prop
  /-- A word that is no opcode is skipped. -/
  | unknown {w : Word} (hw : m.program.get? m.ip = some w) (hno : ∀ i : Instruction, w ≠ i.opcode) :
    Dispatch m (some "INVALID OP") (m.dispatched 1)
  | nop (hw : m.At .nop) : Dispatch m (some "NOP") (m.dispatched 1)
  | halt (hw : m.At .halt) :
    Dispatch m (some "HALT") { m.dispatched 1 with status := .halted }
  | push {v : Word} (hw : m.At .push) (hv : m.program.get? (m.ip + 1) = some v)
      (hroom : m.stack.toList.length < m.stack.capacity) :
    Dispatch m none ((m.dispatched 2).setOperands (m.stack.toList ++ [v]))
  | dup {s : List Word} {a : Word} (hw : m.At .dup) (hs : m.stack.toList = s ++ [a])
      (hroom : m.stack.toList.length < m.stack.capacity) :
    Dispatch m none ((m.dispatched 1).setOperands (s ++ [a, a]))
  | load {id : Word} {fs : List Frame} {f : Frame} (hw : m.At .load)
      (hid : m.program.get? (m.ip + 1) = some id) (hf : m.frames.toList = fs ++ [f])
      (hroom : m.stack.toList.length < m.stack.capacity) :
    Dispatch m none ((m.dispatched 2).setOperands (m.stack.toList ++ [f.load id]))
  | store {id : Word} {fs : List Frame} {f : Frame} {s : List Word} {a : Word}
      (hw : m.At .store) (hid : m.program.get? (m.ip + 1) = some id)
      (hf : m.frames.toList = fs ++ [f]) (hs : m.stack.toList = s ++ [a]) :
    Dispatch m none (((m.dispatched 2).setOperands s).setFrames (fs ++ [f.store id a]))
  | pop {s : List Word} {a : Word} (hw : m.At .pop) (hs : m.stack.toList = s ++ [a]) :
    Dispatch m none ((m.dispatched 1).setOperands s)
  | print {s : List Word} {a : Word} (hw : m.At .print) (hs : m.stack.toList = s ++ [a]) :
    Dispatch m (some (toString a.toInt)) ((m.dispatched 1).setOperands s)
  /-- The value is wrapped around to a word. -/
  | binary {i : Instruction} {s : List Word} {a b : Word} {n : Int} (hw : m.At i)
      (hs : m.stack.toList = s ++ [a, b]) (hn : i.value? a.toInt b.toInt = some n) :
    Dispatch m none ((m.dispatched 1).setOperands (s ++ [Int64.ofInt n]))
  | not {s : List Word} {a : Word} (hw : m.At .not) (hs : m.stack.toList = s ++ [a]) :
    Dispatch m none
      ((m.dispatched 1).setOperands (s ++ [Int64.ofInt (truthValue (a.toInt = 0))]))
  | jump {s : List Word} {t : Word} (hw : m.At .jump) (hs : m.stack.toList = s ++ [t])
      (ht : 0 ≤ t.toInt) :
    Dispatch m none (((m.dispatched 1).setOperands s).setIp t.toInt.toNat)
  /-- A condition that holds takes the target as well. -/
  | jumpIf {s : List Word} {t c : Word} (hw : m.At .jumpIf) (hs : m.stack.toList = s ++ [t, c])
      (hc : c.toInt ≠ 0) (ht : 0 ≤ t.toInt) :
    Dispatch m none (((m.dispatched 1).setOperands s).setIp t.toInt.toNat)
  /-- A condition that does not hold leaves everything below it in place. -/
  | stay {s : List Word} {c : Word} (hw : m.At .jumpIf) (hs : m.stack.toList = s ++ [c])
      (hc : c.toInt = 0) :
    Dispatch m none ((m.dispatched 1).setOperands s)

/-! ### The values that the machine computes

The machine computes on words, and the rules on integers. The two agree because
wrapping around commutes with the operations; only the truth values, which are
words of two kinds, have to be looked at. -/

namespace Exec

theorem isTrue_iff (w : Word) : w.isTrue = true ↔ w.toInt ≠ 0 := by
  rw [Word.isTrue, bne_iff_ne, ne_eq, ne_eq, ← Int64.toInt_inj, Int64.toInt_zero]

theorem isTrue_eq_false_iff (w : Word) : w.isTrue = false ↔ w.toInt = 0 := by
  rw [Bool.eq_false_iff, ne_eq, isTrue_iff, ne_eq, Decidable.not_not]

theorem ofBool_eq (b : Bool) (p : Prop) [Decidable p] (h : b = true ↔ p) :
    Word.ofBool b = Int64.ofInt (truthValue p) := by
  by_cases hp : p
  · rw [h.mpr hp, truthValue, if_pos hp]
    rfl
  · rw [Bool.eq_false_iff.mpr (fun hb => hp (h.mp hb)), truthValue, if_neg hp]
    rfl

theorem ofBool_not (w : Word) :
    Word.ofBool (!w.isTrue) = Int64.ofInt (truthValue (w.toInt = 0)) :=
  ofBool_eq _ _ (by rw [Bool.not_eq_true', isTrue_eq_false_iff])

/-- The quotient is truncated toward zero. The one quotient of words that is not
the value of a word wraps around. -/
theorem div_eq (a b : Word) : a / b = Int64.ofInt (a.toInt.tdiv b.toInt) := by
  rw [← Int64.toInt_inj, Int64.toInt_div, Int64.toInt_ofInt]

theorem mod_eq (a b : Word) : a % b = Int64.ofInt (a.toInt.tmod b.toInt) := by
  rw [← Int64.toInt_mod, Int64.ofInt_toInt]

theorem compare_map_ofBool {n : Int} {a b : Word} {ip : Nat} (hi : i.category = .comparison)
    (hn : i.value? a.toInt b.toInt = some n) :
    (i.compare a b ip).map Word.ofBool = .ok (Int64.ofInt n) := by
  cases i <;> simp only [Instruction.category, reduceCtorEq] at hi <;>
    simp only [Instruction.value?, Option.some.injEq] at hn <;> subst hn <;>
    exact congrArg Except.ok (ofBool_eq _ _ (by
      simp [← Int64.toInt_inj, Int64.lt_iff_toInt_lt, Int64.le_iff_toInt_le]))

/-- **The instructions on two operands compute their values**: what such an
instruction makes of its operands is the value in the table, wrapped around to a
word, and it fails where the table has none. -/
theorem exists_execute_eq_binary (h : i.isBinary = true) :
    ∃ f, execute i = (do binary f; return none) ∧ ∀ ip a b c,
      f ip a b = .ok c ↔ ∃ n, i.value? a.toInt b.toInt = some n ∧ c = Int64.ofInt n := by
  have hzero (b : Word) : b = 0 ↔ b.toInt = 0 := by
    rw [← Int64.toInt_inj, Int64.toInt_zero]
  cases i with
  | add | sub | mul =>
    refine ⟨_, rfl, fun ip a b c => ?_⟩
    simp [Instruction.value?, eq_comm]
  | div | mod =>
    refine ⟨_, rfl, fun ip a b c => ?_⟩
    by_cases hb : b.toInt = 0
    · simp [Instruction.value?, hzero, hb]
    · simp [Instruction.value?, hzero, hb, div_eq, mod_eq, eq_comm]
  | and =>
    refine ⟨_, rfl, fun ip a b c => ?_⟩
    rw [ofBool_eq _ (a.toInt ≠ 0 ∧ b.toInt ≠ 0) (by simp [isTrue_iff])]
    simp [Instruction.value?, eq_comm]
  | or =>
    refine ⟨_, rfl, fun ip a b c => ?_⟩
    rw [ofBool_eq _ (a.toInt ≠ 0 ∨ b.toInt ≠ 0) (by simp [isTrue_iff])]
    simp [Instruction.value?, eq_comm]
  | equal | notEqual | greater | greaterEqual | less | lessEqual =>
    refine ⟨_, rfl, fun ip a b c => ?_⟩
    rw [compare_map_ofBool rfl rfl]
    simp [Instruction.value?, eq_comm]
  | _ => cases h

/-! ### From the execution to a rule and back -/

/-- What a successful execution does is one of the rules. -/
theorem dispatch_of_execute (hw : m.At i) (h : execute i (m.dispatched 1) = .ok event m') :
    Dispatch m (event.map Event.text) m' := by
  by_cases hb : i.isBinary = true
  · obtain ⟨f, hf, hval⟩ := exists_execute_eq_binary hb
    simp only [hf, bind_eq_ok_iff, binary_eq_ok_iff, pure_eq_ok_iff] at h
    obtain ⟨_, _, ⟨s, a, b, c, hs, hc, rfl⟩, rfl, rfl⟩ := h
    obtain ⟨n, hn, rfl⟩ := (hval _ a b c).mp hc
    exact .binary hw hs hn
  cases i with
  | nop =>
    obtain ⟨rfl, rfl⟩ := pure_eq_ok_iff.mp h
    exact .nop hw
  | halt =>
    simp only [execute, halt, bind_eq_ok_iff, modify_eq_ok_iff, pure_eq_ok_iff] at h
    obtain ⟨_, _, rfl, rfl, rfl⟩ := h
    exact .halt hw
  | push =>
    simp only [execute, bind_eq_ok_iff, fetch_eq_ok_iff, push_eq_ok_iff, pure_eq_ok_iff] at h
    obtain ⟨v, _, ⟨hv, rfl⟩, _, _, ⟨hroom, rfl⟩, rfl, rfl⟩ := h
    exact .push hw hv hroom
  | pop =>
    simp only [execute, bind_eq_ok_iff, pop_eq_ok_iff, pure_eq_ok_iff] at h
    obtain ⟨a, _, ⟨s, hs, rfl⟩, rfl, rfl⟩ := h
    exact .pop hw hs
  | dup =>
    simp only [execute, bind_eq_ok_iff, peek_eq_ok_iff, push_eq_ok_iff, pure_eq_ok_iff] at h
    obtain ⟨a, _, ⟨⟨s, hs⟩, rfl⟩, _, _, ⟨hroom, rfl⟩, rfl, rfl⟩ := h
    have happ : (m.dispatched 1).stack.toList ++ [a] = s ++ [a, a] := by
      rw [hs, List.append_assoc]
      rfl
    rw [happ]
    exact .dup hw hs hroom
  | load =>
    simp only [execute, bind_eq_ok_iff, fetch_eq_ok_iff, load_eq_ok_iff, push_eq_ok_iff,
      pure_eq_ok_iff] at h
    obtain ⟨id, _, ⟨hid, rfl⟩, _, _, ⟨fs, f, hf, rfl, rfl⟩, _, _, ⟨hroom, rfl⟩, rfl, rfl⟩ := h
    exact .load hw hid hf hroom
  | store =>
    simp only [execute, bind_eq_ok_iff, fetch_eq_ok_iff, pop_eq_ok_iff, store_eq_ok_iff,
      pure_eq_ok_iff] at h
    obtain ⟨id, _, ⟨hid, rfl⟩, a, _, ⟨s, hs, rfl⟩, _, _, ⟨fs, f, hf, rfl⟩, rfl, rfl⟩ := h
    exact .store hw hid hf hs
  | print =>
    simp only [execute, bind_eq_ok_iff, pop_eq_ok_iff, pure_eq_ok_iff] at h
    obtain ⟨a, _, ⟨s, hs, rfl⟩, rfl, rfl⟩ := h
    exact .print hw hs
  | not =>
    simp only [execute, bind_eq_ok_iff, pop_eq_ok_iff, pure_eq_ok_iff] at h
    obtain ⟨a, _, ⟨s, hs, rfl⟩, _, _, hp, rfl, rfl⟩ := h
    rw [(push_setOperands_eq_ok_iff (by simp) hs).mp hp, ofBool_not]
    exact .not hw hs
  | jump =>
    simp only [execute, bind_eq_ok_iff, pop_eq_ok_iff, jump_eq_ok_iff, pure_eq_ok_iff] at h
    obtain ⟨t, _, ⟨s, hs, rfl⟩, _, _, ⟨ht, rfl⟩, rfl, rfl⟩ := h
    exact .jump hw hs ht
  | jumpIf =>
    simp only [execute, bind_eq_ok_iff, pop_eq_ok_iff] at h
    obtain ⟨c, _, ⟨s, hs, rfl⟩, h⟩ := h
    cases hc : c.isTrue with
    | false =>
      simp only [hc, Bool.false_eq_true, if_false, pure_eq_ok_iff] at h
      obtain ⟨rfl, rfl⟩ := h
      exact .stay hw hs ((isTrue_eq_false_iff c).mp hc)
    | true =>
      simp only [hc, if_true, bind_eq_ok_iff, pop_eq_ok_iff, jump_eq_ok_iff, pure_eq_ok_iff] at h
      obtain ⟨t, _, ⟨s', hs', rfl⟩, _, _, ⟨ht, rfl⟩, rfl, rfl⟩ := h
      obtain rfl : s = s' ++ [t] := (BoundedStack.toList_withItems _ _).symm.trans hs'
      rw [Machine.setOperands_setOperands (length_le_of_append hs)]
      have hs' : m.stack.toList = s' ++ [t, c] := hs.trans (List.append_assoc s' [t] [c])
      exact .jumpIf hw hs' ((isTrue_iff c).mp hc) ht
  | _ => exact absurd rfl hb

/-- **Every rule is carried out.** -/
theorem exists_execute_of_dispatch (hw : m.At i) (h : Dispatch m emitted m') :
    ∃ event, execute i (m.dispatched 1) = .ok event m' ∧ event.map Event.text = emitted := by
  cases h with
  | unknown hw' hno => exact absurd (Option.some.inj (hw'.symm.trans hw)) (hno i)
  | nop hj =>
    obtain rfl := hw.unique hj
    exact ⟨_, rfl, rfl⟩
  | halt hj =>
    obtain rfl := hw.unique hj
    exact ⟨_, rfl, rfl⟩
  | push hj hv hroom =>
    obtain rfl := hw.unique hj
    refine ⟨none, ?_, rfl⟩
    simp only [execute, bind_eq_ok_iff, fetch_eq_ok_iff, push_eq_ok_iff, pure_eq_ok_iff, true_and]
    exact ⟨_, _, ⟨hv, rfl⟩, (), _, ⟨hroom, rfl⟩, rfl⟩
  | pop hj hs =>
    obtain rfl := hw.unique hj
    refine ⟨none, ?_, rfl⟩
    simp only [execute, bind_eq_ok_iff, pop_eq_ok_iff, pure_eq_ok_iff, true_and]
    exact ⟨_, _, ⟨_, hs, rfl⟩, rfl⟩
  | dup hj hs hroom =>
    obtain rfl := hw.unique hj
    refine ⟨none, ?_, rfl⟩
    simp only [execute, bind_eq_ok_iff, peek_eq_ok_iff, push_eq_ok_iff, pure_eq_ok_iff, true_and]
    refine ⟨_, _, ⟨⟨_, hs⟩, rfl⟩, (), _, ⟨hroom, rfl⟩, ?_⟩
    rw [show (m.dispatched 1).stack.toList = _ from hs, List.append_assoc]
    rfl
  | load hj hid hf hroom =>
    obtain rfl := hw.unique hj
    refine ⟨none, ?_, rfl⟩
    simp only [execute, bind_eq_ok_iff, fetch_eq_ok_iff, load_eq_ok_iff, push_eq_ok_iff,
      pure_eq_ok_iff, true_and]
    exact ⟨_, _, ⟨hid, rfl⟩, _, _, ⟨_, _, hf, rfl, rfl⟩, (), _, ⟨hroom, rfl⟩, rfl⟩
  | store hj hid hf hs =>
    obtain rfl := hw.unique hj
    refine ⟨none, ?_, rfl⟩
    simp only [execute, bind_eq_ok_iff, fetch_eq_ok_iff, pop_eq_ok_iff, store_eq_ok_iff,
      pure_eq_ok_iff, true_and]
    exact ⟨_, _, ⟨hid, rfl⟩, _, _, ⟨_, hs, rfl⟩, (), _, ⟨_, _, hf, rfl⟩, rfl⟩
  | print hj hs =>
    obtain rfl := hw.unique hj
    refine ⟨some (.printed _), ?_, rfl⟩
    simp only [execute, bind_eq_ok_iff, pop_eq_ok_iff, pure_eq_ok_iff]
    exact ⟨_, _, ⟨_, hs, rfl⟩, rfl, rfl⟩
  | binary hj hs hn =>
    obtain rfl := hw.unique hj
    obtain ⟨f, hf, hval⟩ := exists_execute_eq_binary (Instruction.isBinary_of_value? hn)
    refine ⟨none, ?_, rfl⟩
    simp only [hf, bind_eq_ok_iff, binary_eq_ok_iff, pure_eq_ok_iff, true_and]
    exact ⟨(), _, ⟨_, _, _, _, hs, (hval _ _ _ _).mpr ⟨_, hn, rfl⟩, rfl⟩, rfl⟩
  | not hj hs =>
    obtain rfl := hw.unique hj
    refine ⟨none, ?_, rfl⟩
    simp only [execute, bind_eq_ok_iff, pop_eq_ok_iff, pure_eq_ok_iff, true_and]
    refine ⟨_, _, ⟨_, hs, rfl⟩, (), _, ?_, rfl⟩
    rw [ofBool_not]
    exact (push_setOperands_eq_ok_iff (m := m.dispatched 1) (by simp) hs).mpr rfl
  | jump hj hs ht =>
    obtain rfl := hw.unique hj
    refine ⟨none, ?_, rfl⟩
    simp only [execute, bind_eq_ok_iff, pop_eq_ok_iff, jump_eq_ok_iff, pure_eq_ok_iff, true_and]
    exact ⟨_, _, ⟨_, hs, rfl⟩, (), _, ⟨ht, rfl⟩, rfl⟩
  | @jumpIf s t c hj hs hc ht =>
    obtain rfl := hw.unique hj
    have hs' : (m.dispatched 1).stack.toList = (s ++ [t]) ++ [c] :=
      hs.trans (List.append_assoc s [t] [c]).symm
    refine ⟨none, ?_, rfl⟩
    simp only [execute, bind_eq_ok_iff, pop_eq_ok_iff]
    refine ⟨c, _, ⟨_, hs', rfl⟩, ?_⟩
    simp only [(isTrue_iff c).mpr hc, if_true, bind_eq_ok_iff, pop_eq_ok_iff, jump_eq_ok_iff,
      pure_eq_ok_iff, true_and]
    refine ⟨t, _, ⟨s, by simp, rfl⟩, (), _, ⟨ht, rfl⟩, ?_⟩
    rw [Machine.setOperands_setOperands (length_le_of_append hs')]
  | @stay s c hj hs hc =>
    obtain rfl := hw.unique hj
    refine ⟨none, ?_, rfl⟩
    simp only [execute, bind_eq_ok_iff, pop_eq_ok_iff]
    refine ⟨c, _, ⟨_, hs, rfl⟩, ?_⟩
    simp only [(isTrue_eq_false_iff c).mpr hc, Bool.false_eq_true, if_false]
    rfl

/-! ### Steps -/

/-- **A step within the budget** skips a word that is no opcode, and otherwise executes
the instruction whose opcode the word is. -/
theorem step_eq_ok_iff (h : ∀ limit, m.config.stepLimit = some limit → m.steps < limit) :
    step m = .ok event m' ↔ ∃ w, m.program.get? m.ip = some w ∧
      ((∀ i : Instruction, w ≠ i.opcode) ∧ event = some (.invalid w m.ip) ∧ m' = m.dispatched 1 ∨
        ∃ i : Instruction, w = i.opcode ∧ execute i (m.dispatched 1) = .ok event m') := by
  rw [step_eq_dispatch h]
  cases hw : m.program.get? m.ip with
  | none => simp [dispatch_of_none hw]
  | some w =>
    rw [dispatch_of_some hw]
    constructor
    · intro hd
      refine ⟨w, rfl, ?_⟩
      cases hi : Instruction.decode? w with
      | none =>
        simp only [hi] at hd
        obtain ⟨rfl, rfl⟩ := pure_eq_ok_iff.mp hd
        exact Or.inl ⟨Instruction.decode?_eq_none_iff.mp hi, rfl, rfl⟩
      | some i =>
        simp only [hi] at hd
        exact Or.inr ⟨i, Instruction.decode?_eq_some_iff.mp hi, hd⟩
    · rintro ⟨_, ⟨⟩, ⟨hno, rfl, rfl⟩ | ⟨i, rfl, hd⟩⟩
      · rw [Instruction.decode?_eq_none_iff.mpr hno]
        rfl
      · rw [Instruction.decode?_opcode]
        exact hd

end Exec

end StackMachine
