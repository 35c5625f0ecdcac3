import StackMachine.Proofs.Machine.Below
import StackMachine.Proofs.Machine.Boundaries

/-!
# The law of division

What `DIV` and `MOD` leave for two words is a quotient and a remainder that belong together: the
remainder is smaller than the divisor and has the sign of the dividend, the quotient is truncated
toward zero, and the machine itself, by a `MUL` and an `ADD`, gets the dividend back from the two.

There is one pair of words whose quotient is no word, the most negative one by minus one. Its
quotient wraps around to the dividend, and the law holds of it all the same: the remainder is zero,
and the product wraps around once more. A divisor that is zero has no quotient, and is the one that
the machine refuses.

The words are looked at where a program has them: in front of the machine there is code that pushes
two of them and applies an instruction, and there may be anything else before it and behind it.

* `StackMachine.Instruction.Leaves` – the word that such code leaves on the stack
  (`StackMachine.Instruction.Leaves.unique`);
* `StackMachine.Instruction.leaves_of_value?` – it is the value of the instruction;
* `StackMachine.divisionLaw` – **the law of division**, for all pairs of words.
-/

namespace StackMachine

variable {m m' : Machine} {i : Instruction} {a b w w' : Word} {events : Array Event} {n : Nat}

/-! ### Turns by a rule -/

/-- **A rule that emits nothing takes a run one turn further**, if the machine goes on. -/
theorem Machine.advance_of_dispatch (hbudget : m.WithinBudget) (h : Dispatch m none m')
    (hrunning : m'.status = .running) (events : Array Event) (n : Nat) :
    (m.going events).advance (n + 1) = (m'.going events).advance n := by
  obtain ⟨event, hstep, hevent⟩ := Exec.exists_step_of_dispatch hbudget h
  obtain rfl := Option.map_eq_none_iff.mp hevent
  have hturn := turn_of_step_ok hstep
  rw [if_pos hrunning] at hturn
  have hnext : (m.going events).next = m'.going events := by
    rw [Run.next, going, hturn]
    simp [going]
  rw [Run.advance, if_neg (by simp [going]), hnext]

/-- **A fault ends a run.** -/
theorem Machine.advance_of_error {e : Error} (h : Exec.step m = .error e m') (events : Array Event)
    (n : Nat) :
    (m.going events).advance (n + 1) =
      ⟨{ m' with status := .faulted }, events, some (.error e)⟩ := by
  have hnext : (m.going events).next =
      ⟨{ m' with status := .faulted }, events, some (.error e)⟩ := by
    rw [Run.next, going, turn_of_step_error h]
    simp
  rw [Run.advance, if_neg (by simp [going]), hnext, Run.advance_of_ended rfl]

/-- The machine once a word is pushed. -/
def Machine.pushed (m : Machine) (v : Word) : Machine :=
  (m.dispatched 2).setOperands (m.stack.toList ++ [v])

@[simp] theorem Machine.toList_pushed (m : Machine) (v : Word) :
    (m.pushed v).stack.toList = m.stack.toList ++ [v] :=
  BoundedStack.toList_withItems _ _

/-- A word that is pushed takes up one place. -/
theorem Machine.room_pushed {k : Nat} (hroom : m.stack.toList.length + (k + 1) ≤ m.stack.capacity)
    (v : Word) : (m.pushed v).stack.toList.length + k ≤ (m.pushed v).stack.capacity := by
  have hlength : (m.stack.toList ++ [v]).length = m.stack.toList.length + 1 := List.length_append
  have hcapacity : (m.pushed v).stack.capacity = m.stack.capacity :=
    BoundedStack.capacity_withItems (s := m.stack) (by omega)
  rw [toList_pushed, hlength, hcapacity]
  omega

/-- **A word is pushed by a turn**, if there is room for it. -/
theorem Machine.advance_push {v : Word} (hrunning : m.status = .running)
    (hbudget : m.WithinBudget) (hw : m.At .push) (hv : m.program.get? (m.ip + 1) = some v)
    (hroom : m.stack.toList.length < m.stack.capacity) (events : Array Event) (n : Nat) :
    (m.going events).advance (n + 1) = ((m.pushed v).going events).advance n :=
  advance_of_dispatch hbudget (.push hw hv hroom) hrunning events n

/-! ### Instructions applied to words -/

/-- The code that applies an instruction to two words. -/
def Instruction.code (i : Instruction) (a b : Word) : List Word :=
  [push.opcode, a, push.opcode, b, i.opcode]

/-- **A machine is about to apply an instruction to two words**: the code for that is ahead, and
there is room for the words and budget for three instructions. -/
structure Machine.Applies (m : Machine) (i : Instruction) (a b : Word) : Prop where
  running : m.status = .running
  code : i.code a b <+: m.ahead
  room : m.stack.toList.length + 2 ≤ m.stack.capacity
  budget : ∀ limit, m.config.stepLimit = some limit → m.steps + 3 ≤ limit

/-- The machine behind the code that applies an instruction, with the given operands. -/
def Machine.applied (m : Machine) (l : List Word) : Machine :=
  { m with ip := m.ip + 5, origin := m.ip + 4, steps := m.steps + 3 }.setOperands l

/-- **An instruction leaves a word for two words**: wherever a machine applies it to them, it goes
on behind the code with the word on top of the operands that it had, and nothing else is changed. -/
def Instruction.Leaves (i : Instruction) (a b w : Word) : Prop :=
  ∀ m : Machine, m.Applies i a b → ∀ events,
    (m.going events).advance 3 = (m.applied (m.stack.toList ++ [w])).going events

/-- **An instruction refuses two words as a division by zero**: wherever a machine applies it to
them, the run ends with that fault, at the offset of the instruction, and with the operands that
there were before. -/
def Instruction.DividesByZero (i : Instruction) (a b : Word) : Prop :=
  ∀ m : Machine, m.Applies i a b → ∀ events,
    (m.going events).advance 3 =
      ⟨{ m.applied m.stack.toList with status := .faulted }, events,
        some (.error (.divisionByZero (m.ip + 4)))⟩

namespace Machine.Applies

theorem get?_eq (h : m.Applies i a b) {k : Nat} (hk : k < 5) :
    m.program.get? (m.ip + k) = some (i.code a b)[k] := by
  rw [← getElem?_ahead]
  exact List.prefix_iff_getElem?.mp h.code k hk

theorem withinBudget (h : m.Applies i a b) {k : Nat} (hk : k < 3) :
    ∀ limit, m.config.stepLimit = some limit → m.steps + k < limit := by
  intro limit hlimit
  have hle := h.budget limit hlimit
  omega

/-- **A new machine applies an instruction** if its program begins with the code for that, and its
limits allow it. -/
theorem of_run_zero {p : Program} {c : Config} (hcode : i.code a b <+: p.toList)
    (hframe : 0 < c.frameCapacity) (hroom : 2 ≤ c.stackCapacity)
    (hbudget : ∀ limit, c.stepLimit = some limit → 3 ≤ limit) :
    (p.run c 0).machine.Applies i a b := by
  rw [Program.run_zero_of_room hframe]
  refine ⟨rfl, hcode, ?_, fun limit hlimit => ?_⟩
  · change 0 + 2 ≤ c.stackCapacity
    omega
  · change 0 + 3 ≤ limit
    have hle := hbudget limit hlimit
    omega

/-- **The two words are pushed** by the first two turns. -/
theorem advance_pushes (h : m.Applies i a b) (events : Array Event) (n : Nat) :
    (m.going events).advance (n + 2) = (((m.pushed a).pushed b).going events).advance n := by
  have hbudget : m.WithinBudget := h.withinBudget (k := 0) (by decide)
  have hopcode : m.At .push := h.get?_eq (k := 0) (by decide)
  have hword : m.program.get? (m.ip + 1) = some a := h.get?_eq (k := 1) (by decide)
  have hbudget' : (m.pushed a).WithinBudget := h.withinBudget (k := 1) (by decide)
  have hopcode' : (m.pushed a).At .push := h.get?_eq (k := 2) (by decide)
  have hword' : (m.pushed a).program.get? ((m.pushed a).ip + 1) = some b :=
    h.get?_eq (k := 3) (by decide)
  rw [advance_push h.running hbudget hopcode hword (Nat.lt_of_succ_lt h.room),
    advance_push (m := m.pushed a) h.running hbudget' hopcode' hword' (room_pushed h.room a)]

/-- The third turn is at the instruction. -/
theorem at_pushed (h : m.Applies i a b) : ((m.pushed a).pushed b).At i :=
  h.get?_eq (k := 4) (by decide)

theorem withinBudget_pushed (h : m.Applies i a b) : ((m.pushed a).pushed b).WithinBudget :=
  h.withinBudget (k := 2) (by decide)

/-- What the third turn does to the operands, it does to those of the machine before. -/
theorem setOperands_pushed (h : m.Applies i a b) (l : List Word) :
    (((m.pushed a).pushed b).dispatched 1).setOperands l = m.applied l := by
  have hroom := h.room
  have hroom' := room_pushed h.room a
  have hstack : ((m.pushed a).pushed b).stack.withItems l = m.stack.withItems l := by
    refine (BoundedStack.withItems_withItems (s := (m.pushed a).stack) ?_).trans
      (BoundedStack.withItems_withItems (s := m.stack) ?_)
    · rw [List.length_append]
      exact hroom'
    · rw [List.length_append]
      exact Nat.le_of_succ_le hroom
  rw [setOperands, applied, setOperands, dispatched_stack, hstack]
  rfl

end Machine.Applies

theorem Word.toInt_ne_zero (hb : b ≠ 0) : b.toInt ≠ 0 := by
  rwa [← Int64.toInt_zero, Ne, Int64.toInt_inj]

namespace Instruction

/-- **An instruction leaves its value**, wrapped around to a word. -/
theorem leaves_of_value? {z : Int} (hz : i.value? a.toInt b.toInt = some z) :
    i.Leaves a b (Int64.ofInt z) := by
  intro m h events
  have hrule : Dispatch ((m.pushed a).pushed b) none
      ((((m.pushed a).pushed b).dispatched 1).setOperands (m.stack.toList ++ [Int64.ofInt z])) :=
    .binary h.at_pushed (by simp) hz
  rw [h.setOperands_pushed] at hrule
  rw [h.advance_pushes, Machine.advance_of_dispatch h.withinBudget_pushed hrule h.running]
  rfl

theorem leaves_add (a b : Word) : add.Leaves a b (a + b) := by
  have h := leaves_of_value? (i := add) (a := a) (b := b) rfl
  rwa [Int64.ofInt_add, Int64.ofInt_toInt, Int64.ofInt_toInt] at h

theorem leaves_mul (a b : Word) : mul.Leaves a b (a * b) := by
  have h := leaves_of_value? (i := mul) (a := a) (b := b) rfl
  rwa [Int64.ofInt_mul, Int64.ofInt_toInt, Int64.ofInt_toInt] at h

theorem leaves_div (a : Word) (hb : b ≠ 0) : div.Leaves a b (a / b) := by
  rw [Exec.div_eq]
  exact leaves_of_value? (if_neg (Word.toInt_ne_zero hb))

theorem leaves_mod (a : Word) (hb : b ≠ 0) : mod.Leaves a b (a % b) := by
  rw [Exec.mod_eq]
  exact leaves_of_value? (if_neg (Word.toInt_ne_zero hb))

/-- **A divisor that is zero is refused**, by the division and by the remainder. -/
theorem dividesByZero (hi : i = div ∨ i = mod) (a : Word) : i.DividesByZero a 0 := by
  intro m h events
  have hstep := (Exec.step_of_at h.withinBudget_pushed h.at_pushed).trans
    (Exec.execute_of_zeroDivisor (s := m.stack.toList) (a := a) hi (by simp))
  rw [h.setOperands_pushed] at hstep
  rw [h.advance_pushes, Machine.advance_of_error hstep]
  rfl

/-- **An instruction leaves one word at most**, for there is a machine that applies it. -/
theorem Leaves.unique (h : i.Leaves a b w) (h' : i.Leaves a b w') : w = w' := by
  have happlies : ((Program.ofList (i.code a b)).run {} 0).machine.Applies i a b :=
    .of_run_zero List.prefix_rfl (by decide) (by decide) nofun
  have heq := (h _ happlies #[]).symm.trans (h' _ happlies #[])
  have hstack := congrArg (fun r => r.machine.stack.toList) heq
  simpa [Machine.going, Machine.applied] using hstack

theorem Leaves.iff_eq (h : i.Leaves a b w) (w' : Word) : i.Leaves a b w' ↔ w' = w :=
  ⟨fun h' => h'.unique h, fun heq => heq ▸ h⟩

end Instruction

/-! ### Quotients and remainders -/

/-- **Two words are the quotient and the remainder** of two others. -/
structure Word.Division (a b q r : Word) : Prop where
  /-- The remainder is smaller than the divisor. -/
  remainder_lt : r.toInt.natAbs < b.toInt.natAbs
  /-- It has the sign of the dividend. -/
  sign : r = 0 ∨ r.toInt.sign = a.toInt.sign
  /-- The quotient is truncated toward zero. -/
  quotient : ¬(a = Int64.minValue ∧ b = -1) → q.toInt = a.toInt.tdiv b.toInt
  /-- The one quotient that is no word wraps around to the dividend. -/
  wrapped : a = Int64.minValue → b = -1 → q = Int64.minValue ∧ r = 0

theorem Word.division (a : Word) (hb : b ≠ 0) : Word.Division a b (a / b) (a % b) where
  remainder_lt := by
    rw [Int64.toInt_mod, Int.natAbs_tmod]
    exact Nat.mod_lt _ (Int.natAbs_pos.mpr (Word.toInt_ne_zero hb))
  sign := by
    rw [← Int64.toInt_inj, Int64.toInt_mod, Int64.toInt_zero, ← Int.sign_eq_zero_iff_zero,
      Int.sign_tmod]
    split
    · exact Or.inl rfl
    · exact Or.inr rfl
  quotient hno := by
    by_cases ha : a = Int64.minValue
    · exact Int64.toInt_div_of_ne_right a b fun hb => hno ⟨ha, hb⟩
    · exact Int64.toInt_div_of_ne_left a b ha
  wrapped := by
    rintro rfl rfl
    decide

/-- **The dividend comes back** from its quotient and its remainder. -/
theorem Word.div_mul_add_mod (a b : Word) : a / b * b + a % b = a := by
  have hb : b = Int64.ofInt b.toInt := (Int64.ofInt_toInt b).symm
  calc a / b * b + a % b
      = Int64.ofInt (a.toInt.tdiv b.toInt) * Int64.ofInt b.toInt +
          Int64.ofInt (a.toInt.tmod b.toInt) := by rw [← hb, ← Exec.div_eq, ← Exec.mod_eq]
    _ = Int64.ofInt (a.toInt.tdiv b.toInt * b.toInt + a.toInt.tmod b.toInt) := by
        rw [Int64.ofInt_add, Int64.ofInt_mul]
    _ = a := by rw [Int.tdiv_mul_add_tmod, Int64.ofInt_toInt]

/-- **What the machine does with two words** that it divides. -/
structure DivisionLaw (a b : Word) : Prop where
  /-- By any divisor but zero, there is one word that `DIV` leaves and one that `MOD` leaves. They
  are a quotient and a remainder, and `MUL` and `ADD` make the dividend of them. -/
  divided : b ≠ 0 → ∃ q r product,
    (∀ w, Instruction.div.Leaves a b w ↔ w = q) ∧ (∀ w, Instruction.mod.Leaves a b w ↔ w = r) ∧
      Instruction.mul.Leaves q b product ∧ Instruction.add.Leaves product r a ∧
      Word.Division a b q r
  /-- By zero, both are refused, and nothing else comes of them. -/
  refused : b = 0 → Instruction.div.DividesByZero a b ∧ Instruction.mod.DividesByZero a b

/-- **The law of division.** -/
theorem divisionLaw (a b : Word) : DivisionLaw a b where
  divided hb := by
    have hdividend : Instruction.add.Leaves (a / b * b) (a % b) a := by
      have h := Instruction.leaves_add (a / b * b) (a % b)
      rwa [Word.div_mul_add_mod] at h
    exact ⟨a / b, a % b, a / b * b, (Instruction.leaves_div a hb).iff_eq,
      (Instruction.leaves_mod a hb).iff_eq, Instruction.leaves_mul (a / b) b, hdividend,
      Word.division a hb⟩
  refused hb := by
    rw [hb]
    exact ⟨Instruction.dividesByZero (Or.inl rfl) a, Instruction.dividesByZero (Or.inr rfl) a⟩

end StackMachine
