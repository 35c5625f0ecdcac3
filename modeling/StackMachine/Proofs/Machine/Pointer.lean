import StackMachine.Proofs.Machine.Boundaries
import StackMachine.Proofs.Machine.Trace

/-!
# Where the instruction pointer can be

An address is a natural number in a machine, and an integer in a word. A jump takes it out of a
word, and a fault puts it back into one, where there is an end to the addresses. Nothing is lost
on the way, in either direction, because the pointer can only be in two kinds of places:

| the last turn            | the pointer is                                            |
|--------------------------|-----------------------------------------------------------|
| has dispatched no jump   | behind words of the program, so at its end at the latest  |
| has taken a jump         | at an address that was in a word                          |

Both fit into a word, unless the program is too long for that. So when there is no word at the
pointer, it either is at the end of the program or has been sent there by the last jump, and the
fault tells exactly where.

* `StackMachine.Dispatch.ip_le`, `StackMachine.Dispatch.ip_of_jump` – the two rows of the table;
* `StackMachine.Program.ip_of_going` – the invariant: which of them it is;
* `StackMachine.Program.PointerFault` – the ways for a run to end in an invalid pointer;
* `StackMachine.Program.pointerExact` – **the instruction pointer is exact**.
-/

namespace StackMachine

variable {m m' : Machine} {p : Program} {c : Config} {u : Run} {t : Word} {e : Error}
  {emitted : Option String} {a j n : Nat}

/-! ### Jumps and their targets -/

/-- **The machine is about to jump to `t`**: the word at the instruction pointer is that of a jump,
the target is the operand on top or, below a condition that is true, the next one. -/
def Machine.JumpsTo (m : Machine) (t : Word) : Prop :=
  (m.At .jump ∧ ∃ s, m.stack.toList = s ++ [t]) ∨
    (m.At .jumpIf ∧ ∃ s b, m.stack.toList = s ++ [t, b] ∧ b.toInt ≠ 0)

/-- **A jump that is dispatched moves the instruction pointer to its target.** -/
theorem Dispatch.ip_of_jump (h : Dispatch m emitted m') (hjump : m.WantsJump) :
    ∃ t, m.JumpsTo t ∧ 0 ≤ t.toInt ∧ m'.ip = t.toInt.toNat := by
  have hother {i : Instruction} (hi : m.At i) : i = .jump ∨ i = .jumpIf :=
    hjump.imp hi.unique fun hj => hi.unique hj.1
  cases h with
  | @jump s t hw hs ht => exact ⟨t, Or.inl ⟨hw, s, hs⟩, ht, rfl⟩
  | @jumpIf s t b hw hs hb ht => exact ⟨t, Or.inr ⟨hw, s, b, hs, hb⟩, ht, rfl⟩
  | @stay s b hw hs hb =>
    rcases hjump with hj | ⟨-, s', b', hs', hb'⟩
    · cases hw.unique hj
    · obtain ⟨-, rfl⟩ := List.append_singleton_inj.mp (hs.symm.trans hs')
      exact absurd hb hb'
  | unknown hw hno =>
    rcases hjump with hj | ⟨hj, -⟩ <;> exact absurd (Option.some.inj (hw.symm.trans hj)) (hno _)
  | @binary i _ _ _ _ hw _ hn =>
    have hb := Instruction.isBinary_of_value? hn
    rcases hother hw with rfl | rfl <;> cases hb
  | nop hw | halt hw | push hw | dup hw | load hw | store hw | pop hw | print hw | not hw =>
    rcases hother hw with h | h <;> cases h

/-- **A word that is dispatched and is no jump leaves the instruction pointer in the program**, or
at its end. -/
theorem Dispatch.ip_le (h : Dispatch m emitted m') (hstay : ¬m.WantsJump) :
    m'.ip ≤ m.program.size := by
  cases h with
  | push _ hv | load _ hv | store _ hv => exact Program.lt_size_of_get? hv
  | unknown hw | nop hw | halt hw | dup hw | pop hw | print hw | binary hw | not hw | stay hw =>
    exact Program.lt_size_of_get? hw
  | jump hw => exact absurd (Or.inl hw) hstay
  | @jumpIf s t b hw hs hb =>
    exact absurd (Or.inr ⟨hw, s ++ [t], b, by rw [hs, List.append_assoc]; rfl, hb⟩) hstay

/-- **A jump to an address that is not negative is taken.** -/
theorem Machine.exists_step_of_jumpsTo (hbudget : m.WithinBudget) (h : m.JumpsTo t)
    (ht : 0 ≤ t.toInt) :
    ∃ event n, Exec.step m = .ok event n ∧ n.ip = t.toInt.toNat ∧ n.status = m.status := by
  rcases h with ⟨hw, s, hs⟩ | ⟨hw, s, b, hs, hb⟩
  · obtain ⟨event, hstep, -⟩ := Exec.exists_step_of_dispatch hbudget (.jump hw hs ht)
    exact ⟨event, _, hstep, rfl, rfl⟩
  · obtain ⟨event, hstep, -⟩ := Exec.exists_step_of_dispatch hbudget (.jumpIf hw hs hb ht)
    exact ⟨event, _, hstep, rfl, rfl⟩

/-- A step that fails has fetched words of the program, if any. -/
theorem Fault.ip_le {fetched popped : Nat} (h : Fault m e fetched popped) :
    fetched = 0 ∨ m.ip + fetched ≤ m.program.size := by
  have hsize {i : Instruction} (hw : m.At i) (hv : m.HasImmediate i) :
      m.ip + i.size ≤ m.program.size := by
    by_cases hi : i.immediates = 0
    · rw [Instruction.size, hi]
      exact Program.lt_size_of_get? hw
    · have hone := Instruction.immediates_eq_one hi
      obtain ⟨v, hv⟩ := hv hone
      rw [Instruction.size, hone]
      exact Program.lt_size_of_get? hv
  cases h with
  | stepLimit | noOpcode => exact Or.inl rfl
  | overflow hw hv | noOperand hw hv => exact Or.inr (hsize hw hv)
  | noImmediate hw | oneOperand hw | zeroDivisor hw | jump hw | jumpIf hw =>
    exact Or.inr (Program.lt_size_of_get? hw)

theorem toNat_le_maxAddress (t : Word) : t.toInt.toNat ≤ Exec.maxAddress := by
  have hlt := t.toInt_lt
  unfold Exec.maxAddress
  omega

/-! ### Runs -/

namespace Program

/-- **The last jump that the run of a program has taken**, among some turns, was to `t`. -/
def LastJump (p : Program) (c : Config) (n : Nat) (t : Word) : Prop :=
  ∃ j < n, p.JumpsAt c j ∧ (p.run c j).machine.JumpsTo t ∧
    ∀ k, j < k → k < n → ¬p.JumpsAt c k

/-- **As long as a run goes on, its pointer is in the program**, or at the end of it, **or where
the last jump went.** -/
theorem ip_of_going (hn : (p.run c n).result = none) :
    (p.run c n).machine.ip ≤ p.size ∨
      ∃ t, p.LastJump c n t ∧ ((p.run c n).machine.ip : Int) = t.toInt := by
  rcases n with _ | n
  · rw [run_zero_of_room (room_of_going hn)]
    exact Or.inl (Nat.zero_le _)
  have hgoing := run_going_of_le hn (Nat.le_succ n)
  rw [run_succ_of_going hgoing] at hn ⊢
  obtain ⟨-, emitted, hd⟩ := Machine.dispatch_of_turn hn
  by_cases hjump : (p.run c n).machine.WantsJump
  · obtain ⟨t, ht, hpos, hip⟩ := hd.ip_of_jump hjump
    refine Or.inr ⟨t, ⟨n, Nat.lt_succ_self n, ⟨hgoing, hjump, hn⟩, ht, fun k hk hk' => ?_⟩, ?_⟩
    · exact absurd (Nat.le_of_lt_succ hk') (Nat.not_le_of_gt hk)
    · rw [Run.next, hip, Int.toNat_of_nonneg hpos]
  · have hle := hd.ip_le hjump
    rw [(runs_of_going hgoing).program] at hle
    exact Or.inl hle

/-- **The pointer fits into a word**, all through a run and after it. -/
theorem ip_run_le (hsize : p.size ≤ Exec.maxAddress) (c : Config) (n : Nat) :
    (p.run c n).machine.ip ≤ Exec.maxAddress := by
  induction n with
  | zero =>
    rcases Nat.eq_zero_or_pos c.frameCapacity with hc | hc
    · rw [run_zero_of_no_room hc]
      exact Nat.zero_le _
    · rw [run_zero_of_room hc]
      exact Nat.zero_le _
  | succ n ih =>
    rcases (p.run c n).going_or_ended with hn | hn
    · have hruns := runs_of_going hn
      rw [run_succ_of_going hn, Run.next]
      cases hs : Exec.step (p.run c n).machine with
      | ok event m =>
        have hd := (Exec.dispatch_of_step hs).2
        rw [Machine.turn_of_step_ok hs]
        by_cases hjump : (p.run c n).machine.WantsJump
        · obtain ⟨t, -, -, hip⟩ := hd.ip_of_jump hjump
          exact hip ▸ toNat_le_maxAddress t
        · have hle := hd.ip_le hjump
          rw [hruns.program] at hle
          exact Nat.le_trans hle hsize
      | error e m =>
        obtain ⟨fetched, popped, hf, hleft⟩ := Exec.fault_of_step hruns.frames_ne_nil hs
        rw [Machine.turn_of_step_error hs]
        change m.ip ≤ Exec.maxAddress
        rw [hleft.ip]
        rcases hf.ip_le with rfl | hle
        · exact ih
        · rw [hruns.program] at hle
          exact Nat.le_trans hle hsize
    · rw [run_of_ended hn (Nat.le_succ n)]
      exact ih

/-- **The ways for a run of the program to end in an invalid pointer `x`**, by one of its turns. -/
inductive PointerFault (p : Program) (c : Config) (u : Run) (x : Int) : Prop
  /-- The turn has taken a negative target off the stack, and the pointer is behind the opcode of
  the jump. -/
  | negative {j : Nat} {t : Word} (hgoing : (p.run c j).result = none) (hlast : u = p.run c (j + 1))
    (hjump : (p.run c j).machine.JumpsTo t) (ht : t.toInt = x) (hneg : x < 0)
    (hip : u.machine.ip = (p.run c j).machine.ip + 1)
  /-- The run has got to the end of the program, and finds no opcode there. -/
  | noOpcode {j : Nat} (hgoing : (p.run c j).result = none) (hlast : u = p.run c (j + 1))
    (hend : (p.run c j).machine.ip = p.size) (hx : x = p.size) (hip : (u.machine.ip : Int) = x)
  /-- The last word of the program wants an immediate. -/
  | noImmediate {j : Nat} {i : Instruction} (hgoing : (p.run c j).result = none)
    (hlast : u = p.run c (j + 1)) (hi : (p.run c j).machine.At i) (hone : i.immediates = 1)
    (hend : (p.run c j).machine.ip + 1 = p.size) (hx : x = p.size)
    (hip : (u.machine.ip : Int) = x)
  /-- The last jump has led out of the program. -/
  | jumped {j : Nat} {t : Word} (hgoing : (p.run c j).result = none) (hlast : u = p.run c (j + 1))
    (hjump : p.LastJump c j t) (ht : t.toInt = x) (hx : (p.size : Int) ≤ x)
    (hip : (u.machine.ip : Int) = x)

/-- **The instruction pointer is exact** in the runs of a program. -/
structure PointerExact (p : Program) (c : Config) : Prop where
  /-- It fits into a word at every moment. -/
  fits : ∀ n, (p.run c n).machine.ip ≤ Exec.maxAddress
  /-- So does every address that is fetched from, which is therefore shown as it is, and there is
  an address behind every word. -/
  fetched : ∀ a, p.Fetches c a →
    min a Exec.maxAddress = a ∧ (p.get? a ≠ none → a + 1 < UInt64.size)
  /-- A jump that does not go to a negative address goes exactly where it says. -/
  taken : ∀ n t, (p.run c n).result = none → (p.run c n).machine.WithinBudget →
    (p.run c n).machine.JumpsTo t → 0 ≤ t.toInt →
      (p.run c (n + 1)).result = none ∧ ((p.run c (n + 1)).machine.ip : Int) = t.toInt
  /-- A run that ends in an invalid pointer does so in one of these ways. -/
  ends : ∀ u x, p.Ends c u → u.result = some (.error (.invalidPointer x)) →
    p.PointerFault c u x

/-- Every address that a run fetches from fits into a word. -/
theorem le_maxAddress_of_fetches (hsize : p.size ≤ Exec.maxAddress) (h : p.Fetches c a) :
    a ≤ Exec.maxAddress := by
  obtain ⟨j, hj, -, rfl | ⟨i, hi, -, rfl⟩⟩ := h
  · exact ip_run_le hsize c j
  · have hlt := lt_size_of_get? hi
    rw [(runs_of_going hj).program] at hlt
    exact Nat.le_trans hlt hsize

/-- A jump that a run takes goes exactly where it says. -/
theorem ip_of_jumpsTo (hn : (p.run c n).result = none)
    (hbudget : (p.run c n).machine.WithinBudget) (h : (p.run c n).machine.JumpsTo t)
    (ht : 0 ≤ t.toInt) :
    (p.run c (n + 1)).result = none ∧ ((p.run c (n + 1)).machine.ip : Int) = t.toInt := by
  obtain ⟨event, m, hstep, hip, hstatus⟩ := Machine.exists_step_of_jumpsTo hbudget h ht
  rw [run_succ_of_going hn, Run.next, Machine.turn_of_step_ok hstep]
  refine ⟨if_pos (hstatus.trans (running_of_going hn)), ?_⟩
  rw [hip, Int.toNat_of_nonneg ht]

/-- **A run that ends in an invalid pointer** does so in one of these ways, and names the pointer
exactly. -/
theorem pointerFault_of_ends {x : Int} (hsize : p.size ≤ Exec.maxAddress) (hend : p.Ends c u)
    (hx : u.result = some (.error (.invalidPointer x))) : p.PointerFault c u x := by
  obtain ⟨-, n, rfl⟩ := hend
  have hc : 0 < c.frameCapacity := by
    refine Nat.pos_of_ne_zero fun hzero => ?_
    rw [run_of_ended ((ended_run_zero_iff p c).mpr hzero) (Nat.zero_le n),
      run_zero_of_no_room hzero] at hx
    cases hx
  obtain ⟨j, hj, hlast, fetched, popped, hf, hleft⟩ := exists_fault hc hx
  have hprogram := (runs_of_going hj).program
  have hip := hleft.ip
  cases hf with
  | noOpcode hw =>
    rw [hprogram] at hw
    have hle := get?_eq_none_iff.mp hw
    have hmin := Nat.min_eq_left (ip_run_le hsize c j)
    rw [hmin]
    rcases ip_of_going hj with hge | ⟨t, hjump, ht⟩
    · have heq := Nat.le_antisymm hge hle
      exact .noOpcode hj hlast heq (congrArg _ heq) (congrArg _ hip)
    · exact .jumped hj hlast hjump ht.symm (Int.ofNat_le.mpr hle) (congrArg _ hip)
  | @noImmediate i hw hi hv =>
    have hlt := lt_size_of_get? hw
    rw [hprogram] at hv hlt
    have heq := Nat.le_antisymm hlt (get?_eq_none_iff.mp hv)
    have hmin : min ((p.run c j).machine.ip + 1) Exec.maxAddress = (p.run c j).machine.ip + 1 :=
      Nat.min_eq_left (Nat.le_trans hlt hsize)
    rw [hmin]
    exact .noImmediate hj hlast hw hi heq (congrArg _ heq) (congrArg _ hip)
  | jump hw hs ht => exact .negative hj hlast (Or.inl ⟨hw, _, hs⟩) rfl ht hip
  | jumpIf hw hs hb ht => exact .negative hj hlast (Or.inr ⟨hw, _, _, hs, hb⟩) rfl ht hip

/-- **The instruction pointer is exact** in every run of a program of at most `2 ^ 60` words. -/
theorem pointerExact (c : Config) (hsize : p.size ≤ 0x1000000000000000) : p.PointerExact c := by
  have hsize' : p.size ≤ Exec.maxAddress := Nat.le_trans hsize (by decide)
  refine ⟨ip_run_le hsize' c, fun a ha => ⟨?_, fun hw => ?_⟩, fun n t hn hb ht => ?_,
    fun u x => pointerFault_of_ends hsize'⟩
  · exact Nat.min_eq_left (le_maxAddress_of_fetches hsize' ha)
  · have hlt : a < p.size := Nat.lt_of_not_le fun hle => hw (get?_eq_none_iff.mpr hle)
    exact Nat.lt_of_le_of_lt (Nat.le_trans hlt hsize) (by decide)
  · exact ip_of_jumpsTo hn hb ht

/-- A jump to the largest address that a word can hold: the pointer gets there, and the fault shows
it. -/
theorem pointerExact_largest_target :
    let p := ofList [Instruction.push.opcode, Int64.maxValue, Instruction.jump.opcode]
    p.size ≤ 0x1000000000000000 ∧ p.PointerExact {} ∧
      (p.run {} 3).result = some (.error (.invalidPointer 0x7FFFFFFFFFFFFFFF)) ∧
      (p.run {} 3).machine.ip = 0x7FFFFFFFFFFFFFFF := by
  intro p
  have hsize : p.size ≤ 0x1000000000000000 := by
    unfold p
    decide
  refine ⟨hsize, pointerExact {} hsize, ?_, ?_⟩
  · unfold p
    rfl
  · unfold p
    rfl

end Program

end StackMachine
