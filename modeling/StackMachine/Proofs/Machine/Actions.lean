import Mathlib.Tactic.Simps.Basic
import StackMachine.Machine.Step
import StackMachine.Proofs.BoundedStack

/-!
# When actions succeed

An action on a machine succeeds exactly when each of its parts does, one after the
other. For the primitive actions this is a fact about the machine they start from,
and the machine they leave is an **update** of it: another instruction pointer,
other operands, or other frames. The stacks appear here as their lists, from the
bottom to the top, and never in their representation.
-/

namespace StackMachine

/-! ### Updates of a machine -/

namespace Machine

/-- The machine with another address to fetch from. -/
@[simps] def setIp (m : Machine) (ip : Nat) : Machine := { m with ip := ip }

/-- The machine with other operands, from the bottom to the top. -/
@[simps] def setOperands (m : Machine) (l : List Word) : Machine :=
  { m with stack := m.stack.withItems l }

/-- The machine with other call frames, the current one last. -/
@[simps] def setFrames (m : Machine) (fs : List Frame) : Machine :=
  { m with frames := m.frames.withItems fs }

theorem setOperands_setOperands {m : Machine} {l l' : List Word}
    (h : l.length ≤ m.stack.capacity) : (m.setOperands l).setOperands l' = m.setOperands l' := by
  simp only [setOperands, BoundedStack.withItems_withItems h]

end Machine

namespace Exec

variable {α β : Type} {m m' : Machine} {v w : Word}

/-! ### Actions in sequence -/

/-- **A sequence of actions succeeds exactly when all of them do**, each from where
the one before it left the machine. -/
theorem bind_eq_ok_iff {x : Exec α} {f : α → Exec β} {b : β} :
    (x >>= f) m = .ok b m' ↔ ∃ a n, x m = .ok a n ∧ f a n = .ok b m' := by
  change EStateM.bind x f m = .ok b m' ↔ _
  unfold EStateM.bind
  cases x m with
  | error e n => simp
  | ok a n =>
    constructor
    · exact fun h => ⟨a, n, rfl, h⟩
    · rintro ⟨_, _, hx, h⟩
      cases hx
      exact h

theorem pure_eq_ok_iff {a b : α} : (pure a : Exec α) m = .ok b m' ↔ b = a ∧ m' = m := by
  change EStateM.Result.ok a m = .ok b m' ↔ _
  simp [eq_comm]

theorem get_eq_ok_iff {n : Machine} : (get : Exec Machine) m = .ok n m' ↔ n = m ∧ m' = m :=
  pure_eq_ok_iff (m := m)

theorem modify_eq_ok_iff {f : Machine → Machine} {u : Unit} :
    (modify f : Exec Unit) m = .ok u m' ↔ m' = f m := by
  change EStateM.Result.ok () (f m) = .ok u m' ↔ _
  simp [eq_comm]

/-! ### Fetching and jumping -/

theorem fetch_eq_ok_iff :
    fetch m = .ok w m' ↔ m.program.get? m.ip = some w ∧ m' = m.setIp (m.ip + 1) := by
  unfold fetch Machine.setIp
  cases m.program.get? m.ip with
  | none => simp
  | some v => simp [eq_comm]

/-- A jump succeeds exactly when its target is not negative. -/
theorem jump_eq_ok_iff {u : Unit} :
    jump w m = .ok u m' ↔ 0 ≤ w.toInt ∧ m' = m.setIp w.toInt.toNat := by
  have hneg : w < 0 ↔ ¬0 ≤ w.toInt := by
    rw [Int64.lt_iff_toInt_lt, Int64.toInt_zero, Int.not_le]
  unfold jump Machine.setIp
  by_cases hw : 0 ≤ w.toInt
  · simp [hneg, hw, eq_comm]
  · simp [hneg, hw]

/-! ### The operand stack -/

theorem push_eq_ok_iff {u : Unit} :
    push w m = .ok u m' ↔ m.stack.toList.length < m.stack.capacity ∧
      m' = m.setOperands (m.stack.toList ++ [w]) := by
  unfold push
  constructor
  · intro h
    cases hp : m.stack.push w with
    | error e => simp [hp] at h
    | ok s =>
      obtain ⟨hroom, rfl⟩ := BoundedStack.push_eq_ok_iff.mp hp
      simp only [hp, EStateM.Result.ok.injEq] at h
      exact ⟨hroom, h.2.symm⟩
  · rintro ⟨hroom, rfl⟩
    rw [BoundedStack.push_eq_ok_iff.mpr ⟨hroom, rfl⟩]
    rfl

theorem pop_eq_ok_iff :
    pop m = .ok w m' ↔ ∃ l, m.stack.toList = l ++ [w] ∧ m' = m.setOperands l := by
  unfold pop
  constructor
  · intro h
    cases hp : m.stack.pop with
    | error e => simp [hp] at h
    | ok r =>
      obtain ⟨v, s⟩ := r
      obtain ⟨l, hl, rfl⟩ := BoundedStack.pop_eq_ok_iff.mp hp
      simp only [hp, EStateM.Result.ok.injEq] at h
      obtain ⟨rfl, rfl⟩ := h
      exact ⟨l, hl, rfl⟩
  · rintro ⟨l, hl, rfl⟩
    rw [BoundedStack.pop_eq_ok_iff.mpr ⟨l, hl, rfl⟩]
    rfl

theorem peek_eq_ok_iff :
    peek m = .ok w m' ↔ (∃ l, m.stack.toList = l ++ [w]) ∧ m' = m := by
  unfold peek
  constructor
  · intro h
    cases hp : m.stack.peek with
    | error e => simp [hp] at h
    | ok v =>
      simp only [hp, EStateM.Result.ok.injEq] at h
      obtain ⟨rfl, rfl⟩ := h
      exact ⟨BoundedStack.peek_eq_ok_iff.mp hp, rfl⟩
  · rintro ⟨hl, rfl⟩
    rw [BoundedStack.peek_eq_ok_iff.mpr hl]

/-- The operands below some others are no more than the stack can hold. -/
theorem length_le_of_append {l r : List Word} (hl : m.stack.toList = l ++ r) :
    l.length ≤ m.stack.capacity := by
  have hle := m.stack.length_le_capacity
  rw [hl, List.length_append] at hle
  omega

/-- A value takes the place of the operands above `l`: there is always room for
it, unless nothing came off the stack before. -/
theorem push_setOperands_eq_ok_iff {l r : List Word} {u : Unit} (hr : r ≠ [])
    (hl : m.stack.toList = l ++ r) :
    push w (m.setOperands l) = .ok u m' ↔ m' = m.setOperands (l ++ [w]) := by
  have hle := m.stack.length_le_capacity
  have hpos := List.length_pos_iff.mpr hr
  rw [hl, List.length_append] at hle
  have hcap : (m.stack.withItems l).capacity = m.stack.capacity :=
    BoundedStack.capacity_withItems (length_le_of_append hl)
  have hlt : l.length < m.stack.capacity := by omega
  rw [push_eq_ok_iff, Machine.setOperands_setOperands (length_le_of_append hl)]
  simp [hcap, hlt]

/-- Two operands come off the stack, the right one first, and one value takes their
place. -/
theorem binary_eq_ok_iff {f : Nat → Word → Word → Except Error Word} {u : Unit} :
    binary f m = .ok u m' ↔ ∃ l a b c, m.stack.toList = l ++ [a, b] ∧
      f m.origin a b = .ok c ∧ m' = m.setOperands (l ++ [c]) := by
  unfold binary
  simp only [bind_eq_ok_iff, pop_eq_ok_iff, get_eq_ok_iff]
  constructor
  · rintro ⟨b, _, ⟨_, h₁, rfl⟩, a, _, ⟨l, h₂, rfl⟩, _, _, ⟨rfl, rfl⟩, h⟩
    obtain rfl : _ = l ++ [a] := (BoundedStack.toList_withItems _ _).symm.trans h₂
    have hl : m.stack.toList = l ++ [a, b] := by rw [h₁, List.append_assoc]; rfl
    rw [Machine.setOperands_setOperands (length_le_of_append h₁)] at h
    cases hf : f m.origin a b with
    | error e =>
      simp only [Machine.setOperands_origin, hf] at h
      cases h
    | ok c =>
      simp only [Machine.setOperands_origin, hf] at h
      exact ⟨l, a, b, c, hl, hf, (push_setOperands_eq_ok_iff (by simp) hl).mp h⟩
  · rintro ⟨l, a, b, c, hl, hf, rfl⟩
    have h₁ : m.stack.toList = (l ++ [a]) ++ [b] := by rw [hl, List.append_assoc]; rfl
    refine ⟨b, _, ⟨_, h₁, rfl⟩, a, _, ⟨l, by simp, rfl⟩, _, _, ⟨rfl, rfl⟩, ?_⟩
    rw [Machine.setOperands_setOperands (length_le_of_append h₁)]
    simp only [Machine.setOperands_origin, hf]
    exact (push_setOperands_eq_ok_iff (by simp) hl).mpr rfl

/-! ### The current frame -/

theorem load_eq_ok_iff :
    load v m = .ok w m' ↔ ∃ fs f, m.frames.toList = fs ++ [f] ∧ w = f.load v ∧ m' = m := by
  unfold load
  constructor
  · intro h
    cases hp : m.frames.peek with
    | error e => simp [hp] at h
    | ok f =>
      obtain ⟨fs, hfs⟩ := BoundedStack.peek_eq_ok_iff.mp hp
      simp only [hp, EStateM.Result.ok.injEq] at h
      exact ⟨fs, f, hfs, h.1.symm, h.2.symm⟩
  · rintro ⟨fs, f, hfs, rfl, rfl⟩
    rw [BoundedStack.peek_eq_ok_iff.mpr ⟨fs, hfs⟩]

theorem store_eq_ok_iff {u : Unit} :
    store v w m = .ok u m' ↔ ∃ fs f, m.frames.toList = fs ++ [f] ∧
      m' = m.setFrames (fs ++ [f.store v w]) := by
  unfold store
  constructor
  · intro h
    cases hp : m.frames.peek with
    | error e => simp [hp] at h
    | ok f =>
      obtain ⟨fs, hfs⟩ := BoundedStack.peek_eq_ok_iff.mp hp
      simp only [hp, BoundedStack.replaceTop_eq_ok_iff.mpr ⟨fs, hfs, rfl⟩,
        EStateM.Result.ok.injEq] at h
      exact ⟨fs, f, hfs, h.2.symm⟩
  · rintro ⟨fs, f, hfs, rfl⟩
    rw [BoundedStack.peek_eq_ok_iff.mpr ⟨fs, hfs⟩]
    simp only [BoundedStack.replaceTop_eq_ok_iff.mpr ⟨fs, hfs, rfl⟩]
    rfl

end Exec

end StackMachine
