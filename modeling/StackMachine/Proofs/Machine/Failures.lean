import StackMachine.Proofs.Machine.Actions

/-!
# When actions fail

A sequence of actions fails where the first of its parts does, and leaves the machine
as it was at that part: what the parts before it did is not undone. A primitive action
that fails leaves the machine as it found it, so all there is to know about its failure
is when it happens and which fault it raises.

The one composite action settled here is that on two operands,
`StackMachine.Exec.of_binary_eq_error`: it fails for want of one operand or of both, or
because its operands have no value, but never for want of room.
-/

namespace StackMachine

namespace Exec

variable {α β : Type} {m m' : Machine} {e : Error} {v w : Word}

/-! ### Actions in sequence -/

/-- **A sequence of actions fails exactly when one of them does** after all those before
it have succeeded. -/
theorem bind_eq_error_iff {x : Exec α} {f : α → Exec β} :
    (x >>= f) m = .error e m' ↔
      x m = .error e m' ∨ ∃ a n, x m = .ok a n ∧ f a n = .error e m' := by
  change EStateM.bind x f m = .error e m' ↔ _
  unfold EStateM.bind
  cases x m with
  | error e n => simp
  | ok a n =>
    constructor
    · exact fun h => Or.inr ⟨a, n, rfl, h⟩
    · rintro (h | ⟨_, _, hx, h⟩)
      · cases h
      · cases hx
        exact h

theorem bind_of_error {x : Exec α} {f : α → Exec β} (h : x m = .error e m') :
    (x >>= f) m = .error e m' :=
  bind_eq_error_iff.mpr (Or.inl h)

theorem bind_of_ok {x : Exec α} {f : α → Exec β} {a : α} {n : Machine} (hx : x m = .ok a n)
    (h : f a n = .error e m') : (x >>= f) m = .error e m' :=
  bind_eq_error_iff.mpr (Or.inr ⟨a, n, hx, h⟩)

theorem pure_ne_error {a : α} : (pure a : Exec α) m ≠ .error e m' := by
  rintro ⟨⟩

/-- What is done with the value of an action last does not fail. -/
theorem bind_pure_eq_error_iff {x : Exec α} {g : α → β} :
    (x >>= fun a => pure (g a)) m = .error e m' ↔ x m = .error e m' := by
  rw [bind_eq_error_iff]
  constructor
  · rintro (h | ⟨_, _, -, h⟩)
    · exact h
    · exact absurd h pure_ne_error
  · exact Or.inl

theorem get_ne_error : (get : Exec Machine) m ≠ .error e m' := by
  rintro ⟨⟩

theorem modify_ne_error {f : Machine → Machine} : (modify f : Exec Unit) m ≠ .error e m' := by
  rintro ⟨⟩

theorem throw_eq_error_iff {e' : Error} :
    (throw e' : Exec α) m = .error e m' ↔ e = e' ∧ m' = m := by
  change EStateM.Result.error e' m = .error e m' ↔ _
  simp [eq_comm]

/-! ### Fetching and jumping -/

/-- A fetch fails exactly where the program has no word, and names the place. -/
theorem fetch_eq_error_iff :
    fetch m = .error e m' ↔ m.program.get? m.ip = none ∧
      e = .invalidPointer (min m.ip maxAddress : Nat) ∧ m' = m := by
  unfold fetch
  cases m.program.get? m.ip with
  | none => simp [eq_comm]
  | some w => simp

/-- A jump fails exactly when its target is negative, and names the target. -/
theorem jump_eq_error_iff :
    jump w m = .error e m' ↔ w.toInt < 0 ∧ e = .invalidPointer w.toInt ∧ m' = m := by
  have hneg : w < 0 ↔ w.toInt < 0 := by
    rw [Int64.lt_iff_toInt_lt, Int64.toInt_zero]
  unfold jump
  by_cases hw : w.toInt < 0
  · simp [hneg, hw, eq_comm]
  · simp [hneg, hw]

/-! ### The operand stack -/

theorem push_eq_error_iff :
    push w m = .error e m' ↔ m.stack.toList.length = m.stack.capacity ∧
      e = .stackOverflow m.origin m.stack.capacity ∧ m' = m := by
  unfold push
  constructor
  · intro h
    cases hp : m.stack.push w with
    | ok s => simp [hp] at h
    | error failure =>
      obtain ⟨hfull, rfl⟩ := BoundedStack.push_eq_error_iff.mp hp
      simp only [hp, EStateM.Result.error.injEq] at h
      exact ⟨hfull, h.1.symm, h.2.symm⟩
  · rintro ⟨hfull, rfl, rfl⟩
    rw [BoundedStack.push_eq_error_iff.mpr ⟨hfull, rfl⟩]
    rfl

theorem pop_eq_error_iff :
    pop m = .error e m' ↔ m.stack.toList = [] ∧ e = .stackUnderflow m.origin ∧ m' = m := by
  unfold pop
  constructor
  · intro h
    cases hp : m.stack.pop with
    | ok r => simp [hp] at h
    | error failure =>
      obtain ⟨hempty, rfl⟩ := BoundedStack.pop_eq_error_iff.mp hp
      simp only [hp, EStateM.Result.error.injEq] at h
      exact ⟨hempty, h.1.symm, h.2.symm⟩
  · rintro ⟨hempty, rfl, rfl⟩
    rw [BoundedStack.pop_eq_error_iff.mpr ⟨hempty, rfl⟩]
    rfl

theorem peek_eq_error_iff :
    peek m = .error e m' ↔ m.stack.toList = [] ∧ e = .stackUnderflow m.origin ∧ m' = m := by
  unfold peek
  constructor
  · intro h
    cases hp : m.stack.peek with
    | ok r => simp [hp] at h
    | error failure =>
      obtain ⟨hempty, rfl⟩ := BoundedStack.peek_eq_error_iff.mp hp
      simp only [hp, EStateM.Result.error.injEq] at h
      exact ⟨hempty, h.1.symm, h.2.symm⟩
  · rintro ⟨hempty, rfl, rfl⟩
    rw [BoundedStack.peek_eq_error_iff.mpr ⟨hempty, rfl⟩]
    rfl

/-- **What takes the place of operands never overflows**: there is room for it, since
something came off the stack before. -/
theorem push_setOperands_ne_error {l r : List Word} (hr : r ≠ []) (hl : m.stack.toList = l ++ r) :
    push w (m.setOperands l) ≠ .error e m' := by
  intro h
  have hok := (push_setOperands_eq_ok_iff (w := w) (u := ()) hr hl).mpr rfl
  rw [h] at hok
  cases hok

/-- **How an action on two operands fails**: with the stack empty, with one operand on
it, which is then gone, or with two that have no value, which are then gone as well. -/
theorem of_binary_eq_error {f : Nat → Word → Word → Except Error Word}
    (h : binary f m = .error e m') :
    (m.stack.toList = [] ∧ e = .stackUnderflow m.origin ∧ m' = m) ∨
      (∃ b, m.stack.toList = [b] ∧ e = .stackUnderflow m.origin ∧ m' = m.setOperands []) ∨
      ∃ l a b, m.stack.toList = l ++ [a, b] ∧ f m.origin a b = .error e ∧
        m' = m.setOperands l := by
  unfold binary at h
  rcases bind_eq_error_iff.mp h with h | ⟨b, _, hb, h⟩
  · exact Or.inl (pop_eq_error_iff.mp h)
  obtain ⟨s, hs, rfl⟩ := pop_eq_ok_iff.mp hb
  rcases bind_eq_error_iff.mp h with h | ⟨a, _, ha, h⟩
  · obtain ⟨hempty, rfl, rfl⟩ := pop_eq_error_iff.mp h
    obtain rfl : s = [] := (BoundedStack.toList_withItems _ _).symm.trans hempty
    exact Or.inr (Or.inl ⟨b, hs, rfl, rfl⟩)
  obtain ⟨l, hl, rfl⟩ := pop_eq_ok_iff.mp ha
  obtain rfl : s = l ++ [a] := (BoundedStack.toList_withItems _ _).symm.trans hl
  rw [Machine.setOperands_setOperands (length_le_of_append hs)] at h
  have hs' : m.stack.toList = l ++ [a, b] := hs.trans (List.append_assoc l [a] [b])
  rcases bind_eq_error_iff.mp h with h | ⟨_, _, hget, h⟩
  · exact absurd h get_ne_error
  obtain ⟨rfl, rfl⟩ := get_eq_ok_iff.mp hget
  cases hf : f m.origin a b with
  | ok c =>
    simp only [Machine.setOperands_origin, hf] at h
    exact absurd h (push_setOperands_ne_error (List.cons_ne_nil a [b]) hs')
  | error e' =>
    simp only [Machine.setOperands_origin, hf] at h
    obtain ⟨rfl, rfl⟩ := throw_eq_error_iff.mp h
    exact Or.inr (Or.inr ⟨l, a, b, hs', hf, rfl⟩)

/-- Two operands without a value make an action on them fail. -/
theorem binary_of_error {f : Nat → Word → Word → Except Error Word} {l : List Word} {a b : Word}
    (hs : m.stack.toList = l ++ [a, b]) (hf : f m.origin a b = .error e) :
    binary f m = .error e (m.setOperands l) := by
  have hs' : m.stack.toList = (l ++ [a]) ++ [b] := hs.trans (List.append_assoc l [a] [b]).symm
  refine bind_of_ok (pop_eq_ok_iff.mpr ⟨_, hs', rfl⟩) ?_
  refine bind_of_ok (pop_eq_ok_iff.mpr ⟨l, BoundedStack.toList_withItems _ _, rfl⟩) ?_
  rw [Machine.setOperands_setOperands (length_le_of_append hs')]
  refine bind_of_ok (get_eq_ok_iff.mpr ⟨rfl, rfl⟩) ?_
  simp only [Machine.setOperands_origin, hf]
  exact throw_eq_error_iff.mpr ⟨rfl, rfl⟩

/-- One operand makes an action on two of them fail once it is popped. -/
theorem pop_pop_of_singleton {f : Word → Word → Exec β} {b : Word} (hs : m.stack.toList = [b]) :
    (do let b ← pop; let a ← pop; f a b) m =
      .error (.stackUnderflow m.origin) (m.setOperands []) := by
  refine bind_of_ok (pop_eq_ok_iff.mpr ⟨[], hs, rfl⟩) (bind_of_error ?_)
  exact pop_eq_error_iff.mpr ⟨BoundedStack.toList_withItems _ _, rfl, rfl⟩

/-! ### The current frame -/

theorem load_eq_error_iff :
    load v m = .error e m' ↔ m.frames.toList = [] ∧ e = .stackUnderflow m.origin ∧ m' = m := by
  unfold load
  constructor
  · intro h
    cases hp : m.frames.peek with
    | ok f => simp [hp] at h
    | error failure =>
      obtain ⟨hempty, rfl⟩ := BoundedStack.peek_eq_error_iff.mp hp
      simp only [hp, EStateM.Result.error.injEq] at h
      exact ⟨hempty, h.1.symm, h.2.symm⟩
  · rintro ⟨hempty, rfl, rfl⟩
    rw [BoundedStack.peek_eq_error_iff.mpr ⟨hempty, rfl⟩]
    rfl

theorem store_eq_error_iff :
    store v w m = .error e m' ↔ m.frames.toList = [] ∧ e = .stackUnderflow m.origin ∧ m' = m := by
  unfold store
  constructor
  · intro h
    cases hp : m.frames.peek with
    | ok f =>
      obtain ⟨fs, hfs⟩ := BoundedStack.peek_eq_ok_iff.mp hp
      simp [hp, BoundedStack.replaceTop_eq_ok_iff.mpr ⟨fs, hfs, rfl⟩] at h
    | error failure =>
      obtain ⟨hempty, rfl⟩ := BoundedStack.peek_eq_error_iff.mp hp
      simp only [hp, EStateM.Result.error.injEq] at h
      exact ⟨hempty, h.1.symm, h.2.symm⟩
  · rintro ⟨hempty, rfl, rfl⟩
    rw [BoundedStack.peek_eq_error_iff.mpr ⟨hempty, rfl⟩]
    rfl

/-- Reading a variable never fails while there is a frame. -/
theorem load_ne_error (hframe : m.frames.toList ≠ []) : load v m ≠ .error e m' :=
  fun h => hframe (load_eq_error_iff.mp h).1

/-- Storing a variable never fails while there is a frame. -/
theorem store_ne_error (hframe : m.frames.toList ≠ []) : store v w m ≠ .error e m' :=
  fun h => hframe (store_eq_error_iff.mp h).1

end Exec

end StackMachine
