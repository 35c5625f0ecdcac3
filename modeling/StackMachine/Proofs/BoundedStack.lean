import StackMachine.BoundedStack

/-!
# Bounded stacks as lists

A bounded stack is determined by two things: the list of its items, from the bottom
to the top, and its capacity. Everything a program can tell about a stack is said
in these terms, so the operations are settled here once, each as an equivalence
between its success and what the list looks like, and the representation, with the
top item first, is not looked at again.

* `StackMachine.BoundedStack.withItems` – the stack with the same ceiling and other
  items; it is the normal form in which the results of the operations are written;
* `StackMachine.BoundedStack.push_eq_ok_iff`, `StackMachine.BoundedStack.pop_eq_ok_iff`,
  `StackMachine.BoundedStack.peek_eq_ok_iff`,
  `StackMachine.BoundedStack.replaceTop_eq_ok_iff` – when an operation succeeds, and
  with what;
* `StackMachine.BoundedStack.push_eq_error_iff`,
  `StackMachine.BoundedStack.pop_eq_error_iff`,
  `StackMachine.BoundedStack.peek_eq_error_iff` – when it fails, and why: a push on a
  full stack, and everything else on an empty one.
-/

namespace StackMachine

namespace BoundedStack

variable {α : Type} {s t : BoundedStack α} {a b : α} {l l' : List α}

/-! ### The list of a stack -/

/-- **A stack is its list and its capacity**: nothing else distinguishes two of
them. -/
theorem ext_toList (hl : s.toList = t.toList) (hc : s.capacity = t.capacity) : s = t := by
  obtain ⟨items, capacity, hle⟩ := s
  obtain ⟨items', capacity', hle'⟩ := t
  obtain rfl : items = items' := List.reverse_inj.mp hl
  obtain rfl : capacity = capacity' := hc
  rfl

theorem length_toList (s : BoundedStack α) : s.toList.length = s.length :=
  List.length_reverse

/-- A stack never holds more than its capacity. -/
theorem length_le_capacity (s : BoundedStack α) : s.toList.length ≤ s.capacity := by
  rw [length_toList]
  exact s.length_le

theorem toList_eq_append_singleton :
    s.toList = l ++ [a] ↔ s.items = a :: l.reverse := by
  rw [toList, List.reverse_eq_iff, List.reverse_append]
  rfl

/-- The stack with the same ceiling that holds the given items, from the bottom to
the top. A ceiling that they do not fit under is raised to them. -/
def withItems (s : BoundedStack α) (l : List α) : BoundedStack α where
  items := l.reverse
  capacity := max l.length s.capacity
  length_le := by
    rw [List.length_reverse]
    exact Nat.le_max_left _ _

@[simp] theorem toList_withItems (s : BoundedStack α) (l : List α) :
    (s.withItems l).toList = l :=
  List.reverse_reverse l

/-- Exchanging the items keeps the ceiling, unless there are too many of them. -/
theorem capacity_withItems (h : l.length ≤ s.capacity) :
    (s.withItems l).capacity = s.capacity :=
  Nat.max_eq_right h

/-- A stack with the given items, and with the ceiling of another one, is the other one with these
items. -/
theorem eq_withItems (hl : t.toList = l) (hc : t.capacity = s.capacity) : t = s.withItems l := by
  have hle : l.length ≤ s.capacity := by
    rw [← hl, ← hc]
    exact t.length_le_capacity
  exact ext_toList (hl.trans (toList_withItems s l).symm) (hc.trans (capacity_withItems hle).symm)

theorem withItems_withItems (h : l.length ≤ s.capacity) :
    (s.withItems l).withItems l' = s.withItems l' :=
  ext_toList rfl (congrArg (max l'.length) (capacity_withItems h))

@[simp] theorem withItems_toList (s : BoundedStack α) : s.withItems s.toList = s :=
  ext_toList (toList_withItems s _) (capacity_withItems (length_le_capacity s))

/-! ### When the operations succeed -/

/-- **A push succeeds exactly below the ceiling**, and adds the item on top. -/
theorem push_eq_ok_iff :
    s.push a = .ok t ↔ s.toList.length < s.capacity ∧ t = s.withItems (s.toList ++ [a]) := by
  rw [length_toList, push]
  split
  case isTrue h => exact ⟨nofun, fun ht => absurd ht.1 (Nat.not_lt_of_le h)⟩
  case isFalse h =>
    have hpushed : ⟨a :: s.items, s.capacity, Nat.lt_of_not_le h⟩ =
        s.withItems (s.toList ++ [a]) :=
      eq_withItems List.reverse_cons rfl
    rw [hpushed, Except.ok.injEq, eq_comm]
    exact (and_iff_right (Nat.lt_of_not_le h)).symm

/-- **A pop succeeds exactly on a stack that is not empty**, and takes the last item
of the list. -/
theorem pop_eq_ok_iff :
    s.pop = .ok (a, t) ↔ ∃ l, s.toList = l ++ [a] ∧ t = s.withItems l := by
  simp only [toList_eq_append_singleton]
  obtain ⟨items, capacity, hle⟩ := s
  cases items with
  | nil => simp [pop]
  | cons b rest =>
    constructor
    · intro h
      cases h
      exact ⟨rest.reverse, by simp, eq_withItems rfl rfl⟩
    · rintro ⟨l, hl, rfl⟩
      obtain ⟨rfl, rfl⟩ := List.cons.inj hl
      exact congrArg (fun t => Except.ok (b, t)) (eq_withItems (List.reverse_reverse l) rfl)

/-- A look at the top succeeds exactly on a stack that is not empty. -/
theorem peek_eq_ok_iff : s.peek = .ok a ↔ ∃ l, s.toList = l ++ [a] := by
  simp only [toList_eq_append_singleton, peek]
  cases s.items with
  | nil => simp
  | cons b rest =>
    constructor
    · intro h
      cases h
      exact ⟨rest.reverse, by simp⟩
    · rintro ⟨l, hl⟩
      cases hl
      rfl

/-- Exchanging the top item succeeds exactly on a stack that is not empty. -/
theorem replaceTop_eq_ok_iff :
    s.replaceTop b = .ok (a, t) ↔ ∃ l, s.toList = l ++ [a] ∧ t = s.withItems (l ++ [b]) := by
  simp only [toList_eq_append_singleton]
  obtain ⟨items, capacity, hle⟩ := s
  cases items with
  | nil => simp [replaceTop]
  | cons c rest =>
    constructor
    · intro h
      cases h
      exact ⟨rest.reverse, by simp, eq_withItems List.reverse_cons rfl⟩
    · rintro ⟨l, hl, rfl⟩
      obtain ⟨rfl, rfl⟩ := List.cons.inj hl
      refine congrArg (fun t => Except.ok (c, t)) (eq_withItems ?_ rfl)
      rw [toList, List.reverse_cons, List.reverse_reverse]

/-! ### The ceiling stays

No operation that succeeds changes the capacity. -/

theorem capacity_of_push (h : s.push a = .ok t) : t.capacity = s.capacity := by
  rw [push] at h
  split at h
  · cases h
  · cases h
    rfl

theorem capacity_of_pop (h : s.pop = .ok (a, t)) : t.capacity = s.capacity := by
  obtain ⟨items, capacity, hle⟩ := s
  cases items with
  | nil => cases h
  | cons b rest =>
    cases h
    rfl

theorem capacity_of_replaceTop (h : s.replaceTop b = .ok (a, t)) : t.capacity = s.capacity := by
  obtain ⟨items, capacity, hle⟩ := s
  cases items with
  | nil => cases h
  | cons c rest =>
    cases h
    rfl

/-! ### When the operations fail -/

variable {e : StackError}

theorem toList_eq_nil : s.toList = [] ↔ s.items = [] :=
  List.reverse_eq_nil_iff

/-- **A push fails exactly on a full stack**, and tells how much the stack holds. -/
theorem push_eq_error_iff :
    s.push a = .error e ↔ s.toList.length = s.capacity ∧ e = .overflow s.capacity := by
  have hle := s.length_le_capacity
  rw [length_toList] at hle ⊢
  rw [push]
  split
  case isTrue h =>
    rw [Except.error.injEq, eq_comm]
    exact (and_iff_right (Nat.le_antisymm hle h)).symm
  case isFalse h => exact ⟨nofun, fun he => absurd (Nat.le_of_eq he.1.symm) h⟩

/-- **A pop fails exactly on an empty stack.** -/
theorem pop_eq_error_iff : s.pop = .error e ↔ s.toList = [] ∧ e = .underflow := by
  rw [toList_eq_nil]
  obtain ⟨items, capacity, hle⟩ := s
  cases items with
  | nil => simp [pop, eq_comm]
  | cons b rest => simp [pop]

/-- A look at the top fails exactly on an empty stack. -/
theorem peek_eq_error_iff : s.peek = .error e ↔ s.toList = [] ∧ e = .underflow := by
  rw [toList_eq_nil, peek]
  cases s.items with
  | nil => simp [eq_comm]
  | cons b rest => simp

end BoundedStack

end StackMachine
