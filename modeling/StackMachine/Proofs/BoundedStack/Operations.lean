import Mathlib.Data.List.Basic
import StackMachine.Proofs.BoundedStack
import StackMachine.Proofs.Pointwise

/-!
# Sequences of operations

A bounded stack that is used through its operations is a plain list with a ceiling, whatever
operations there are and in whatever order: each of them answers what it would answer on the
list, and leaves what it would leave of the list (`StackMachine.BoundedStack.agree_attempt`).
The one thing to keep is the capacity, which no operation changes. That there never are more
items is a part of every stack.

A list says what is there and not how it came to be there. The law of a stack is about the
latter: what is popped was pushed last of what is left. To say so, a history of operations is
read as a word with brackets, in which a push opens and the pop of its item closes. An item
**outlasts** a part of a history (`StackMachine.BoundedStack.Outlasts`) when everything that is
opened in this part is closed in it as well, so that the item is on top at the end as it was at
the beginning, but for what was written over it.

* `StackMachine.BoundedStack.history_eq` – the answers are those of the list;
* `StackMachine.BoundedStack.puts_of_after` – what is on top was pushed there, and has outlasted
  all that followed;
* `StackMachine.BoundedStack.actsAsList` – **a bounded stack acts as a list with a ceiling**.
-/

namespace StackMachine

namespace BoundedStack

/-! ### Operations -/

/-- An operation on a stack. -/
inductive Operation (α : Type)
  | push (a : α)
  | pop
  | peek
  /-- Looks at the top item and writes over it, perhaps what was there. -/
  | amend (f : α → α)
  /-- Goes through the items. -/
  | list

/-- What an operation answers when it succeeds. -/
inductive Answer (α : Type)
  | done
  | item (a : α)
  | items (l : List α)

variable {α : Type}

/-- **What an operation makes of a bounded stack**, and what it answers. -/
def attempt (s : BoundedStack α) : Operation α → Except StackError (Answer α × BoundedStack α)
  | .push a => do return (.done, ← s.push a)
  | .pop => do
    let (a, t) ← s.pop
    return (.item a, t)
  | .peek => do return (.item (← s.peek), s)
  | .amend f => do
    let (a, t) ← s.replaceTop (f (← s.peek))
    return (.item a, t)
  | .list => return (.items s.toList, s)

/-- **What an operation makes of a plain list with a ceiling**, whose last item is the top. -/
def onList (ceiling : Nat) (l : List α) : Operation α → Except StackError (Answer α × List α)
  | .push a => if l.length < ceiling then .ok (.done, l ++ [a]) else .error (.overflow ceiling)
  | .pop =>
    match l.getLast? with
    | some a => .ok (.item a, l.dropLast)
    | none => .error .underflow
  | .peek =>
    match l.getLast? with
    | some a => .ok (.item a, l)
    | none => .error .underflow
  | .amend f =>
    match l.getLast? with
    | some a => .ok (.item a, l.dropLast ++ [f a])
    | none => .error .underflow
  | .list => .ok (.items l, l)

/-! ### Histories

Stacks and lists are used in the same way, so what an operation does is a parameter here. -/

section Histories

variable {σ : Type} (act : σ → Operation α → Except StackError (Answer α × σ))

/-- An operation in use: when it fails, what it was tried on stays. -/
def use (s : σ) (op : Operation α) : Except StackError (Answer α) × σ :=
  match act s op with
  | .ok (r, t) => (.ok r, t)
  | .error e => (.error e, s)

/-- What some operations leave. -/
def after (s : σ) (ops : List (Operation α)) : σ := ops.foldl (fun s op => (use act s op).2) s

/-- Some operations with their answers, in order. -/
def history (s : σ) : List (Operation α) → List (Operation α × Except StackError (Answer α))
  | [] => []
  | op :: ops => (op, (use act s op).1) :: history (use act s op).2 ops

variable {act} {s t : σ} {op : Operation α}

theorem use_of_ok {r : Answer α} (h : act s op = .ok (r, t)) : use act s op = (.ok r, t) := by
  rw [use, h]

theorem use_of_error {e : StackError} (h : act s op = .error e) :
    use act s op = (.error e, s) := by
  rw [use, h]

variable (act) (s)

theorem after_append (ops ops' : List (Operation α)) :
    after act s (ops ++ ops') = after act (after act s ops) ops' :=
  List.foldl_append

theorem history_append (ops ops' : List (Operation α)) :
    history act s (ops ++ ops') = history act s ops ++ history act (after act s ops) ops' := by
  induction ops generalizing s with
  | nil => rfl
  | cons op ops ih => exact congrArg (_ :: ·) (ih _)

end Histories

/-! ### The list -/

variable {c : Nat} {a b d : α} {l l' : List α} {ops ops' : List (Operation α)}

theorem onList_push (h : l.length < c) : onList c l (.push a) = .ok (.done, l ++ [a]) :=
  if_pos h

theorem onList_push_full (h : c ≤ l.length) : onList c l (.push a) = .error (.overflow c) :=
  if_neg (Nat.not_lt_of_ge h)

theorem onList_pop (c : Nat) (l : List α) (a : α) :
    onList c (l ++ [a]) .pop = .ok (.item a, l) := by
  simp only [onList, List.getLast?_concat, List.dropLast_concat]

theorem onList_peek (c : Nat) (l : List α) (a : α) :
    onList c (l ++ [a]) .peek = .ok (.item a, l ++ [a]) := by
  simp only [onList, List.getLast?_concat]

theorem onList_amend (c : Nat) (l : List α) (a : α) (f : α → α) :
    onList c (l ++ [a]) (.amend f) = .ok (.item a, l ++ [f a]) := by
  simp only [onList, List.getLast?_concat, List.dropLast_concat]

/-! ### The stack and the list -/

/-- The stack with the list of its items, under a ceiling that is its capacity. -/
def SameItems (c : Nat) (r : Answer α × BoundedStack α) (r' : Answer α × List α) : Prop :=
  r.1 = r'.1 ∧ r.2.toList = r'.2 ∧ r.2.capacity = c

/-- **An operation answers as on the list and leaves what it leaves of the list**, and fails
as on the list. -/
theorem agree_attempt (s : BoundedStack α) (op : Operation α) :
    Except.Agree (· = ·) (SameItems s.capacity) (s.attempt op)
      (onList s.capacity s.toList op) := by
  cases op with
  | push a =>
    rw [attempt]
    cases hp : s.push a with
    | ok t =>
      obtain ⟨hroom, rfl⟩ := push_eq_ok_iff.mp hp
      rw [onList_push hroom]
      exact .ok ⟨rfl, toList_withItems _ _, capacity_of_push hp⟩
    | error e =>
      obtain ⟨hfull, rfl⟩ := push_eq_error_iff.mp hp
      rw [onList_push_full (Nat.le_of_eq hfull.symm)]
      exact .error rfl
  | pop =>
    rw [attempt]
    cases hp : s.pop with
    | ok r =>
      obtain ⟨a, t⟩ := r
      obtain ⟨l, hl, rfl⟩ := pop_eq_ok_iff.mp hp
      rw [hl, onList_pop]
      exact .ok ⟨rfl, toList_withItems _ _, capacity_of_pop hp⟩
    | error e =>
      obtain ⟨hnil, rfl⟩ := pop_eq_error_iff.mp hp
      rw [hnil]
      exact .error rfl
  | peek =>
    rw [attempt]
    cases hp : s.peek with
    | ok a =>
      obtain ⟨l, hl⟩ := peek_eq_ok_iff.mp hp
      rw [hl, onList_peek]
      exact .ok ⟨rfl, hl, rfl⟩
    | error e =>
      obtain ⟨hnil, rfl⟩ := peek_eq_error_iff.mp hp
      rw [hnil]
      exact .error rfl
  | amend f =>
    rw [attempt]
    cases hp : s.peek with
    | ok a =>
      obtain ⟨l, hl⟩ := peek_eq_ok_iff.mp hp
      have hr := replaceTop_eq_ok_iff (b := f a).mpr ⟨l, hl, rfl⟩
      rw [hl, onList_amend]
      change Except.Agree _ _ (s.replaceTop (f a) >>= _) _
      rw [hr]
      exact .ok ⟨rfl, toList_withItems _ _, capacity_of_replaceTop hr⟩
    | error e =>
      obtain ⟨hnil, rfl⟩ := peek_eq_error_iff.mp hp
      rw [hnil]
      exact .error rfl
  | list => exact .ok ⟨rfl, rfl, rfl⟩

theorem use_eq (s : BoundedStack α) (op : Operation α) :
    (use attempt s op).1 = (use (onList s.capacity) s.toList op).1 ∧
      (use attempt s op).2.toList = (use (onList s.capacity) s.toList op).2 ∧
      (use attempt s op).2.capacity = s.capacity := by
  have h := s.agree_attempt op
  unfold use
  generalize s.attempt op = x, onList s.capacity s.toList op = y at h ⊢
  cases h with
  | @ok r r' h =>
    obtain ⟨hanswer, hlist, hcapacity⟩ := h
    exact ⟨congrArg Except.ok hanswer, hlist, hcapacity⟩
  | error h => exact ⟨congrArg Except.error h, rfl, rfl⟩

/-- **So do any number of operations.** -/
theorem history_eq (s : BoundedStack α) (ops : List (Operation α)) :
    history attempt s ops = history (onList s.capacity) s.toList ops ∧
      (after attempt s ops).toList = after (onList s.capacity) s.toList ops ∧
      (after attempt s ops).capacity = s.capacity := by
  induction ops generalizing s with
  | nil => exact ⟨rfl, rfl, rfl⟩
  | cons op ops ih =>
    obtain ⟨hanswer, hlist, hcapacity⟩ := s.use_eq op
    obtain ⟨hanswers, hlists, hcapacities⟩ := ih (use attempt s op).2
    rw [hcapacity, hlist] at hanswers hlists
    rw [hcapacity] at hcapacities
    refine ⟨?_, hlists, hcapacities⟩
    rw [history, history, hanswer, hanswers]

/-! ### What is on top -/

/-- **An item outlasts a part of a history.** It is on top at the beginning as `a` and at the
end as `b`: everything that is put on it is taken off again, and what is written over it makes
`b` of `a`. -/
inductive Outlasts : α → List (Operation α × Except StackError (Answer α)) → α → Prop
  | nil {a : α} : Outlasts a [] a
  | peek {a b : α} {h : List (Operation α × Except StackError (Answer α))} :
    Outlasts a h b → Outlasts a ((.peek, .ok (.item a)) :: h) b
  | list {a b : α} {l : List α} {h : List (Operation α × Except StackError (Answer α))} :
    Outlasts a h b → Outlasts a ((.list, .ok (.items l)) :: h) b
  | amend {a b : α} {f : α → α} {h : List (Operation α × Except StackError (Answer α))} :
    Outlasts (f a) h b → Outlasts a ((.amend f, .ok (.item a)) :: h) b
  /-- What does not fit is not put on it. -/
  | full {a b d : α} {e : StackError} {h : List (Operation α × Except StackError (Answer α))} :
    Outlasts a h b → Outlasts a ((.push d, .error e) :: h) b
  /-- What is put on it outlasts the time until it is taken off. -/
  | covered {a b d e : α} {h h' : List (Operation α × Except StackError (Answer α))} :
    Outlasts d h e → Outlasts a h' b →
      Outlasts a ((.push d, .ok .done) :: (h ++ (.pop, .ok (.item e)) :: h')) b

/-- Two parts of a history, one after the other. -/
theorem Outlasts.trans {h h' : List (Operation α × Except StackError (Answer α))}
    (hab : Outlasts a h b) (hbd : Outlasts b h' d) : Outlasts a (h ++ h') d := by
  induction hab with
  | nil => exact hbd
  | peek _ ih => exact .peek (ih hbd)
  | list _ ih => exact .list (ih hbd)
  | amend _ ih => exact .amend (ih hbd)
  | full _ ih => exact .full (ih hbd)
  | covered hd _ _ ih =>
    rw [List.cons_append, List.append_assoc, List.cons_append]
    exact .covered hd (ih hbd)

/-- **The operations have put `a` on what was `s`.** One of them has pushed it there, and it has
outlasted all that follow, perhaps written over. -/
def Puts {σ : Type} (act : σ → Operation α → Except StackError (Answer α × σ)) (start : σ)
    (ops : List (Operation α)) (s : σ) (a : α) : Prop :=
  ∃ before d since, ops = before ++ .push d :: since ∧ after act start before = s ∧
    (use act s (.push d)).1 = .ok .done ∧ Outlasts d (history act (use act s (.push d)).2 since) a

/-- More operations, which the item outlasts. -/
theorem Puts.extend {σ : Type} {act : σ → Operation α → Except StackError (Answer α × σ)}
    {start s : σ} (h : Puts act start ops s a)
    (hab : Outlasts a (history act (after act start ops) ops') b) :
    Puts act start (ops ++ ops') s b := by
  obtain ⟨before, d, since, rfl, rfl, hdone, hda⟩ := h
  refine ⟨before, d, since ++ ops', List.append_assoc _ _ _, rfl, hdone, ?_⟩
  rw [history_append]
  rw [after_append] at hab
  exact hda.trans hab

/-- What leaves an item and has not pushed one has found one. -/
theorem eq_concat_of_use {op : Operation α} (hop : ∀ d, op ≠ .push d)
    (hl : (use (onList c) l' op).2 = l ++ [a]) : ∃ k d, l' = k ++ [d] := by
  obtain rfl | h := l'.eq_nil_or_concat'
  · cases op with
    | push d => exact absurd rfl (hop d)
    | pop | peek | amend f | list => exact absurd hl (List.concat_ne_nil a l).symm
  · exact h

/-- **What is on top was put there**, on what is below it. -/
theorem puts_of_after (hl : after (onList c) [] ops = l ++ [a]) :
    Puts (onList c) [] ops l a := by
  -- On the number of operations: what a pop uncovers was put there before what it takes off.
  induction hn : ops.length using Nat.strongRecOn generalizing ops l a with
  | ind n ih =>
    obtain rfl | ⟨ops, op, rfl⟩ := ops.eq_nil_or_concat'
    · exact absurd hl (List.concat_ne_nil a l).symm
    have hlt : ops.length < n := by
      rw [← hn, List.length_append]
      exact Nat.lt_succ_self _
    have hlast : (use (onList c) (after (onList c) [] ops) op).2 = l ++ [a] := by
      rw [← hl, after_append]
      rfl
    -- What is on top before the last operation has its push.
    have hbefore {l : List α} {a : α} (h : after (onList c) [] ops = l ++ [a]) :
        Puts (onList c) [] ops l a := ih ops.length hlt h rfl
    cases op with
    | push d =>
      rcases Nat.lt_or_ge (after (onList c) [] ops).length c with hroom | hfull
      · rw [use_of_ok (onList_push hroom)] at hlast
        obtain ⟨rfl, rfl⟩ := List.append_singleton_inj.mp hlast
        refine ⟨ops, d, [], rfl, rfl, ?_, .nil⟩
        rw [use_of_ok (onList_push hroom)]
      · rw [use_of_error (onList_push_full hfull)] at hlast
        refine (hbefore hlast).extend ?_
        rw [history, use_of_error (onList_push_full hfull)]
        exact .full .nil
    | list => exact (hbefore hlast).extend (.list .nil)
    | peek =>
      obtain ⟨k, d, h⟩ := eq_concat_of_use nofun hlast
      rw [h, use_of_ok (onList_peek c k d)] at hlast
      obtain ⟨rfl, rfl⟩ := List.append_singleton_inj.mp hlast
      refine (hbefore h).extend ?_
      rw [h, history, use_of_ok (onList_peek c k d)]
      exact .peek .nil
    | amend f =>
      obtain ⟨k, d, h⟩ := eq_concat_of_use nofun hlast
      rw [h, use_of_ok (onList_amend c k d f)] at hlast
      obtain ⟨rfl, rfl⟩ := List.append_singleton_inj.mp hlast
      refine (hbefore h).extend ?_
      rw [h, history, use_of_ok (onList_amend c k d f)]
      exact .amend .nil
    | pop =>
      obtain ⟨k, d, h⟩ := eq_concat_of_use nofun hlast
      rw [h, use_of_ok (onList_pop c k d)] at hlast
      obtain ⟨before, e, since, rfl, hk, hdone, hed⟩ := hbefore h
      -- The item that is uncovered was there when the one above it was pushed.
      have hshort : before.length < n := by
        rw [List.length_append] at hlt
        omega
      have hputs : Puts (onList c) [] before l a :=
        ih before.length hshort (hk.trans hlast) rfl
      have hafter : after (onList c) (use (onList c) k (.push e)).2 since = k ++ [d] := by
        rw [after_append, hk] at h
        exact h
      rw [List.append_assoc]
      refine hputs.extend ?_
      rw [hk, List.cons_append, history, hdone, history_append, hafter, history,
        use_of_ok (onList_pop c k d)]
      exact .covered hed .nil

/-! ### Fresh stacks -/

variable {s t : BoundedStack α}

/-- A fresh stack is the empty list, all through its use. -/
theorem history_empty (c : Nat) (ops : List (Operation α)) :
    history attempt (empty c) ops = history (onList c) [] ops ∧
      (after attempt (empty c) ops).toList = after (onList c) [] ops ∧
      (after attempt (empty c) ops).capacity = c := by
  exact history_eq (empty c) ops

/-- **What is popped was put there**, on the very stack that the pop leaves. -/
theorem puts_of_pop (h : (after attempt (empty c) ops).pop = .ok (a, t)) :
    Puts attempt (empty c) ops t a := by
  obtain ⟨-, hlist, hcapacity⟩ := history_empty c ops
  obtain ⟨l, hl, rfl⟩ := pop_eq_ok_iff.mp h
  obtain ⟨before, d, since, rfl, hbefore, hdone, hda⟩ := puts_of_after (hlist.symm.trans hl)
  obtain ⟨-, hlist', hcapacity'⟩ := history_empty c before
  rw [hbefore] at hlist'
  have hsame : after attempt (empty c) before =
      (after attempt (empty c) (before ++ .push d :: since)).withItems l :=
    eq_withItems hlist' (hcapacity'.trans hcapacity.symm)
  -- From there on the stack and the list answer the same.
  have hsince := (history_eq (after attempt (empty c) before) (.push d :: since)).1
  rw [hlist', hcapacity'] at hsince
  obtain ⟨hpush, hrest⟩ := List.cons.inj hsince
  rw [← hsame]
  refine ⟨before, d, since, rfl, rfl, (congrArg Prod.snd hpush).trans hdone, ?_⟩
  rw [hrest]
  exact hda

/-- A stack says that it is full when it is. -/
theorem isFull_iff (s : BoundedStack α) : s.isFull = true ↔ s.toList.length = s.capacity := by
  rw [length_toList, isFull, beq_iff_eq]

/-- A stack says that it is empty when it is. -/
theorem isEmpty_iff (s : BoundedStack α) : s.isEmpty = true ↔ s.toList = [] := by
  rw [toList_eq_nil, isEmpty, List.isEmpty_iff]

/-- An operation that fails leaves the stack as it was. -/
theorem use_of_failed {op : Operation α} {e : StackError} (h : (use attempt s op).1 = .error e) :
    (use attempt s op).2 = s := by
  cases ha : s.attempt op with
  | ok r =>
    rw [use_of_ok ha] at h
    cases h
  | error e' => rw [use_of_error ha]

/-- **A stack that some operations have made of a fresh one with a capacity acts as a plain list
with a ceiling.** -/
structure ActsAsList (c : Nat) (ops : List (Operation α)) (s : BoundedStack α) : Prop where
  /-- The operations have answered the same. -/
  answers : history attempt (empty c) ops = history (onList c) [] ops
  /-- They have left the same items, from the bottom to the top. -/
  items : s.toList = after (onList c) [] ops
  /-- The length is that of the list, and never more than the capacity. -/
  length : s.length = s.toList.length ∧ s.length ≤ c
  /-- The capacity stays. -/
  capacity : s.capacity = c
  /-- A push on a full stack fails, and names the capacity. -/
  overflow : c ≤ s.length → ∀ a, s.push a = .error (.overflow c)
  /-- What needs an item fails on an empty stack. -/
  underflow : s.length = 0 → s.attempt .pop = .error .underflow ∧
    s.attempt .peek = .error .underflow ∧ ∀ f, s.attempt (.amend f) = .error .underflow
  /-- An operation that fails leaves the stack as it was. -/
  unchanged : ∀ op e, (use attempt s op).1 = .error e → (use attempt s op).2 = s
  /-- A stack says that it is full when its length is the capacity, which is exactly when the next
  push would fail. -/
  full_iff : (s.isFull = true ↔ s.length = c) ∧
    ∀ a, s.isFull = true ↔ ∃ e, s.push a = .error e
  /-- It says that it is empty exactly when the next pop would fail. -/
  empty_iff : s.isEmpty = true ↔ ∃ e, s.pop = .error e
  /-- What a pop takes off was pushed last of what is left, and since then written over at
  most. -/
  popped : ∀ a t, s.pop = .ok (a, t) → Puts attempt (empty c) ops t a

/-- **A bounded stack acts as a list with a ceiling**, for every capacity and whatever is done
with it. -/
theorem actsAsList (c : Nat) (ops : List (Operation α)) :
    ActsAsList c ops (after attempt (empty c) ops) := by
  obtain ⟨hhistory, hlist, hcapacity⟩ := history_empty c ops
  have hpopped (a : α) (t : BoundedStack α) (h : (after attempt (empty c) ops).pop = .ok (a, t)) :
      Puts attempt (empty c) ops t a := puts_of_pop h
  generalize after attempt (empty c) ops = s at hlist hcapacity hpopped ⊢
  have hle := s.length_le_capacity
  have hfull := s.isFull_iff
  rw [length_toList, hcapacity] at hle hfull
  refine ⟨hhistory, hlist, ⟨s.length_toList.symm, hle⟩, hcapacity, fun hge a => ?_, fun hzero => ?_,
    fun op e => use_of_failed, ⟨hfull, fun a => ?_⟩, ?_, hpopped⟩
  · -- The stack is not longer than its capacity either.
    have hlen : s.toList.length = s.capacity := by
      rw [length_toList, hcapacity]
      exact Nat.le_antisymm hle hge
    rw [push_eq_error_iff.mpr ⟨hlen, rfl⟩, hcapacity]
  · have hnil : s.toList = [] := List.eq_nil_of_length_eq_zero (s.length_toList.trans hzero)
    have hpop := pop_eq_error_iff.mpr ⟨hnil, rfl⟩
    have hpeek := peek_eq_error_iff.mpr ⟨hnil, rfl⟩
    refine ⟨?_, ?_, fun f => ?_⟩
    · rw [attempt, hpop]
      rfl
    · rw [attempt, hpeek]
      rfl
    · rw [attempt, hpeek]
      rfl
  · rw [isFull_iff]
    exact ⟨fun hlen => ⟨_, push_eq_error_iff.mpr ⟨hlen, rfl⟩⟩,
      fun ⟨_, hpush⟩ => (push_eq_error_iff.mp hpush).1⟩
  · rw [isEmpty_iff]
    exact ⟨fun hnil => ⟨_, pop_eq_error_iff.mpr ⟨hnil, rfl⟩⟩,
      fun ⟨_, hpop⟩ => (pop_eq_error_iff.mp hpop).1⟩

/-- A full stack keeps its item, and the item is taken off as it was last written. -/
example : (history attempt (empty 1 : BoundedStack Nat)
    [.push 5, .push 6, .amend (· + 2), .pop, .pop]).map Prod.snd =
      [.ok .done, .error (.overflow 1), .ok (.item 5), .ok (.item 7), .error .underflow] :=
  rfl

end BoundedStack

end StackMachine
