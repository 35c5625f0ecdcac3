/-!
# Stacks with a ceiling

A **bounded stack** is a list of items together with the capacity it was made with. It
is full when there are as many items as that, and a push is refused from there on. No
operation changes the capacity, and the items always fit, which the stack carries as a
proof: a stack above its ceiling cannot be written down.

The item on top is the head of the list, which is what makes every operation a
single match; `StackMachine.BoundedStack.toList` lists the items the way they were
put there, from the bottom up. An operation that fails leaves the stack as it was,
and says so in its type: failing, it returns no stack at all.
-/

namespace StackMachine

/-- Why an operation on a bounded stack failed. -/
inductive StackError
  /-- A push on a full stack of the given capacity. -/
  | overflow (capacity : Nat)
  /-- A pop, or a look at the top, of an empty stack. -/
  | underflow
  deriving DecidableEq, Repr

/-- The message of a stack failure. -/
def StackError.message : StackError → String
  | .overflow capacity => s!"stack is full (capacity {capacity})"
  | .underflow => "stack is empty"

/-- A stack that holds a limited number of items. -/
structure BoundedStack (α : Type) where
  /-- The items, the top one first. -/
  items : List α
  /-- The number of items the stack can hold. -/
  capacity : Nat
  /-- There are no more items than that. -/
  length_le : items.length ≤ capacity
  deriving DecidableEq, Repr

namespace BoundedStack

variable {α : Type}

/-- The empty stack with place for `capacity` items. -/
def empty (capacity : Nat) : BoundedStack α := ⟨[], capacity, Nat.zero_le capacity⟩

/-- The number of items on the stack. -/
def length (s : BoundedStack α) : Nat := s.items.length

/-- Whether there is nothing to pop. -/
def isEmpty (s : BoundedStack α) : Bool := s.items.isEmpty

/-- Whether there is no room for a push. -/
def isFull (s : BoundedStack α) : Bool := s.length == s.capacity

/-- The items from the bottom to the top. -/
def toList (s : BoundedStack α) : List α := s.items.reverse

/-- Puts an item on top. -/
def push (s : BoundedStack α) (a : α) : Except StackError (BoundedStack α) :=
  if h : s.capacity ≤ s.length then .error (.overflow s.capacity)
  else .ok ⟨a :: s.items, s.capacity, Nat.lt_of_not_le h⟩

/-- Takes the top item off. -/
def pop (s : BoundedStack α) : Except StackError (α × BoundedStack α) :=
  match s with
  | ⟨[], _, _⟩ => .error .underflow
  | ⟨a :: rest, capacity, h⟩ => .ok (a, ⟨rest, capacity, Nat.le_of_succ_le h⟩)

/-- Looks at the top item. -/
def peek (s : BoundedStack α) : Except StackError α :=
  match s.items with
  | [] => .error .underflow
  | a :: _ => .ok a

/-- Exchanges the top item for another one, and hands back the old one. -/
def replaceTop (s : BoundedStack α) (b : α) : Except StackError (α × BoundedStack α) :=
  match s with
  | ⟨[], _, _⟩ => .error .underflow
  | ⟨a :: rest, capacity, h⟩ => .ok (a, ⟨b :: rest, capacity, h⟩)

end BoundedStack

end StackMachine
