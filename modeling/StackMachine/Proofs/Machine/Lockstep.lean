import StackMachine.Proofs.Machine.Simulation
import StackMachine.Proofs.Machine.Step

/-!
# Actions in lockstep

Two machines that differ only in something an action never looks at take the same
course through it. `StackMachine.Exec.Lockstep` says so for a relation between
machines: from related machines the two actions end alike, both with the same value
or both with the same fault, and leave related machines again.

This is a simulation in which no fault is excused, so a relation that the primitive
actions keep (`StackMachine.Exec.Respects`) is kept by all instructions. The relation
may also be that of being equal and having some property, and then the same theorem
says that the property is an invariant.

* `StackMachine.Exec.Mirrors.respects` – the usual way to come by such a relation:
  one of machines that have the same stacks and differ elsewhere;
* `StackMachine.Exec.Respects.execute` – a relation that the primitive actions
  keep is kept by every instruction, whose only need of the program is its immediate.

Along the way the faults are restricted to those of `StackMachine.Error.Raised`.
-/

namespace StackMachine

/-- **The faults that a word may raise** when it is fetched and executed. -/
inductive Error.Raised : Error → Prop
  | stackUnderflow (ip : Nat) : Raised (.stackUnderflow ip)
  | stackOverflow (ip capacity : Nat) : Raised (.stackOverflow ip capacity)
  | divisionByZero (ip : Nat) : Raised (.divisionByZero ip)
  | invalidPointer (target : Int) : Raised (.invalidPointer target)

theorem StackError.raised_toFault (e : StackError) (ip : Nat) : (e.toFault ip).Raised := by
  cases e with
  | overflow capacity => exact .stackOverflow ip capacity
  | underflow => exact .stackUnderflow ip

namespace Exec

variable {α : Type} {R : Machine → Machine → Prop}

/-! ### Outcomes that match -/

/-- Two outcomes of an action **match**: the same value or the same fault, with
related machines. -/
inductive Matched (R : Machine → Machine → Prop) :
    EStateM.Result Error Machine α → EStateM.Result Error Machine α → Prop
  | ok {a : α} {n n' : Machine} (h : R n n') : Matched R (.ok a n) (.ok a n')
  | error {e : Error} {n n' : Machine} (he : e.Raised) (h : R n n') :
    Matched R (.error e n) (.error e n')

theorem Matched.rel_ok {a a' : α} {n n' : Machine} (h : Matched R (.ok a n) (.ok a' n')) :
    R n n' := by
  cases h with
  | ok hn => exact hn

theorem Matched.rel_error {e e' : Error} {n n' : Machine}
    (h : Matched (α := α) R (.error e n) (.error e' n')) : e.Raised ∧ R n n' := by
  cases h with
  | error he hn => exact ⟨he, hn⟩

/-- **Two actions in lockstep**: from related machines their outcomes match. -/
def Lockstep (R : Machine → Machine → Prop) (x y : Exec α) : Prop :=
  ∀ ⦃m m' : Machine⦄, R m m' → Matched R (x m) (y m')

/-- The fate of a fault that both machines raise. -/
def SameFault : Fate := fun e e' => e.Raised ∧ e' = some e

/-- **Outcomes match exactly when one follows the other with no fault excused.** -/
theorem matched_iff_followed {r r' : EStateM.Result Error Machine α} :
    Matched R r r' ↔ Followed R SameFault r r' := by
  constructor
  · intro h
    cases h with
    | ok h => exact .ok h
    | error he h => exact .error ⟨he, rfl⟩ h
  · intro h
    cases h with
    | ok h => exact .ok h
    | error he h =>
      obtain ⟨he, heq⟩ := he
      cases heq
      exact .error he h
    | excused he => exact absurd he.2 (Option.some_ne_none _).symm

theorem lockstep_iff_follows {x y : Exec α} : Lockstep R x y ↔ Follows R SameFault x y :=
  ⟨fun h _ _ hm => matched_iff_followed.mp (h hm), fun h _ _ hm => matched_iff_followed.mpr (h hm)⟩

/-! ### Relations that instructions keep -/

/-- **A relation that the primitive actions keep**, all of them but the fetch, which
depends on the program. Related machines are also at the same instruction, which is what
the faults report. -/
structure Respects (R : Machine → Machine → Prop) : Prop where
  origin : ∀ {m m' : Machine}, R m m' → m.origin = m'.origin
  push : ∀ w, Lockstep R (push w) (push w)
  pop : Lockstep R pop pop
  peek : Lockstep R peek peek
  load : ∀ id, Lockstep R (load id) (load id)
  store : ∀ id w, Lockstep R (store id w) (store id w)
  jump : ∀ w, Lockstep R (jump w) (jump w)
  halt : Lockstep R halt halt

/-- **A relation between machines with the same stacks**: it is kept when both get the
same new stack or pointer, and when both halt. -/
structure Mirrors (R : Machine → Machine → Prop) : Prop where
  origin : ∀ {m m' : Machine}, R m m' → m.origin = m'.origin
  stack : ∀ {m m' : Machine}, R m m' → m.stack = m'.stack
  frames : ∀ {m m' : Machine}, R m m' → m.frames = m'.frames
  setStack : ∀ {m m' : Machine} (s : BoundedStack Word), R m m' →
    R { m with stack := s } { m' with stack := s }
  setFrames : ∀ {m m' : Machine} (s : BoundedStack Frame), R m m' →
    R { m with frames := s } { m' with frames := s }
  setIp : ∀ {m m' : Machine} (ip : Nat), R m m' → R { m with ip := ip } { m' with ip := ip }
  halt : ∀ {m m' : Machine}, R m m' →
    R { m with status := .halted } { m' with status := .halted }

/-- **A relation between machines with the same stacks is kept by the primitive
actions.** -/
theorem Mirrors.respects (h : Mirrors R) : Respects R where
  origin := h.origin
  push w := by
    intro m m' hm
    simp only [push, ← h.stack hm]
    cases m.stack.push w with
    | error e => exact h.origin hm ▸ .error (e.raised_toFault _) hm
    | ok s => exact .ok (h.setStack s hm)
  pop := by
    intro m m' hm
    simp only [pop, ← h.stack hm]
    cases m.stack.pop with
    | error e => exact h.origin hm ▸ .error (e.raised_toFault _) hm
    | ok r => exact .ok (h.setStack r.2 hm)
  peek := by
    intro m m' hm
    simp only [peek, ← h.stack hm]
    cases m.stack.peek with
    | error e => exact h.origin hm ▸ .error (e.raised_toFault _) hm
    | ok w => exact .ok hm
  load id := by
    intro m m' hm
    simp only [load, ← h.frames hm]
    cases m.frames.peek with
    | error e => exact h.origin hm ▸ .error (e.raised_toFault _) hm
    | ok f => exact .ok hm
  store id w := by
    intro m m' hm
    simp only [store, ← h.frames hm]
    cases m.frames.peek with
    | error e => exact h.origin hm ▸ .error (e.raised_toFault _) hm
    | ok f =>
      dsimp only
      cases m.frames.replaceTop (f.store id w) with
      | error e => exact h.origin hm ▸ .error (e.raised_toFault _) hm
      | ok r => exact .ok (h.setFrames r.2 hm)
  jump w := by
    intro m m' hm
    unfold jump
    split
    · exact .error (.invalidPointer _) hm
    · exact .ok (h.setIp _ hm)
  halt _ _ hm := .ok (h.halt hm)

/-! ### Instructions -/

namespace Respects

/-- A relation that the primitive actions keep is one that they carry. -/
theorem carries (h : Respects R) : Carries R SameFault where
  origin := h.origin
  divisionByZero ip := ⟨.divisionByZero ip, rfl⟩
  push w := lockstep_iff_follows.mp (h.push w)
  pop := lockstep_iff_follows.mp h.pop
  peek := lockstep_iff_follows.mp h.peek
  load id := lockstep_iff_follows.mp (h.load id)
  store id w := lockstep_iff_follows.mp (h.store id w)
  jump w := lockstep_iff_follows.mp (h.jump w)
  halt := lockstep_iff_follows.mp h.halt

/-- **Every instruction keeps a relation that the primitive actions keep**, as long as
the fetch of its immediate does, if it has one. -/
theorem execute (h : Respects R) (i : Instruction) {m m' : Machine} (hm : R m m')
    (hfetch : i.immediates = 1 → Matched R (fetch m) (fetch m')) :
    Matched R (execute i m) (execute i m') :=
  matched_iff_followed.mpr <| h.carries.execute i hm fun hone =>
    matched_iff_followed.mp (hfetch hone)

end Respects

end Exec

end StackMachine
