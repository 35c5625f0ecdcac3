import StackMachine.Machine.Step

/-!
# One machine follows another

A machine with more room takes the same course as one with less, until the one with
less has none left. `StackMachine.Exec.Follows` is the kind of statement that this is an
instance of: from related machines the second action does what the first one does, and
leaves related machines – unless the first one fails with a fault that says nothing about
the second. Which faults these are, and which fault the second action raises in the place
of one of the others, is a parameter, the **fate** of a fault.

Instructions are sequences of a few primitive actions, and a fault ends the sequence, so a
relation that the primitive actions carry (`StackMachine.Exec.Carries`) is carried by all
instructions: `StackMachine.Exec.Carries.execute`. This is the one place where the
instructions are gone through for it.
-/

namespace StackMachine

namespace Exec

/-- What becomes of a fault: another fault in its place, or nothing is said. -/
abbrev Fate := Error → Option Error → Prop

variable {α β : Type} {R : Machine → Machine → Prop} {F : Fate}

/-! ### Outcomes that follow each other -/

/-- **An outcome that follows another one**: with the same value if the other has one,
and with related machines; after a fault that says nothing it may be anything. -/
inductive Followed (R : Machine → Machine → Prop) (F : Fate) :
    EStateM.Result Error Machine α → EStateM.Result Error Machine α → Prop
  | ok {a : α} {n n' : Machine} (h : R n n') : Followed R F (.ok a n) (.ok a n')
  | error {e e' : Error} {n n' : Machine} (he : F e (some e')) (h : R n n') :
    Followed R F (.error e n) (.error e' n')
  | excused {e : Error} {n : Machine} {r : EStateM.Result Error Machine α} (he : F e none) :
    Followed R F (.error e n) r

/-- **An action that follows another one**, from related machines. -/
def Follows (R : Machine → Machine → Prop) (F : Fate) (x y : Exec α) : Prop :=
  ∀ ⦃m m' : Machine⦄, R m m' → Followed R F (x m) (y m')

theorem Follows.pure (a : α) : Follows R F (pure a) (pure a) := fun _ _ h => .ok h

/-- Outcomes that follow each other still do so once such actions come behind. -/
theorem Followed.bind {x y : Exec α} {f g : α → Exec β} {m m' : Machine}
    (hxy : Followed R F (x m) (y m')) (hf : ∀ a, Follows R F (f a) (g a)) :
    Followed R F ((x >>= f) m) ((y >>= g) m') := by
  change Followed R F (EStateM.bind x f m) (EStateM.bind y g m')
  unfold EStateM.bind
  generalize x m = r, y m' = r' at hxy ⊢
  cases hxy with
  | @ok a n n' hn => exact hf a hn
  | error he hn => exact .error he hn
  | excused he => exact .excused he

/-- Actions that follow each other, one after the other. -/
theorem Follows.bind {x y : Exec α} {f g : α → Exec β} (hx : Follows R F x y)
    (hf : ∀ a, Follows R F (f a) (g a)) : Follows R F (x >>= f) (y >>= g) :=
  fun _ _ h => (hx h).bind hf

/-- Actions that first look at the machine follow each other if they do so with what each
of them sees. -/
theorem Followed.get {f g : Machine → Exec α} {m m' : Machine}
    (h : Followed R F (f m m) (g m' m')) : Followed R F ((get >>= f) m) ((get >>= g) m') := h

/-! ### Relations that instructions carry -/

/-- **A relation that the primitive actions carry**, all of them but the fetch, which
depends on the program. Related machines are also at the same instruction, which is what
the faults report, and a division by zero has the fate of being one. -/
structure Carries (R : Machine → Machine → Prop) (F : Fate) : Prop where
  origin : ∀ {m m' : Machine}, R m m' → m.origin = m'.origin
  divisionByZero : ∀ ip, F (.divisionByZero ip) (some (.divisionByZero ip))
  push : ∀ w, Follows R F (push w) (push w)
  pop : Follows R F pop pop
  peek : Follows R F peek peek
  load : ∀ id, Follows R F (load id) (load id)
  store : ∀ id w, Follows R F (store id w) (store id w)
  jump : ∀ w, Follows R F (jump w) (jump w)
  halt : Follows R F halt halt

namespace Carries

/-- An action on two operands, none of which has no value but for a zero to divide by. -/
theorem binary (h : Carries R F) {f : Nat → Word → Word → Except Error Word}
    (hf : ∀ ip a b e, f ip a b = .error e → e = .divisionByZero ip) :
    Follows R F (binary f) (binary f) := by
  refine .bind h.pop fun b => .bind h.pop fun a => fun m m' hm => .get ?_
  rw [← h.origin hm]
  cases hc : f m.origin a b with
  | ok c => exact h.push c hm
  | error e =>
    obtain rfl := hf _ _ _ _ hc
    exact .error (h.divisionByZero _) hm

theorem quotient (h : Carries R F) (f : Word → Word → Word) :
    Follows R F
      (Exec.binary fun ip a b => if b = 0 then .error (.divisionByZero ip) else .ok (f a b))
      (Exec.binary fun ip a b => if b = 0 then .error (.divisionByZero ip) else .ok (f a b)) := by
  refine h.binary fun ip a b e he => ?_
  by_cases hb : b = 0
  · rw [if_pos hb] at he
    cases he
    rfl
  · rw [if_neg hb] at he
    cases he

/-- **Every instruction carries a relation that the primitive actions carry**, as long as
the fetch of its immediate does, if it has one. -/
theorem execute (h : Carries R F) (i : Instruction) {m m' : Machine} (hm : R m m')
    (hfetch : i.immediates = 1 → Followed R F (fetch m) (fetch m')) :
    Followed R F (execute i m) (execute i m') := by
  have hnone (x : Exec Unit) (hx : Follows R F x x) :
      Follows R F (do x; return (none : Option Event)) (do x; return none) :=
    .bind hx fun _ => .pure none
  cases i with
  | nop => exact .ok hm
  | halt => exact (h.halt hm).bind fun _ => .pure _
  | push => exact (hfetch rfl).bind fun v => hnone _ (h.push v)
  | pop => exact (h.pop hm).bind fun _ => .pure none
  | dup => exact (h.peek hm).bind fun v => hnone _ (h.push v)
  | load => exact (hfetch rfl).bind fun id => .bind (h.load id) fun v => hnone _ (h.push v)
  | store => exact (hfetch rfl).bind fun id => .bind h.pop fun v => hnone _ (h.store id v)
  | print => exact (h.pop hm).bind fun _ => .pure _
  | not => exact (h.pop hm).bind fun _ => hnone _ (h.push _)
  | div | mod => exact hnone _ (h.quotient _) hm
  | jump => exact (h.pop hm).bind fun t => hnone _ (h.jump t)
  | jumpIf =>
    refine (h.pop hm).bind fun c => ?_
    by_cases hc : c.isTrue = true
    · simp only [if_pos hc]
      exact .bind h.pop fun t => hnone _ (h.jump t)
    · simp only [if_neg hc]
      exact .pure none
  | _ => exact hnone _ (h.binary fun ip a b e he => by cases he) hm

end Carries

end Exec

end StackMachine
