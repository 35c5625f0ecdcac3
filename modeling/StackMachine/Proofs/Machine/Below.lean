import StackMachine.Proofs.Machine.Failures
import StackMachine.Proofs.Machine.Runs
import StackMachine.Proofs.Machine.Simulation
import StackMachine.Proofs.Machine.Step

/-!
# Values below the operands

No instruction looks below its operands. So values put at the bottom of the operand stack,
with a ceiling that is higher by as many, change nothing of what a machine does: after any
number of turns they lie below what the machine has by then, and everything else is what it
would be without them. There is one exception. A machine that underflows would have found
one of the values there.

To put values below is a function on machines here, `StackMachine.Machine.onTopOf`, on faults
and on runs, so that the theorem is an equation: the function commutes with taking turns. A
fault stays the same, but an overflow names the ceiling, and names the higher one.

* `StackMachine.Exec.follows_step_onTopOf` – a step on top of other values;
* `StackMachine.Run.advance_onTopOf` – any number of turns on top of them;
* `StackMachine.Machine.ignoresBelow` – **a machine ignores what is below its operands**.
-/

namespace StackMachine

/-! ### Values below others -/

namespace BoundedStack

variable {α : Type} {s t : BoundedStack α} {a : α} {d : List α}

/-- The stack on top of other items, with room for as many more. -/
def onTopOf (s : BoundedStack α) (d : List α) : BoundedStack α where
  items := s.items ++ d.reverse
  capacity := s.capacity + d.length
  length_le := by
    rw [List.length_append, List.length_reverse]
    exact Nat.add_le_add_right s.length_le _

@[simp] theorem toList_onTopOf (s : BoundedStack α) (d : List α) :
    (s.onTopOf d).toList = d ++ s.toList := by
  rw [toList, onTopOf, List.reverse_append, List.reverse_reverse, toList]

@[simp] theorem capacity_onTopOf (s : BoundedStack α) (d : List α) :
    (s.onTopOf d).capacity = s.capacity + d.length :=
  rfl

/-- An item is pushed on top of the others all the same. -/
theorem push_onTopOf (h : s.push a = .ok t) : (s.onTopOf d).push a = .ok (t.onTopOf d) := by
  obtain ⟨hroom, ht⟩ := push_eq_ok_iff.mp h
  refine push_eq_ok_iff.mpr ⟨?_, eq_withItems ?_ (congrArg (· + d.length) (capacity_of_push h))⟩
  · rw [toList_onTopOf, capacity_onTopOf, List.length_append]
    omega
  · rw [toList_onTopOf, toList_onTopOf, ht, toList_withItems, List.append_assoc]

/-- A stack that is full is so on top of others, under the higher ceiling. -/
theorem push_onTopOf_full {e : StackError} (h : s.push a = .error e) :
    e = .overflow s.capacity ∧
      (s.onTopOf d).push a = .error (.overflow (s.capacity + d.length)) := by
  obtain ⟨hfull, rfl⟩ := push_eq_error_iff.mp h
  refine ⟨rfl, push_eq_error_iff.mpr ⟨?_, by rw [capacity_onTopOf]⟩⟩
  rw [toList_onTopOf, capacity_onTopOf, List.length_append, hfull, Nat.add_comm]

/-- What is popped is not one of the others. -/
theorem pop_onTopOf (h : s.pop = .ok (a, t)) : (s.onTopOf d).pop = .ok (a, t.onTopOf d) := by
  obtain ⟨l, hl, ht⟩ := pop_eq_ok_iff.mp h
  refine pop_eq_ok_iff.mpr ⟨d ++ l, ?_,
    eq_withItems ?_ (congrArg (· + d.length) (capacity_of_pop h))⟩
  · rw [toList_onTopOf, hl, List.append_assoc]
  · rw [toList_onTopOf, ht, toList_withItems]

theorem peek_onTopOf (h : s.peek = .ok a) : (s.onTopOf d).peek = .ok a := by
  obtain ⟨l, hl⟩ := peek_eq_ok_iff.mp h
  refine peek_eq_ok_iff.mpr ⟨d ++ l, ?_⟩
  rw [toList_onTopOf, hl, List.append_assoc]

end BoundedStack

variable {m m' : Machine} {d : List Word} {c : Nat}

/-- **The machine on top of other values**: they are below its operands, its operand stack
holds as many more, and everything else is as it was. -/
def Machine.onTopOf (m : Machine) (d : List Word) : Machine :=
  { m with stack := m.stack.onTopOf d }

/-- A fault on top of other values: an overflow names the higher ceiling. -/
def Error.onTopOf (e : Error) (d : List Word) : Error :=
  match e with
  | .stackOverflow ip capacity => .stackOverflow ip (capacity + d.length)
  | e => e

/-- The run is over for want of an operand. -/
def Underflows (result : Option Result) : Prop :=
  ∃ ip, result = some (.error (.stackUnderflow ip))

/-! ### Steps -/

namespace Exec

/-- The second machine is the first one, which has the ceiling `c`, on top of other values. -/
def OnTopOf (d : List Word) (c : Nat) (m m' : Machine) : Prop :=
  m' = m.onTopOf d ∧ m.stack.capacity = c

/-- **What becomes of a fault on top of other values.** Nothing is said about an underflow, and
an overflow is known to name the ceiling. -/
def FaultOnTopOf (d : List Word) (c : Nat) : Fate := fun e e' =>
  match e with
  | .stackUnderflow _ => e' = none
  | .stackOverflow ip capacity => capacity = c ∧ e' = some (.stackOverflow ip (c + d.length))
  | e => e' = some e

/-- **The primitive actions do the same on top of other values.** -/
theorem carries_onTopOf : Carries (OnTopOf d c) (FaultOnTopOf d c) where
  origin h := by rw [h.1, Machine.onTopOf]
  divisionByZero _ := rfl
  push w := by
    rintro m _ ⟨rfl, rfl⟩
    unfold push Machine.onTopOf
    cases hp : m.stack.push w with
    | ok s =>
      rw [BoundedStack.push_onTopOf hp]
      exact .ok ⟨rfl, BoundedStack.capacity_of_push hp⟩
    | error e =>
      obtain ⟨rfl, hp'⟩ := BoundedStack.push_onTopOf_full (d := d) hp
      rw [hp']
      exact .error ⟨rfl, rfl⟩ ⟨rfl, rfl⟩
  pop := by
    rintro m _ ⟨rfl, rfl⟩
    unfold pop Machine.onTopOf
    cases hp : m.stack.pop with
    | ok r =>
      rw [BoundedStack.pop_onTopOf hp]
      exact .ok ⟨rfl, BoundedStack.capacity_of_pop hp⟩
    | error e =>
      obtain ⟨-, rfl⟩ := BoundedStack.pop_eq_error_iff.mp hp
      exact .excused rfl
  peek := by
    rintro m _ ⟨rfl, rfl⟩
    unfold peek Machine.onTopOf
    cases hp : m.stack.peek with
    | ok v =>
      rw [BoundedStack.peek_onTopOf (d := d) hp]
      exact .ok ⟨rfl, rfl⟩
    | error e =>
      obtain ⟨-, rfl⟩ := BoundedStack.peek_eq_error_iff.mp hp
      exact .excused rfl
  load id := by
    rintro m _ ⟨rfl, rfl⟩
    unfold load Machine.onTopOf
    cases hp : m.frames.peek with
    | ok f => exact .ok ⟨rfl, rfl⟩
    | error e =>
      obtain ⟨-, rfl⟩ := BoundedStack.peek_eq_error_iff.mp hp
      exact .excused rfl
  store id w := by
    rintro m _ ⟨rfl, rfl⟩
    cases hs : store id w m with
    | ok u n =>
      obtain ⟨fs, f, hf, rfl⟩ := store_eq_ok_iff.mp hs
      rw [store_eq_ok_iff (m := m.onTopOf d) (u := u).mpr ⟨fs, f, hf, rfl⟩]
      exact .ok ⟨rfl, rfl⟩
    | error e n =>
      obtain ⟨-, rfl, -⟩ := store_eq_error_iff.mp hs
      exact .excused rfl
  jump w := by
    rintro m _ ⟨rfl, rfl⟩
    unfold jump
    split
    · exact .error rfl ⟨rfl, rfl⟩
    · exact .ok ⟨rfl, rfl⟩
  halt _ _ h := .ok ⟨by rw [h.1]; rfl, h.2⟩

theorem follows_fetch_onTopOf : Follows (OnTopOf d c) (FaultOnTopOf d c) fetch fetch := by
  rintro m _ ⟨rfl, rfl⟩
  unfold fetch Machine.onTopOf
  cases m.program.get? m.ip with
  | none => exact .error rfl ⟨rfl, rfl⟩
  | some w => exact .ok ⟨rfl, rfl⟩

/-- **A step does the same on top of other values**, unless it underflows. -/
theorem follows_step_onTopOf : Follows (OnTopOf d c) (FaultOnTopOf d c) step step := by
  rintro m _ ⟨rfl, hc⟩
  rcases m.withinBudget_or_exhausted with hbudget | ⟨limit, hl, hlimit⟩
  · rw [step_eq_dispatch hbudget, step_eq_dispatch (m := m.onTopOf d) hbudget]
    cases hw : m.program.get? m.ip with
    | none =>
      rw [dispatch_of_none hw, dispatch_of_none (m := m.onTopOf d) hw]
      exact .error rfl ⟨rfl, hc⟩
    | some w =>
      rw [dispatch_of_some hw, dispatch_of_some (m := m.onTopOf d) hw]
      cases Instruction.decode? w with
      | none => exact .ok ⟨rfl, hc⟩
      | some i => exact carries_onTopOf.execute i ⟨rfl, hc⟩ fun _ => follows_fetch_onTopOf ⟨rfl, hc⟩
  · rw [step_of_exhausted hl hlimit, step_of_exhausted (m := m.onTopOf d) hl hlimit]
    exact .error rfl ⟨rfl, hc⟩

/-- What becomes of a fault that is no underflow. -/
theorem eq_onTopOf_of_fault {e : Error} {e' : Option Error} (h : FaultOnTopOf d c e e')
    (hno : ∀ ip, e ≠ .stackUnderflow ip) : e' = some (e.onTopOf d) := by
  cases e with
  | stackUnderflow ip => exact absurd rfl (hno ip)
  | stackOverflow ip capacity =>
    obtain ⟨rfl, h⟩ := h
    exact h
  | _ => exact h

end Exec

/-! ### Turns and runs -/

/-- A turn on top of other values. -/
def Turn.onTopOf (t : Turn) (d : List Word) : Turn :=
  ⟨t.machine.onTopOf d, t.event, t.result.map (Except.mapError (·.onTopOf d))⟩

/-- A run on top of other values. -/
def Run.onTopOf (r : Run) (d : List Word) : Run :=
  ⟨r.machine.onTopOf d, r.events, r.result.map (Except.mapError (·.onTopOf d))⟩

/-- **A turn is the same on top of other values**, unless it underflows. -/
theorem Machine.turn_onTopOf (hno : ¬Underflows m.turn.result) :
    (m.onTopOf d).turn = m.turn.onTopOf d := by
  have h := Exec.follows_step_onTopOf (m := m) (d := d) ⟨rfl, rfl⟩
  cases hs : Exec.step m with
  | ok event n =>
    rw [hs] at h
    generalize hs' : Exec.step (m.onTopOf d) = r at h
    cases h with
    | ok hn =>
      obtain ⟨rfl, -⟩ := hn
      rw [turn_of_step_ok hs, turn_of_step_ok hs']
      change Turn.mk _ _ (if n.status = .running then none else some (.ok ())) = _
      rw [Turn.onTopOf]
      by_cases hn : n.status = .running
      · rw [if_pos hn]
        rfl
      · rw [if_neg hn]
        rfl
  | error e n =>
    have hno' (ip) : e ≠ .stackUnderflow ip := by
      rintro rfl
      exact hno ⟨ip, by rw [turn_of_step_error hs]⟩
    rw [hs] at h
    generalize hs' : Exec.step (m.onTopOf d) = r at h
    cases h with
    | error he hn =>
      obtain ⟨rfl, -⟩ := hn
      obtain rfl := Option.some.inj (Exec.eq_onTopOf_of_fault he hno')
      rw [turn_of_step_error hs, turn_of_step_error hs']
      rfl
    | excused he => cases Exec.eq_onTopOf_of_fault he hno'

/-- **A turn after which the run goes on keeps the ceiling, and an overflow names it.** -/
theorem Machine.ceiling_turn (m : Machine) :
    (m.turn.result = none → m.turn.machine.stack.capacity = m.stack.capacity) ∧
      ∀ ip capacity, m.turn.result = some (.error (.stackOverflow ip capacity)) →
        capacity = m.stack.capacity := by
  have h := Exec.follows_step_onTopOf (m := m) (d := []) ⟨rfl, rfl⟩
  cases hs : Exec.step m with
  | ok event n =>
    rw [hs] at h
    rw [turn_of_step_ok hs]
    generalize Exec.step (m.onTopOf []) = r at h
    cases h with
    | ok hn =>
      refine ⟨fun _ => hn.2, fun ip capacity hover => ?_⟩
      dsimp only at hover
      split at hover <;> cases hover
  | error e n =>
    rw [hs] at h
    rw [turn_of_step_error hs]
    refine ⟨nofun, ?_⟩
    rintro ip capacity ⟨⟩
    generalize Exec.step (m.onTopOf []) = r at h
    cases h with
    | error he _ => exact he.1
    | excused he => cases he.2

namespace Run

variable {r : Run}

/-- **Any number of turns is the same on top of other values**, unless one of them
underflows. -/
theorem advance_onTopOf {n : Nat} (hno : ¬Underflows (r.advance n).result) :
    (r.onTopOf d).advance n = (r.advance n).onTopOf d := by
  induction n generalizing r with
  | zero => rfl
  | succ n ih =>
    rcases r.going_or_ended with hr | hr
    · have hnext : r.advance (n + 1) = r.next.advance n := by rw [advance, hr]; rfl
      have hnext' : (r.onTopOf d).advance (n + 1) = (r.onTopOf d).next.advance n := by
        rw [advance, onTopOf, hr]
        rfl
      -- A turn that underflows is the last one.
      have hturn : ¬Underflows r.machine.turn.result := by
        rintro ⟨ip, hu⟩
        refine hno ⟨ip, ?_⟩
        have hended : r.next.result.isSome = true := by rw [next, hu]; rfl
        rw [hnext, advance_of_ended hended]
        exact hu
      have hstep : (r.onTopOf d).next = r.next.onTopOf d := by
        unfold next onTopOf
        rw [Machine.turn_onTopOf hturn]
        rfl
      rw [hnext] at hno ⊢
      rw [hnext', hstep, ih hno]
    · have hr' : (r.onTopOf d).result.isSome = true := by
        rw [onTopOf, Option.isSome_map, hr]
      rw [advance_of_ended hr, advance_of_ended hr']

/-- An overflow after any number of turns names the ceiling that there was. -/
theorem overflow_of_advance {n ip capacity : Nat} (hr : r.result = none)
    (h : (r.advance n).result = some (.error (.stackOverflow ip capacity))) :
    capacity = r.machine.stack.capacity := by
  induction n generalizing r with
  | zero =>
    rw [advance, hr] at h
    cases h
  | succ n ih =>
    have hnext : r.advance (n + 1) = r.next.advance n := by rw [advance, hr]; rfl
    rw [hnext] at h
    rcases r.next.going_or_ended with hgoing | hended
    · rw [ih hgoing h]
      exact r.machine.ceiling_turn.1 hgoing
    · rw [advance_of_ended hended] at h
      exact r.machine.ceiling_turn.2 ip capacity h

end Run

/-! ### Machines on top of other values -/

/-- A run that has got to the machine, with the events so far, and goes on. -/
def Machine.going (m : Machine) (events : Array Event) : Run := ⟨m, events, none⟩

/-- **A machine ignores the values `d` below its operands.** A run from it is compared, after any
number of turns, with the one from the machine on top of them. -/
structure Machine.IgnoresBelow (m : Machine) (d : List Word) : Prop where
  /-- The values are below the operands. -/
  operands : (m.onTopOf d).stack.toList = d ++ m.stack.toList
  /-- The ceiling is higher by as many. -/
  ceiling : (m.onTopOf d).stack.capacity = m.stack.capacity + d.length
  /-- But for its operand stack, it is the same machine. -/
  same : { m.onTopOf d with stack := m.stack } = m
  /-- As long as the one does not fail, the other one shows the same, and what the one leaves is
  left on top of the values. -/
  succeeds : ∀ n events r, (m.going events).advance n = r → (∀ e, r.result ≠ some (.error e)) →
    ((m.onTopOf d).going events).advance n = ⟨r.machine.onTopOf d, r.events, r.result⟩
  /-- When the one fails, but not for want of an operand, the other one fails with the same turn,
  and with the same fault, unless this is an overflow, which names the ceiling. -/
  fails : ∀ n events r e, (m.going events).advance n = r → r.result = some (.error e) →
    (∀ ip, e ≠ .stackUnderflow ip) →
      ∃ e', ((m.onTopOf d).going events).advance n =
          ⟨r.machine.onTopOf d, r.events, some (.error e')⟩ ∧
        ((∀ ip capacity, e ≠ .stackOverflow ip capacity) ∧ e' = e ∨
          ∃ ip, e = .stackOverflow ip m.stack.capacity ∧
            e' = .stackOverflow ip (m.stack.capacity + d.length))

/-- **Every machine ignores what is below its operands.** -/
theorem Machine.ignoresBelow (m : Machine) (d : List Word) : m.IgnoresBelow d := by
  have hadvance (n : Nat) (events : Array Event)
      (hno : ¬Underflows ((m.going events).advance n).result) :
      ((m.onTopOf d).going events).advance n = ((m.going events).advance n).onTopOf d :=
    Run.advance_onTopOf (r := m.going events) hno
  refine ⟨m.stack.toList_onTopOf d, m.stack.capacity_onTopOf d, rfl, ?_, ?_⟩
  · rintro n events r rfl hno
    rw [hadvance n events fun ⟨ip, hu⟩ => hno _ hu, Run.onTopOf]
    generalize (m.going events).advance n = r at hno
    obtain ⟨n, events, _ | e | u⟩ := r
    · rfl
    · exact absurd rfl (hno e)
    · rfl
  · rintro n events r e rfl he hno
    refine ⟨e.onTopOf d, ?_, ?_⟩
    · rw [hadvance n events, Run.onTopOf, he]
      · rfl
      · rintro ⟨ip, hu⟩
        rw [he] at hu
        cases hu
        exact hno ip rfl
    · cases e with
      | stackOverflow ip capacity =>
        obtain rfl := Run.overflow_of_advance (r := m.going events) rfl he
        exact Or.inr ⟨ip, rfl, rfl⟩
      | _ => exact Or.inl ⟨nofun, rfl⟩

end StackMachine
