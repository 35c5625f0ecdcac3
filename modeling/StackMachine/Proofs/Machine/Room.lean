import StackMachine.Proofs.Machine.Fault
import StackMachine.Proofs.Machine.Simulation

/-!
# More room on the operand stack

An instruction sees the upper end of the operand stack only. Put other values below those
that a machine has, and raise the ceiling by at least as much: it will do the same as
before, with the other values still there below, up to the moment at which it would have
failed for want of a value or of room. `StackMachine.Machine.Roomier` relates a machine to
one with more below and more above, and `StackMachine.Error.roomier` tells what becomes
of its faults:

| the machine with less | the machine with more |
|---|---|
| underflows | underflows too if there is nothing more below, else nothing is said |
| overflows | overflows at its own ceiling if that is no higher, else nothing is said |
| raises another fault | raises the same fault |

* `StackMachine.Exec.follows_step` – a step of the one follows the step of the other;
* `StackMachine.Machine.Alike.turn` – two machines that differ in their capacities only
  take the same turn, if none of them overflows;
* `StackMachine.Machine.operands_turn_of_overflows` – where the one overflows, the other
  has a value more after the turn, if it has room for one.
-/

namespace StackMachine

variable {m m' : Machine} {d : List Word} {extra : Nat}

/-! ### Machines that differ below and above -/

/-- **The second machine has the operands `d` below those of the first**, and is the same
in all that is not a capacity. -/
structure Machine.Atop (d : List Word) (m m' : Machine) : Prop where
  program : m'.program = m.program
  stepLimit : m'.config.stepLimit = m.config.stepLimit
  status : m'.status = m.status
  ip : m'.ip = m.ip
  origin : m'.origin = m.origin
  operands : m'.stack.toList = d ++ m.stack.toList
  frames : m'.frames.toList = m.frames.toList
  steps : m'.steps = m.steps

/-- **The machines differ in their capacities only.** -/
abbrev Machine.Alike (m m' : Machine) : Prop := m.Atop [] m'

/-- **The second machine has `d` below its operands, and room for `extra` more of them.** -/
structure Machine.Roomier (d : List Word) (extra : Nat) (m m' : Machine) : Prop
    extends Machine.Atop d m m' where
  ceiling : m'.stack.capacity = m.stack.capacity + d.length + extra

/-- **What becomes of a fault** on a machine that has more below and more above, if
anything can be said. -/
def Error.roomier (d : List Word) (extra : Nat) : Error → Option Error
  | .stackUnderflow ip => if d = [] then some (.stackUnderflow ip) else none
  | .stackOverflow ip capacity =>
    if extra = 0 then some (.stackOverflow ip (capacity + d.length)) else none
  | e => some e

/-- The fault is an overflow. -/
def Error.IsOverflow (e : Error) : Prop := ∃ ip capacity, e = .stackOverflow ip capacity

/-- With nothing more below, a fault that is no overflow stays the same. -/
theorem Error.roomier_nil {e : Error} (h : extra = 0 ∨ ¬e.IsOverflow) :
    e.roomier [] extra = some e := by
  cases e with
  | stackOverflow ip capacity =>
    obtain rfl | h := h
    · rfl
    · exact absurd ⟨ip, capacity, rfl⟩ h
  | _ => rfl

namespace Machine

theorem Alike.refl (m : Machine) : m.Alike m := ⟨rfl, rfl, rfl, rfl, rfl, rfl, rfl, rfl⟩

theorem Alike.symm (h : m.Alike m') : m'.Alike m :=
  ⟨h.program.symm, h.stepLimit.symm, h.status.symm, h.ip.symm, h.origin.symm, h.operands.symm,
    h.frames.symm, h.steps.symm⟩

theorem Alike.trans {n : Machine} (h : m.Alike m') (h' : m'.Alike n) : m.Alike n :=
  ⟨h'.program.trans h.program, h'.stepLimit.trans h.stepLimit, h'.status.trans h.status,
    h'.ip.trans h.ip, h'.origin.trans h.origin, h'.operands.trans h.operands,
    h'.frames.trans h.frames, h'.steps.trans h.steps⟩

/-- Of two machines that are alike, the one with the higher ceiling is the roomier one. -/
theorem Alike.roomier (h : m.Alike m') (hle : m.stack.capacity ≤ m'.stack.capacity) :
    m.Roomier [] (m'.stack.capacity - m.stack.capacity) m' :=
  ⟨h, (Nat.add_sub_of_le hle).symm⟩

namespace Roomier

theorem setOperands (h : m.Roomier d extra m') {l : List Word} (hl : l.length ≤ m.stack.capacity) :
    (m.setOperands l).Roomier d extra (m'.setOperands (d ++ l)) := by
  have hl' : (d ++ l).length ≤ m'.stack.capacity := by
    rw [List.length_append, h.ceiling]
    omega
  refine ⟨⟨h.program, h.stepLimit, h.status, h.ip, h.origin, ?_, h.frames, h.steps⟩, ?_⟩
  · simp only [setOperands_stack, BoundedStack.toList_withItems]
  · simp only [setOperands_stack, BoundedStack.capacity_withItems hl,
      BoundedStack.capacity_withItems hl', h.ceiling]

theorem setFrames (h : m.Roomier d extra m') (fs : List Frame) :
    (m.setFrames fs).Roomier d extra (m'.setFrames fs) := by
  refine ⟨⟨h.program, h.stepLimit, h.status, h.ip, h.origin, h.operands, ?_, h.steps⟩, h.ceiling⟩
  simp only [setFrames_frames, BoundedStack.toList_withItems]

theorem setIp (h : m.Roomier d extra m') (ip : Nat) :
    (m.setIp ip).Roomier d extra (m'.setIp ip) :=
  ⟨⟨h.program, h.stepLimit, h.status, rfl, h.origin, h.operands, h.frames, h.steps⟩, h.ceiling⟩

theorem dispatched (h : m.Roomier d extra m') (size : Nat) :
    (m.dispatched size).Roomier d extra (m'.dispatched size) := by
  refine ⟨⟨h.program, h.stepLimit, h.status, ?_, h.ip, h.operands, h.frames, ?_⟩, h.ceiling⟩
  · simp only [dispatched_ip, h.ip]
  · simp only [dispatched_steps, h.steps]

theorem setStatus (h : m.Roomier d extra m') (s : Status) :
    Roomier d extra { m with status := s } { m' with status := s } :=
  ⟨⟨h.program, h.stepLimit, rfl, h.ip, h.origin, h.operands, h.frames, h.steps⟩, h.ceiling⟩

theorem setOrigin (h : m.Roomier d extra m') {a a' : Nat} (ha : a' = a) :
    Roomier d extra { m with origin := a } { m' with origin := a' } :=
  ⟨⟨h.program, h.stepLimit, h.status, h.ip, ha, h.operands, h.frames, h.steps⟩, h.ceiling⟩

end Roomier

end Machine

/-! ### The primitive actions -/

namespace Exec

/-- The fate of the faults of a machine with less below and above. -/
def Roomier (d : List Word) (extra : Nat) : Fate := fun e e' => e.roomier d extra = e'

/-- An underflow is the same with nothing more below, and says nothing otherwise. -/
theorem followed_underflow {α : Type} {m m' : Machine} {r : EStateM.Result Error Machine α}
    (h : m.Roomier d extra m') (hr : d = [] → r = .error (.stackUnderflow m'.origin) m') :
    Followed (Machine.Roomier d extra) (Roomier d extra)
      (.error (.stackUnderflow m.origin) m) r := by
  by_cases hd : d = []
  · rw [hr hd, h.origin]
    exact .error (if_pos hd) h
  · exact .excused (if_neg hd)

theorem follows_push (w : Word) :
    Follows (Machine.Roomier d extra) (Roomier d extra) (push w) (push w) := by
  intro m m' h
  cases hp : push w m with
  | ok u n =>
    obtain ⟨hroom, rfl⟩ := push_eq_ok_iff.mp hp
    have hroom' : m'.stack.toList.length < m'.stack.capacity := by
      rw [h.operands, h.ceiling, List.length_append]
      omega
    have hlen : (m.stack.toList ++ [w]).length ≤ m.stack.capacity := by
      rw [List.length_append]
      exact hroom
    rw [push_eq_ok_iff (u := u).mpr ⟨hroom', rfl⟩, h.operands, List.append_assoc]
    exact .ok (h.setOperands hlen)
  | error e n =>
    obtain ⟨hfull, rfl, rfl⟩ := push_eq_error_iff.mp hp
    by_cases hextra : extra = 0
    · -- The other ceiling is as high above the other values.
      have hcap : m'.stack.capacity = n.stack.capacity + d.length := by
        rw [h.ceiling, hextra, Nat.add_zero]
      have hfull' : m'.stack.toList.length = m'.stack.capacity := by
        rw [h.operands, hcap, List.length_append, hfull, Nat.add_comm]
      rw [push_eq_error_iff.mpr ⟨hfull', rfl, rfl⟩, h.origin, hcap]
      exact .error (if_pos hextra) h
    · exact .excused (if_neg hextra)

theorem follows_pop : Follows (Machine.Roomier d extra) (Roomier d extra) pop pop := by
  intro m m' h
  cases hp : pop m with
  | ok w n =>
    obtain ⟨l, hl, rfl⟩ := pop_eq_ok_iff.mp hp
    have hl' : m'.stack.toList = (d ++ l) ++ [w] := by rw [h.operands, hl, List.append_assoc]
    rw [pop_eq_ok_iff.mpr ⟨d ++ l, hl', rfl⟩]
    exact .ok (h.setOperands (length_le_of_append hl))
  | error e n =>
    obtain ⟨hempty, rfl, rfl⟩ := pop_eq_error_iff.mp hp
    refine followed_underflow h fun hd => ?_
    have hempty' : m'.stack.toList = [] := by rw [h.operands, hempty, hd, List.append_nil]
    exact pop_eq_error_iff.mpr ⟨hempty', rfl, rfl⟩

theorem follows_peek : Follows (Machine.Roomier d extra) (Roomier d extra) peek peek := by
  intro m m' h
  cases hp : peek m with
  | ok w n =>
    obtain ⟨⟨l, hl⟩, rfl⟩ := peek_eq_ok_iff.mp hp
    have hl' : m'.stack.toList = (d ++ l) ++ [w] := by rw [h.operands, hl, List.append_assoc]
    rw [peek_eq_ok_iff.mpr ⟨⟨d ++ l, hl'⟩, rfl⟩]
    exact .ok h
  | error e n =>
    obtain ⟨hempty, rfl, rfl⟩ := peek_eq_error_iff.mp hp
    refine followed_underflow h fun hd => ?_
    have hempty' : m'.stack.toList = [] := by rw [h.operands, hempty, hd, List.append_nil]
    exact peek_eq_error_iff.mpr ⟨hempty', rfl, rfl⟩

theorem follows_load (id : Word) :
    Follows (Machine.Roomier d extra) (Roomier d extra) (load id) (load id) := by
  intro m m' h
  cases hp : load id m with
  | ok w n =>
    obtain ⟨fs, f, hf, rfl, rfl⟩ := load_eq_ok_iff.mp hp
    rw [load_eq_ok_iff.mpr ⟨fs, f, h.frames.trans hf, rfl, rfl⟩]
    exact .ok h
  | error e n =>
    obtain ⟨hempty, rfl, rfl⟩ := load_eq_error_iff.mp hp
    exact followed_underflow h fun _ =>
      load_eq_error_iff.mpr ⟨h.frames.trans hempty, rfl, rfl⟩

theorem follows_store (id w : Word) :
    Follows (Machine.Roomier d extra) (Roomier d extra) (store id w) (store id w) := by
  intro m m' h
  cases hp : store id w m with
  | ok u n =>
    obtain ⟨fs, f, hf, rfl⟩ := store_eq_ok_iff.mp hp
    rw [store_eq_ok_iff (u := u).mpr ⟨fs, f, h.frames.trans hf, rfl⟩]
    exact .ok (h.setFrames _)
  | error e n =>
    obtain ⟨hempty, rfl, rfl⟩ := store_eq_error_iff.mp hp
    exact followed_underflow h fun _ =>
      store_eq_error_iff.mpr ⟨h.frames.trans hempty, rfl, rfl⟩

theorem follows_jump (w : Word) :
    Follows (Machine.Roomier d extra) (Roomier d extra) (jump w) (jump w) := by
  intro m m' h
  unfold jump
  split
  · exact .error rfl h
  · exact .ok (h.setIp _)

theorem follows_fetch : Follows (Machine.Roomier d extra) (Roomier d extra) fetch fetch := by
  intro m m' h
  have hword : m'.program.get? m'.ip = m.program.get? m.ip := by rw [h.program, h.ip]
  cases hf : fetch m with
  | ok w n =>
    obtain ⟨hw, rfl⟩ := fetch_eq_ok_iff.mp hf
    rw [fetch_eq_ok_iff.mpr ⟨hword.trans hw, rfl⟩, h.ip]
    exact .ok (h.setIp _)
  | error e n =>
    obtain ⟨hw, rfl, rfl⟩ := fetch_eq_error_iff.mp hf
    rw [fetch_eq_error_iff.mpr ⟨hword.trans hw, rfl, rfl⟩, h.ip]
    exact .error rfl h

/-- **The primitive actions do the same with more below and more above.** -/
theorem carries_roomier : Carries (Machine.Roomier d extra) (Roomier d extra) where
  origin h := h.origin.symm
  divisionByZero _ := rfl
  push := follows_push
  pop := follows_pop
  peek := follows_peek
  load := follows_load
  store := follows_store
  jump := follows_jump
  halt _ _ h := .ok (h.setStatus _)

/-! ### Steps and turns -/

theorem follows_dispatch :
    Follows (Machine.Roomier d extra) (Roomier d extra) dispatch dispatch := by
  intro m m' h
  have hword : m'.program.get? m'.ip = m.program.get? m.ip := by rw [h.program, h.ip]
  cases hw : m.program.get? m.ip with
  | none =>
    rw [dispatch_of_none hw, dispatch_of_none (hword.trans hw)]
    refine .error ?_ (h.setOrigin h.ip)
    rw [h.ip]
    rfl
  | some w =>
    rw [dispatch_of_some hw, dispatch_of_some (hword.trans hw), h.ip]
    cases Instruction.decode? w with
    | none => exact .ok (h.dispatched 1)
    | some i =>
      exact carries_roomier.execute i (h.dispatched 1) fun _ => follows_fetch (h.dispatched 1)

/-- **A step does the same with more below and more above**, unless it fails for want of
what there is more of. -/
theorem follows_step : Follows (Machine.Roomier d extra) (Roomier d extra) step step := by
  intro m m' h
  rcases m.withinBudget_or_exhausted with hbudget | ⟨limit, hl, hlimit⟩
  · have hbudget' : m'.WithinBudget := by
      intro limit hl
      rw [h.steps]
      exact hbudget limit (h.stepLimit.symm.trans hl)
    rw [step_eq_dispatch hbudget, step_eq_dispatch hbudget']
    exact follows_dispatch h
  · rw [step_of_exhausted hl hlimit,
      step_of_exhausted (h.stepLimit.trans hl) (h.steps.symm ▸ hlimit)]
    exact .error rfl h

end Exec

/-- The run has ended in an overflow. -/
def Overflows (result : Option Result) : Prop := ∃ e, result = some (.error e) ∧ e.IsOverflow

/-- **Two turns are alike**: they show the same, end alike, and leave machines that differ
in their capacities only. -/
structure Turn.Alike (t t' : Turn) : Prop where
  machine : t.machine.Alike t'.machine
  event : t'.event = t.event
  result : t'.result = t.result

theorem Turn.Alike.symm {t t' : Turn} (h : t.Alike t') : t'.Alike t :=
  ⟨h.machine.symm, h.event.symm, h.result.symm⟩

namespace Machine

/-- **A turn is the same with a higher ceiling, unless it overflows**, and with the same
ceiling in any case. -/
theorem Roomier.turn (h : m.Roomier [] extra m') (hno : extra = 0 ∨ ¬Overflows m.turn.result) :
    m.turn.Alike m'.turn ∧ m.turn.machine.Roomier [] extra m'.turn.machine := by
  have hstep := Exec.follows_step h
  cases hs : Exec.step m with
  | ok event n =>
    rw [hs] at hstep
    generalize hs' : Exec.step m' = r' at hstep
    cases hstep with
    | ok hn =>
      rw [turn_of_step_ok hs, turn_of_step_ok hs']
      refine ⟨⟨hn.toAtop, rfl, ?_⟩, hn⟩
      simp only [hn.status]
  | error e n =>
    have hfate : e.roomier [] extra = some e := by
      refine Error.roomier_nil (hno.imp id fun hno hover => hno ⟨e, ?_, hover⟩)
      rw [turn_of_step_error hs]
    rw [hs] at hstep
    generalize hs' : Exec.step m' = r' at hstep
    cases hstep with
    | error he hn =>
      obtain rfl := Option.some.inj (hfate.symm.trans he)
      rw [turn_of_step_error hs, turn_of_step_error hs']
      exact ⟨⟨(hn.setStatus _).toAtop, rfl, rfl⟩, hn.setStatus _⟩
    | excused he => exact absurd (hfate.symm.trans he) (Option.some_ne_none _)

/-- **Machines that differ in their capacities only take the same turn**, if none of them
overflows: the one with the lower ceiling is followed by the other. -/
theorem Alike.turn (h : m.Alike m') (hno : ¬Overflows m.turn.result)
    (hno' : ¬Overflows m'.turn.result) : m.turn.Alike m'.turn := by
  rcases Nat.le_total m.stack.capacity m'.stack.capacity with hle | hle
  · exact ((h.roomier hle).turn (Or.inr hno)).1
  · exact ((h.symm.roomier hle).turn (Or.inr hno')).1.symm

/-- A turn that finds room for a value does not overflow. -/
theorem not_overflows_turn (hframe : m.frames.toList ≠ [])
    (hroom : m.stack.toList.length < m.stack.capacity) : ¬Overflows m.turn.result := by
  rintro ⟨_, h, ip, capacity, rfl⟩
  obtain ⟨-, _, _, hf, -⟩ := fault_of_turn hframe h
  cases hf with
  | overflow _ _ _ _ hfull => exact absurd hfull (Nat.ne_of_lt hroom)

/-- **A turn that overflows** has found the stack full, names the offset of its word, and
shows nothing. -/
theorem of_overflows_turn (hframe : m.frames.toList ≠ []) (h : Overflows m.turn.result) :
    m.turn.result = some (.error (.stackOverflow m.ip m.stack.capacity)) ∧
      m.turn.event = none ∧ m.stack.toList.length = m.stack.capacity ∧
      ∃ fetched, m.LeftAfter fetched 0 m.turn.machine := by
  obtain ⟨_, h, ip, capacity, rfl⟩ := h
  obtain ⟨hevent, _, _, hf, hleft⟩ := fault_of_turn hframe h
  cases hf with
  | overflow _ _ _ _ hfull => exact ⟨h, hevent, hfull, _, hleft⟩

/-- An instruction that only pushes does so where there is room. -/
theorem execute_of_room {i : Instruction} (hframe : m.frames.toList ≠ []) (hw : m.At i)
    (hv : m.HasImmediate i) (hi : i = .push ∨ i = .dup ∨ i = .load)
    (hneeds : i.needs m.stack.toList ≤ m.stack.toList.length)
    (hroom : m.stack.toList.length < m.stack.capacity) :
    ∃ event v n, Exec.execute i (m.dispatched 1) = .ok event n ∧
      n.stack.toList = m.stack.toList ++ [v] := by
  rcases hi with rfl | rfl | rfl
  · obtain ⟨v, hv⟩ := hv rfl
    obtain ⟨event, he, -⟩ := Exec.exists_execute_of_dispatch hw (.push hw hv hroom)
    exact ⟨event, v, _, he, BoundedStack.toList_withItems _ _⟩
  · obtain ⟨s, a, hs⟩ : ∃ s a, m.stack.toList = s ++ [a] :=
      ⟨_, _, (List.dropLast_concat_getLast (List.ne_nil_of_length_pos hneeds)).symm⟩
    obtain ⟨event, he, -⟩ := Exec.exists_execute_of_dispatch hw (.dup hw hs hroom)
    refine ⟨event, a, _, he, (BoundedStack.toList_withItems _ _).trans ?_⟩
    rw [hs, List.append_assoc]
    rfl
  · obtain ⟨id, hid⟩ := hv rfl
    have hf := (List.dropLast_concat_getLast hframe).symm
    obtain ⟨event, he, -⟩ := Exec.exists_execute_of_dispatch hw (.load hw hid hf hroom)
    exact ⟨event, _, _, he, BoundedStack.toList_withItems _ _⟩

/-- **Where a machine overflows, one with room has a value more after the turn.** -/
theorem operands_turn_of_overflows (h : m.Alike m') (hframe : m.frames.toList ≠ [])
    (hover : Overflows m.turn.result) (hroom : m'.stack.toList.length < m'.stack.capacity) :
    ∃ v, m'.turn.machine.stack.toList = m.stack.toList ++ [v] := by
  obtain ⟨_, hover, ip, capacity, rfl⟩ := hover
  have hbudget : m.WithinBudget := by
    rcases m.withinBudget_or_exhausted with hbudget | ⟨limit, hl, hlimit⟩
    · exact hbudget
    · -- A turn beyond the budget would have said so.
      rw [turn_of_step_error (Exec.step_of_exhausted hl hlimit)] at hover
      cases hover
  have hbudget' : m'.WithinBudget := by
    intro limit hl
    rw [h.steps]
    exact hbudget limit (h.stepLimit.symm.trans hl)
  obtain ⟨-, _, _, hf, -⟩ := fault_of_turn hframe hover
  cases hf with
  | @overflow i hw hv hi hneeds _ =>
    have hw' : m'.At i := by rw [At, h.program, h.ip]; exact hw
    have hv' : m'.HasImmediate i := by rw [HasImmediate, h.program, h.ip]; exact hv
    have hs' : m'.stack.toList = m.stack.toList := h.operands
    have hframe' : m'.frames.toList ≠ [] := by rw [h.frames]; exact hframe
    obtain ⟨event, v, n, he, hn⟩ :=
      execute_of_room hframe' hw' hv' hi (by rw [hs']; exact hneeds) hroom
    refine ⟨v, ?_⟩
    rw [turn_of_step_ok ((Exec.step_of_at hbudget' hw').trans he), hn, hs']

end Machine

end StackMachine
