import StackMachine.Proofs.Machine.Fault

/-!
# What holds all through a run

A machine is made with a program, limits and room for its stacks, and no step changes
any of them; nor does a step enter or leave a frame. So a run that has got its
top-level frame keeps exactly this one, and its instructions, which can fail in many
ways, never fail for want of a frame.

* `StackMachine.Machine.Kept` – what no step changes, whether it succeeds or fails;
* `StackMachine.Machine.Runs` – the invariant that follows, kept by every turn
  (`StackMachine.Machine.Runs.turn`) and so all through a run
  (`StackMachine.Program.runs_run`);
* `StackMachine.Program.SafeAt` – what this means for a run at any moment of it,
  including the run that never begins because there is no room for its frame.
-/

namespace StackMachine

variable {m m' : Machine} {p : Program} {c : Config}

/-! ### One step -/

/-- **What no step changes**: the program, the limits, the ceiling of the operand stack,
and the frames but for their variables. -/
structure Machine.Kept (m m' : Machine) : Prop where
  program : m'.program = m.program
  config : m'.config = m.config
  ceiling : m'.stack.capacity = m.stack.capacity
  returns : m'.frames.toList.map Frame.returnAddress = m.frames.toList.map Frame.returnAddress

namespace Machine

theorem kept_setOperands {l : List Word} (hl : l.length ≤ m.stack.capacity) (n : Nat) :
    m.Kept ((m.dispatched n).setOperands l) :=
  ⟨rfl, rfl, BoundedStack.capacity_withItems hl, rfl⟩

/-- The frames stay, so there still is one if there was one. -/
theorem Kept.frames_ne_nil (h : m.Kept m') (hframe : m.frames.toList ≠ []) :
    m'.frames.toList ≠ [] := by
  intro hnil
  have hreturns := h.returns
  rw [hnil, List.map_nil, eq_comm, List.map_eq_nil_iff] at hreturns
  exact hframe hreturns

theorem Kept.setIp (h : m.Kept m') (ip : Nat) : m.Kept (m'.setIp ip) :=
  ⟨h.program, h.config, h.ceiling, h.returns⟩

/-- Storing a variable leaves the frame in its place. -/
theorem Kept.setFrames {fs : List Frame} {f : Frame} {id v : Word} (h : m.Kept m')
    (hf : m.frames.toList = fs ++ [f]) : m.Kept (m'.setFrames (fs ++ [f.store id v])) := by
  refine ⟨h.program, h.config, h.ceiling, ?_⟩
  rw [setFrames_frames, BoundedStack.toList_withItems, hf]
  simp [Frame.store]

end Machine

/-- **A rule of an opcode changes none of this**: it takes at most as many values off the
stack as it puts there, unless it has made sure of the room. -/
theorem Dispatch.kept {emitted : Option String} (h : Dispatch m emitted m') : m.Kept m' := by
  have hle := m.stack.length_le_capacity
  cases h with
  | unknown | nop | halt => exact ⟨rfl, rfl, rfl, rfl⟩
  | push _ _ hroom | load _ _ _ hroom =>
    refine Machine.kept_setOperands ?_ 2
    rw [List.length_append]
    exact hroom
  | dup _ hs hroom =>
    refine Machine.kept_setOperands ?_ 1
    rw [hs] at hroom
    simp only [List.length_append, List.length_cons, List.length_nil] at hroom ⊢
    omega
  | store _ _ hf hs =>
    have hl := Exec.length_le_of_append hs
    exact (Machine.kept_setOperands hl 2).setFrames hf
  | pop _ hs | print _ hs | stay _ hs _ =>
    exact Machine.kept_setOperands (Exec.length_le_of_append hs) 1
  | binary _ hs _ | not _ hs =>
    rw [hs] at hle
    refine Machine.kept_setOperands (Nat.le_trans ?_ hle) 1
    simp
  | jump _ hs _ | jumpIf _ hs _ _ =>
    exact (Machine.kept_setOperands (Exec.length_le_of_append hs) 1).setIp _

theorem Dispatch.steps {emitted : Option String} (h : Dispatch m emitted m') :
    m'.steps = m.steps + 1 := by
  cases h <;> rfl

/-- Nor does a fault. -/
theorem Machine.LeftAfter.kept {fetched popped : Nat} (h : m.LeftAfter fetched popped m') :
    m.Kept m' :=
  ⟨h.program, h.config, h.ceiling, by rw [h.frames]⟩

theorem Machine.LeftAfter.steps_le {fetched popped : Nat} (h : m.LeftAfter fetched popped m') :
    m'.steps ≤ m.steps + 1 := by
  rw [h.steps]
  split <;> omega

/-- A step that succeeds is within the budget, and follows a rule of the opcodes. -/
theorem Exec.dispatch_of_step {event : Option Event} (h : step m = .ok event m') :
    m.WithinBudget ∧ Dispatch m (event.map Event.text) m' := by
  rcases m.withinBudget_or_exhausted with hbudget | ⟨limit, hl, hlimit⟩
  · refine ⟨hbudget, ?_⟩
    obtain ⟨w, hw, ⟨hno, rfl, rfl⟩ | ⟨i, rfl, he⟩⟩ := (step_eq_ok_iff hbudget).mp h
    · exact .unknown hw hno
    · exact dispatch_of_execute hw he
  · rw [step_of_exhausted hl hlimit] at h
    cases h

/-- Conversely, a rule that applies is followed, as long as the budget allows a step. -/
theorem Exec.exists_step_of_dispatch {emitted : Option String} (hbudget : m.WithinBudget)
    (h : Dispatch m emitted m') :
    ∃ event, step m = .ok event m' ∧ event.map Event.text = emitted := by
  by_cases hi : ∃ i, m.At i
  · obtain ⟨i, hi⟩ := hi
    obtain ⟨event, he, htext⟩ := exists_execute_of_dispatch hi h
    exact ⟨event, (step_of_at hbudget hi).trans he, htext⟩
  · cases h with
    | unknown hw hno =>
      exact ⟨_, (step_eq_ok_iff hbudget).mpr ⟨_, hw, Or.inl ⟨hno, rfl, rfl⟩⟩, rfl⟩
    | _ => exact absurd ⟨_, ‹m.At _›⟩ hi

/-- **Nor does a turn**, as long as there is a frame. -/
theorem Machine.kept_turn (hframe : m.frames.toList ≠ []) : m.Kept m.turn.machine := by
  cases hs : Exec.step m with
  | ok event n =>
    rw [turn_of_step_ok hs]
    exact (Exec.dispatch_of_step hs).2.kept
  | error e n =>
    obtain ⟨_, _, -, hleft⟩ := Exec.fault_of_step hframe hs
    have hn := hleft.kept
    rw [turn_of_step_error hs]
    exact ⟨hn.program, hn.config, hn.ceiling, hn.returns⟩

/-! ### The invariant -/

namespace Machine

/-- **The invariant of a run** that has begun: the machine is the one that was made for
the program, within its limits and in its one frame. -/
structure Runs (p : Program) (c : Config) (m : Machine) : Prop where
  program : m.program = p
  config : m.config = c
  ceiling : m.stack.capacity = c.stackCapacity
  steps : ∀ limit, c.stepLimit = some limit → m.steps ≤ limit
  returns : m.frames.toList.map Frame.returnAddress = [0]

namespace Runs

theorem frame (h : m.Runs p c) : ∃ f : Frame, m.frames.toList = [f] ∧ f.returnAddress = 0 :=
  List.map_eq_singleton_iff.mp h.returns

theorem frames_ne_nil (h : m.Runs p c) : m.frames.toList ≠ [] := by
  obtain ⟨f, hf, -⟩ := h.frame
  rw [hf]
  exact List.cons_ne_nil f []

theorem of_kept (h : m.Runs p c) (hk : m.Kept m')
    (hsteps : ∀ limit, c.stepLimit = some limit → m'.steps ≤ limit) : m'.Runs p c :=
  ⟨hk.program.trans h.program, hk.config.trans h.config, hk.ceiling.trans h.ceiling, hsteps,
    hk.returns.trans h.returns⟩

/-- **Every turn keeps the invariant.** -/
theorem turn (h : m.Runs p c) : m.turn.machine.Runs p c := by
  refine h.of_kept (kept_turn h.frames_ne_nil) fun limit hl => ?_
  cases hs : Exec.step m with
  | ok event n =>
    obtain ⟨hbudget, hd⟩ := Exec.dispatch_of_step hs
    rw [turn_of_step_ok hs]
    change n.steps ≤ limit
    rw [hd.steps]
    exact hbudget limit (by rw [h.config, hl])
  | error e n =>
    obtain ⟨fetched, popped, hf, hleft⟩ := Exec.fault_of_step h.frames_ne_nil hs
    rw [turn_of_step_error hs]
    change n.steps ≤ limit
    rcases m.withinBudget_or_exhausted with hbudget | ⟨limit', hl', hlimit⟩
    · have hlt := hbudget limit (by rw [h.config, hl])
      exact Nat.le_trans hleft.steps_le hlt
    · -- The budget is used up, so the step has not begun.
      rw [Exec.step_of_exhausted hl' hlimit] at hs
      cases hs
      exact h.steps limit hl

end Runs

end Machine

namespace Program

theorem runs_zero (hc : 0 < c.frameCapacity) : (p.run c 0).machine.Runs p c := by
  rw [run_zero_of_room hc]
  exact ⟨rfl, rfl, rfl, fun limit _ => Nat.zero_le limit, rfl⟩

/-- **The invariant holds all through a run**, and after it. -/
theorem runs_run (hc : 0 < c.frameCapacity) (n : Nat) : (p.run c n).machine.Runs p c := by
  induction n with
  | zero => exact runs_zero hc
  | succ n ih =>
    rw [run_succ]
    split
    · exact ih
    · exact ih.turn

/-- A run that goes on has got its frame. -/
theorem room_of_going {j : Nat} (hj : (p.run c j).result = none) : 0 < c.frameCapacity := by
  refine Nat.pos_of_ne_zero fun hc => ?_
  have hzero := (ended_run_zero_iff p c).mpr hc
  rw [run_going_of_le hj (Nat.zero_le j)] at hzero
  cases hzero

/-- A run that goes on satisfies the invariant. -/
theorem runs_of_going {j : Nat} (hj : (p.run c j).result = none) :
    (p.run c j).machine.Runs p c :=
  runs_run (room_of_going hj) j

/-- **A run that has got its frame and ends in an error** ends in a fault of its last
turn. -/
theorem exists_fault {n : Nat} {e : Error} (hc : 0 < c.frameCapacity)
    (h : (p.run c n).result = some (.error e)) :
    ∃ j, (p.run c j).result = none ∧ p.run c n = p.run c (j + 1) ∧
      ∃ fetched popped, Fault (p.run c j).machine e fetched popped ∧
        (p.run c j).machine.LeftAfter fetched popped (p.run c n).machine := by
  have hend : p.Ends c (p.run c n) := ⟨by rw [h]; rfl, n, rfl⟩
  rcases hend.start_or_next with ⟨h₀, -⟩ | ⟨j, hj, hnext, hrun⟩
  · exact absurd ((ended_run_zero_iff p c).mp h₀) (Nat.ne_of_gt hc)
  · refine ⟨j, hj, hrun, ?_⟩
    rw [hnext] at h ⊢
    exact (Machine.fault_of_turn (runs_of_going hj).frames_ne_nil h).2

/-! ### Safety -/

/-- An underflow leaves the operand stack empty, whatever the instruction needed. -/
theorem toList_of_underflow {n ip : Nat} (hc : 0 < c.frameCapacity)
    (h : (p.run c n).result = some (.error (.stackUnderflow ip))) :
    (p.run c n).machine.stack.toList = [] := by
  obtain ⟨j, hj, -, fetched, popped, hf, hl⟩ := exists_fault hc h
  obtain ⟨d, hd, hs⟩ := hl.operands
  -- As many operands have been popped as there were.
  have hlen : (p.run c j).machine.stack.toList.length = popped := by
    cases hf with
    | noOperand _ _ hnil _ => rw [hnil, List.length_nil]
    | oneOperand _ hone _ => rw [hone, List.length_singleton]
  rw [hs, List.length_append] at hlen
  exact List.eq_nil_of_length_eq_zero (by omega)

/-- An overflow leaves the operand stack full. -/
theorem length_of_overflow {n ip capacity : Nat} (hc : 0 < c.frameCapacity)
    (h : (p.run c n).result = some (.error (.stackOverflow ip capacity))) :
    capacity = c.stackCapacity ∧ (p.run c n).machine.stack.toList.length = c.stackCapacity := by
  obtain ⟨j, hj, -, fetched, popped, hf, hl⟩ := exists_fault hc h
  obtain ⟨d, hd, hs⟩ := hl.operands
  have hceiling := (runs_of_going hj).ceiling
  cases hf with
  | overflow _ _ _ _ hfull =>
    obtain rfl := List.eq_nil_of_length_eq_zero hd
    rw [hs, List.append_nil, hceiling] at hfull
    exact ⟨hceiling, hfull⟩

/-- **What is safe about a run of the program** at any moment of it, and after it. -/
structure SafeAt (p : Program) (c : Config) (r : Run) : Prop where
  /-- The operand stack stays within its limit. -/
  operands : r.machine.stack.toList.length ≤ c.stackCapacity
  /-- The program is never exchanged. -/
  program : r.machine.program = p
  /-- The limits are never exchanged. -/
  config : r.machine.config = c
  /-- The count of steps stays within the budget, if there is one. -/
  steps : ∀ limit, c.stepLimit = some limit → r.machine.steps ≤ limit
  /-- There is one frame, and it is the top-level one. -/
  frame : 0 < c.frameCapacity → ∃ f : Frame, r.machine.frames.toList = [f] ∧ f.returnAddress = 0
  /-- As long as the frames are these, variables can be read and stored. -/
  lookups : 0 < c.frameCapacity → ∀ m : Machine, m.frames = r.machine.frames →
    (∀ id, ∃ v, Exec.load id m = .ok v m) ∧ ∀ id v, ∃ m', Exec.store id v m = .ok () m'
  /-- An underflow is one of the operand stack, which is found empty. -/
  underflow : 0 < c.frameCapacity → ∀ ip, r.result = some (.error (.stackUnderflow ip)) →
    r.machine.stack.toList = []
  /-- An overflow is one of the operand stack, which is found full. -/
  overflow : 0 < c.frameCapacity → ∀ ip capacity,
    r.result = some (.error (.stackOverflow ip capacity)) →
      capacity = c.stackCapacity ∧ r.machine.stack.toList.length = c.stackCapacity
  /-- Without room for the top-level frame, the run is over before its first turn. -/
  refused : c.frameCapacity = 0 → r = p.run c 0 ∧
    r.result = some (.error (.stackOverflow 0 0)) ∧ r.machine.ip = 0 ∧ r.machine.steps = 0 ∧
      r.events = #[]

/-- **Every run is safe at every moment**, whatever the program and the limits. -/
theorem safeAt_run (p : Program) (c : Config) (n : Nat) : p.SafeAt c (p.run c n) := by
  rcases Nat.eq_zero_or_pos c.frameCapacity with hc | hc
  · have hend := (ended_run_zero_iff p c).mpr hc
    have hpos : ¬0 < c.frameCapacity := by omega
    rw [run_of_ended hend (Nat.zero_le n), run_zero_of_no_room hc]
    refine ⟨Nat.zero_le _, rfl, rfl, fun limit _ => Nat.zero_le limit, fun h => absurd h hpos,
      fun h => absurd h hpos, fun h => absurd h hpos, fun h => absurd h hpos, fun _ => ?_⟩
    exact ⟨(run_zero_of_no_room hc).symm, rfl, rfl, rfl, rfl⟩
  · have hruns := runs_run (p := p) hc n
    refine ⟨?_, hruns.program, hruns.config, hruns.steps, fun _ => hruns.frame, fun _ m hm => ?_,
      fun _ ip => toList_of_underflow hc, fun _ ip capacity => length_of_overflow hc,
      fun h => absurd h (Nat.ne_of_gt hc)⟩
    · rw [← hruns.ceiling]
      exact BoundedStack.length_le_capacity _
    · obtain ⟨f, hf, -⟩ := hruns.frame
      rw [← hm] at hf
      exact ⟨fun id => ⟨f.load id, Exec.load_eq_ok_iff.mpr ⟨[], f, hf, rfl, rfl⟩⟩,
        fun id v => ⟨_, Exec.store_eq_ok_iff.mpr ⟨[], f, hf, rfl⟩⟩⟩

end Program

end StackMachine
