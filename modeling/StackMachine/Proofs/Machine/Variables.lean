import Mathlib.Data.List.Dedup
import StackMachine.Proofs.Machine.History
import Std.Data.TreeMap.Lemmas

/-!
# What a variable holds

A run has one frame, and only a `STORE` that is carried out changes it. So the variables at
any moment of a run are what the stores of its history have left: a variable holds what was
stored under its name last, or zero, and there are as many variables as names. It does not
matter how the run has come from one store to the next, nor what a name looks like.

The relation that a turn keeps is `StackMachine.Frame.Holds`, between the frame and the list
of the stores so far. A `STORE` that fails, for want of a name or of a value, is in the
history but not among the stores; that it leaves the frame as it was is what
`StackMachine.Program.DispatchesAt.carried_or_failed` is about.

* `StackMachine.Program.stores` – the stores of the first turns;
* `StackMachine.Program.holds_run` – the variables at any moment of a run;
* `StackMachine.Program.variablesFollow` – **every variable follows its stores**.
-/

namespace StackMachine

/-! ### Stores -/

/-- What was stored last under a name, in a list of stores. The latest is at its end. -/
def lastStored (stores : List (Word × Word)) (id : Word) : Option Word :=
  stores.reverse.lookup id

theorem lastStored_append (stores : List (Word × Word)) (id value x : Word) :
    lastStored (stores ++ [(id, value)]) x =
      if x = id then some value else lastStored stores x := by
  rw [lastStored, List.reverse_append, List.reverse_singleton, List.singleton_append,
    List.lookup_cons]
  by_cases h : x = id
  · rw [if_pos h, beq_iff_eq.mpr h]
  · rw [if_neg h, beq_false_of_ne h, lastStored]

/-- **What a dispatched word stores**, as a name and a value: a `STORE` that is carried out
stores the value that it has popped, under the name behind it. -/
def Dispatched.stored? (d : Dispatched) : Option (Word × Word) :=
  if d.word = Instruction.store.opcode ∧ d.completed = true then
    d.next.bind fun id => d.operands.getLast?.map fun value => (id, value)
  else none

/-- **The stores of the first turns**, in order. -/
def Program.stores (p : Program) (c : Config) (n : Nat) : List (Word × Word) :=
  (p.history c n).filterMap Dispatched.stored?

/-! ### Frames

A frame is a function from words to words that is zero but for the variables that were
stored: a variable reads as what was stored there last. It also knows which ones these are,
and so counts them, each once. -/

namespace Frame

/-- In a new frame every variable is zero. -/
@[simp] theorem load_new (returnAddress : Nat) (id : Word) :
    ({ returnAddress } : Frame).load id = 0 :=
  Std.TreeMap.getD_emptyc

/-- **A variable reads as what was stored there last**, and storing one leaves the others
as they are. -/
theorem load_store (f : Frame) (id value x : Word) :
    (f.store id value).load x = if x = id then value else f.load x := by
  have hcompare : compare id x = .eq ↔ x = id := by
    rw [Std.LawfulEqCmp.compare_eq_iff_eq, eq_comm]
  rw [load, store, Std.TreeMap.getD_insert]
  simp only [hcompare]
  rfl

/-- No variable of a new frame was stored. -/
theorem not_mem_values_new (returnAddress : Nat) (id : Word) :
    id ∉ ({ returnAddress } : Frame).values :=
  Std.TreeMap.not_mem_emptyc

theorem mem_values_store (f : Frame) (id value x : Word) :
    x ∈ (f.store id value).values ↔ x ∈ f.values ∨ x = id := by
  rw [store, Std.TreeMap.mem_insert, Std.LawfulEqCmp.compare_eq_iff_eq, eq_comm, or_comm]

/-- A list that names every variable once is as long as the frame counts. -/
theorem count_eq_length {f : Frame} {ids : List Word} (hnodup : ids.Nodup)
    (h : ∀ id, id ∈ f.values ↔ id ∈ ids) : f.count = ids.length := by
  have hkeys : f.values.keys.Perm ids :=
    (List.perm_ext_iff_of_nodup Std.TreeMap.nodup_keys hnodup).mpr fun id =>
      Std.TreeMap.mem_keys.trans (h id)
  rw [count, ← Std.TreeMap.length_keys, hkeys.length_eq]

/-- **The frame holds what the stores have left.** -/
structure Holds (f : Frame) (stores : List (Word × Word)) : Prop where
  load : ∀ id, f.load id = (lastStored stores id).getD 0
  named : ∀ id, id ∈ f.values ↔ id ∈ stores.map Prod.fst

theorem holds_new (returnAddress : Nat) : ({ returnAddress } : Frame).Holds [] where
  load := load_new returnAddress
  named id := iff_of_false (not_mem_values_new returnAddress id) List.not_mem_nil

variable {f : Frame} {stores : List (Word × Word)}

/-- One more store. -/
theorem Holds.store (h : f.Holds stores) (id value : Word) :
    (f.store id value).Holds (stores ++ [(id, value)]) where
  load x := by
    rw [load_store, lastStored_append, h.load]
    split <;> rfl
  named x := by
    rw [mem_values_store, h.named, List.map_append, List.mem_append, List.map_singleton,
      List.mem_singleton]

/-- **There are as many variables as names.** -/
theorem Holds.count (h : f.Holds stores) : f.count = (stores.map Prod.fst).dedup.length :=
  count_eq_length (List.nodup_dedup _) fun id => (h.named id).trans List.mem_dedup.symm

end Frame

/-! ### Rules -/

namespace Dispatch

variable {m m' : Machine} {emitted : Option String}

/-- No rule but that of `STORE` touches the frames. -/
theorem frames_of_not_store (h : Dispatch m emitted m') (hno : ¬m.At .store) :
    m'.frames = m.frames := by
  cases h with
  | store hi => exact absurd hi hno
  | _ => rfl

/-- What the rule of `STORE` does. -/
theorem of_store (h : Dispatch m emitted m') (hi : m.At .store) :
    ∃ id fs f s value, m.program.get? (m.ip + 1) = some id ∧ m.frames.toList = fs ++ [f] ∧
      m.stack.toList = s ++ [value] ∧ m'.stack.toList = s ∧
      m'.frames.toList = fs ++ [f.store id value] := by
  cases h with
  | store _ hid hf hs => exact ⟨_, _, _, _, _, hid, hf, hs, by simp, by simp⟩
  | unknown hw hno => exact absurd (Option.some.inj (hw.symm.trans hi)) (hno _)
  | binary hj _ hn =>
    obtain rfl := hj.unique hi
    cases hn
  | nop hj | halt hj | push hj | dup hj | load hj | pop hj | print hj | not hj | jump hj
  | jumpIf hj | stay hj => cases hj.unique hi

/-- What the rule of `LOAD` does. -/
theorem of_load (h : Dispatch m emitted m') (hi : m.At .load) :
    ∃ id fs f, m.program.get? (m.ip + 1) = some id ∧ m.frames.toList = fs ++ [f] ∧
      m'.stack.toList = m.stack.toList ++ [f.load id] := by
  cases h with
  | load _ hid hf => exact ⟨_, _, _, hid, hf, by simp⟩
  | unknown hw hno => exact absurd (Option.some.inj (hw.symm.trans hi)) (hno _)
  | binary hj _ hn =>
    obtain rfl := hj.unique hi
    cases hn
  | nop hj | halt hj | push hj | dup hj | store hj | pop hj | print hj | not hj | jump hj
  | jumpIf hj | stay hj => cases hj.unique hi

end Dispatch

/-- The current frame is the one on top. -/
theorem Machine.currentFrame?_eq (m : Machine) : m.currentFrame? = m.frames.toList.getLast? := by
  rw [currentFrame?, BoundedStack.toList, List.getLast?_reverse]

/-! ### Turns -/

namespace Program

variable {p : Program} {c : Config} {n : Nat} {d : Dispatched}

/-- **A dispatched word is carried out by a rule, or leaves the frames as they are.** -/
theorem DispatchesAt.carried_or_failed (h : p.DispatchesAt c n d) :
    (d.completed = true ∧
        ∃ emitted, Dispatch (p.run c n).machine emitted (p.run c (n + 1)).machine) ∨
      d.completed = false ∧ (p.run c (n + 1)).machine.frames = (p.run c n).machine.frames := by
  have hcompleted := h.completed
  rw [run_succ_of_going h.going] at hcompleted ⊢
  rcases hs : Exec.step (p.run c n).machine with ⟨event, m⟩ | ⟨e, m⟩
  · have hturn := Machine.turn_of_step_ok hs
    refine Or.inl ⟨?_, event.map Event.text, ?_⟩
    · rw [hcompleted, Bool.not_eq_true', Bool.eq_false_iff, Ne, Run.failed_iff, Run.next, hturn]
      rintro ⟨e, he⟩
      split at he <;> cases he
    · rw [Run.next, hturn]
      exact (Exec.dispatch_of_step hs).2
  · have hturn := Machine.turn_of_step_error hs
    obtain ⟨_, _, -, hleft⟩ := Exec.fault_of_step (runs_of_going h.going).frames_ne_nil hs
    refine Or.inr ⟨?_, ?_⟩
    · rw [hcompleted, Bool.not_eq_false', Run.failed_iff, Run.next, hturn]
      exact ⟨e, rfl⟩
    · rw [Run.next, hturn]
      exact hleft.frames

/-- The machine that dispatches an opcode is at its instruction. -/
theorem DispatchesAt.at {i : Instruction} (h : p.DispatchesAt c n d) (hi : d.word = i.opcode) :
    (p.run c n).machine.At i :=
  h.word.trans (congrArg some hi)

theorem stores_succ (p : Program) (c : Config) (n : Nat) :
    p.stores c (n + 1) = p.stores c n ++ ((p.dispatched? c n).bind Dispatched.stored?).toList :=
  filterMap_history_succ Dispatched.stored? p c n

/-- What a turn does that stores nothing. -/
structure StoresNothing (p : Program) (c : Config) (n : Nat) : Prop where
  stores : p.stores c (n + 1) = p.stores c n
  frames : (p.run c (n + 1)).machine.frames = (p.run c n).machine.frames

/-- A `STORE` that fails stores nothing. -/
theorem DispatchesAt.storesNothing_of_failed (h : p.DispatchesAt c n d)
    (hfailed : d.completed = false) : p.StoresNothing c n := by
  refine ⟨?_, ?_⟩
  · rw [stores_succ, dispatched?_eq_some_iff.mpr h, Option.bind_some, Dispatched.stored?,
      if_neg (by simp [hfailed]), Option.toList_none, List.append_nil]
  · rcases h.carried_or_failed with ⟨hdone, -⟩ | ⟨-, hframes⟩
    · rw [hfailed] at hdone
      cases hdone
    · exact hframes

/-- **A turn that dispatches no `STORE` stores nothing.** -/
theorem storesNothing (h : ∀ d, p.dispatched? c n = some d → d.word ≠ Instruction.store.opcode) :
    p.StoresNothing c n := by
  rcases hd : p.dispatched? c n with _ | d
  · refine ⟨?_, (idle_of_not_dispatched hd).frames⟩
    rw [stores_succ, hd, Option.bind_none, Option.toList_none, List.append_nil]
  · have hat := dispatched?_eq_some_iff.mp hd
    have hne := h d hd
    rcases hat.carried_or_failed with ⟨-, emitted, hrule⟩ | ⟨hfailed, -⟩
    · refine ⟨?_, hrule.frames_of_not_store ?_⟩
      · rw [stores_succ, hd, Option.bind_some, Dispatched.stored?, if_neg fun hs => hne hs.1,
          Option.toList_none, List.append_nil]
      · intro hstore
        exact hne (Option.some.inj (hat.word.symm.trans hstore))
    · exact hat.storesNothing_of_failed hfailed

/-- What a `STORE` does that is carried out. -/
structure StoresAt (p : Program) (c : Config) (n : Nat) (d : Dispatched) (id value : Word) :
    Prop where
  name : d.next = some id
  /-- The value is the operand on top, and is popped. -/
  popped : d.operands = (p.run c (n + 1)).machine.stack.toList ++ [value]
  stores : p.stores c (n + 1) = p.stores c n ++ [(id, value)]
  frames : ∃ fs f, (p.run c n).machine.frames.toList = fs ++ [f] ∧
    (p.run c (n + 1)).machine.frames.toList = fs ++ [f.store id value]

theorem DispatchesAt.exists_storesAt (h : p.DispatchesAt c n d)
    (hstore : d.word = Instruction.store.opcode) (hdone : d.completed = true) :
    ∃ id value, p.StoresAt c n d id value := by
  rcases h.carried_or_failed with ⟨-, emitted, hrule⟩ | ⟨hfailed, -⟩
  · obtain ⟨id, fs, f, s, value, hid, hf, hs, hs', hf'⟩ := hrule.of_store (h.at hstore)
    have hname := h.next.symm.trans hid
    have hpopped : d.operands = s ++ [value] := h.operands.symm.trans hs
    refine ⟨id, value, hname, ?_, ?_, fs, f, hf, hf'⟩
    · rw [hs', hpopped]
    · rw [stores_succ, dispatched?_eq_some_iff.mpr h, Option.bind_some, Dispatched.stored?,
        if_pos ⟨hstore, hdone⟩, hname, hpopped, List.getLast?_concat]
      rfl
  · rw [hdone] at hfailed
    cases hfailed

/-- **A turn stores one variable, or none.** -/
theorem exists_storesAt_or_storesNothing (p : Program) (c : Config) (n : Nat) :
    (∃ d id value, p.StoresAt c n d id value) ∨ p.StoresNothing c n := by
  by_cases hstore : ∃ d, p.dispatched? c n = some d ∧ d.word = Instruction.store.opcode
  · obtain ⟨d, hd, hword⟩ := hstore
    have hat := dispatched?_eq_some_iff.mp hd
    rcases hdone : d.completed with _ | _
    · exact Or.inr (hat.storesNothing_of_failed hdone)
    · exact Or.inl ⟨d, hat.exists_storesAt hword hdone⟩
  · exact Or.inr (storesNothing fun d hd hword => hstore ⟨d, hd, hword⟩)

/-! ### Runs -/

/-- **The variables at any moment of a run** are what its stores have left. -/
theorem holds_run (hc : 0 < c.frameCapacity) (n : Nat) :
    ∃ f, (p.run c n).machine.frames.toList = [f] ∧ f.Holds (p.stores c n) := by
  induction n with
  | zero =>
    rw [run_zero_of_room hc]
    exact ⟨_, rfl, Frame.holds_new 0⟩
  | succ n ih =>
    obtain ⟨f, hf, hholds⟩ := ih
    rcases p.exists_storesAt_or_storesNothing c n with ⟨d, id, value, hat⟩ | hnothing
    · obtain ⟨fs, g, hg, hframes⟩ := hat.frames
      obtain ⟨rfl, rfl⟩ : fs = [] ∧ g = f := by
        rw [hf, eq_comm, List.append_eq_singleton_iff] at hg
        simpa using hg
      refine ⟨_, hframes, ?_⟩
      rw [hat.stores]
      exact hholds.store id value
    · rw [hnothing.stores, hnothing.frames]
      exact ⟨f, hf, hholds⟩

/-- The frame that a program reads and writes holds what the stores have left. -/
theorem holds_of_currentFrame? {f : Frame}
    (hf : (p.run c n).machine.currentFrame? = some f) : f.Holds (p.stores c n) := by
  rcases Nat.eq_zero_or_pos c.frameCapacity with hc | hc
  · -- There is no frame at all.
    have hended := (ended_run_zero_iff p c).mpr hc
    rw [run_of_ended hended (Nat.zero_le n), run_zero_of_no_room hc] at hf
    cases hf
  · obtain ⟨g, hg, hholds⟩ := holds_run (p := p) hc n
    rw [Machine.currentFrame?_eq, hg] at hf
    obtain rfl : g = f := Option.some.inj hf
    exact hholds

/-- **The variables of a run follow its stores**, at the given turn. -/
structure VariablesFollow (p : Program) (c : Config) (n : Nat) : Prop where
  /-- A turn dispatches a word exactly when the run goes on, the budget allows it and there is
  one, and the history remembers what it found. -/
  dispatches : ∀ j d, p.dispatched? c j = some d ↔ p.DispatchesAt c j d
  /-- There is a frame as soon as there is room for one. -/
  frame : 0 < c.frameCapacity → ∃ f, (p.run c n).machine.currentFrame? = some f
  /-- A variable holds what was stored under its name last, and zero if nothing was. -/
  value : ∀ f, (p.run c n).machine.currentFrame? = some f →
    ∀ id, f.load id = (lastStored (p.stores c n) id).getD 0
  /-- There are as many variables as names that something was stored under. -/
  count : ∀ f, (p.run c n).machine.currentFrame? = some f →
    f.count = ((p.stores c n).map Prod.fst).dedup.length
  /-- A `LOAD` that is carried out pushes what was stored last. -/
  load : ∀ d, p.dispatched? c n = some d → d.word = Instruction.load.opcode →
    d.completed = true → ∃ id, d.next = some id ∧
      (p.run c (n + 1)).machine.stack.toList =
        d.operands ++ [(lastStored (p.stores c n) id).getD 0]
  /-- A `STORE` that is carried out pops the value that it stores. -/
  store : ∀ d, p.dispatched? c n = some d → d.word = Instruction.store.opcode →
    d.completed = true → ∃ id value, d.next = some id ∧
      d.operands = (p.run c (n + 1)).machine.stack.toList ++ [value] ∧
      p.stores c (n + 1) = p.stores c n ++ [(id, value)]
  /-- A `STORE` without a name or without a value is not carried out, and stores nothing. -/
  refused : ∀ d, p.dispatched? c n = some d → d.word = Instruction.store.opcode →
    d.next = none ∨ d.operands = [] → d.completed = false ∧ p.StoresNothing c n
  /-- A turn that dispatches anything else stores nothing. -/
  others : (∀ d, p.dispatched? c n = some d → d.word ≠ Instruction.store.opcode) →
    p.StoresNothing c n

/-- **Every variable follows its stores**, in all runs and at every turn. -/
theorem variablesFollow (p : Program) (c : Config) (n : Nat) : p.VariablesFollow c n where
  dispatches _ _ := dispatched?_eq_some_iff
  frame hc := by
    obtain ⟨f, hf, -⟩ := holds_run (p := p) hc n
    refine ⟨f, ?_⟩
    rw [Machine.currentFrame?_eq, hf, List.getLast?_singleton]
  value f hf := (holds_of_currentFrame? hf).load
  count f hf := (holds_of_currentFrame? hf).count
  load d hd hload hdone := by
    have hat := dispatched?_eq_some_iff.mp hd
    rcases hat.carried_or_failed with ⟨-, emitted, hrule⟩ | ⟨hfailed, -⟩
    · obtain ⟨id, fs, f, hid, hf, hs⟩ := hrule.of_load (hat.at hload)
      have hcurrent : (p.run c n).machine.currentFrame? = some f := by
        rw [Machine.currentFrame?_eq, hf, List.getLast?_concat]
      have hvalue := (holds_of_currentFrame? hcurrent).load id
      refine ⟨id, hat.next.symm.trans hid, ?_⟩
      rw [hs, hat.operands, hvalue]
    · rw [hdone] at hfailed
      cases hfailed
  store d hd hstore hdone := by
    obtain ⟨id, value, h⟩ := (dispatched?_eq_some_iff.mp hd).exists_storesAt hstore hdone
    exact ⟨id, value, h.name, h.popped, h.stores⟩
  refused d hd hstore hwant := by
    have hat := dispatched?_eq_some_iff.mp hd
    have hfailed : d.completed = false := by
      by_contra hdone
      obtain ⟨id, value, h⟩ := hat.exists_storesAt hstore (Bool.not_eq_false _ ▸ hdone)
      rcases hwant with hwant | hwant
      · rw [h.name] at hwant
        cases hwant
      · rw [h.popped] at hwant
        exact List.append_ne_nil_of_right_ne_nil _ (List.cons_ne_nil _ _) hwant
    exact ⟨hfailed, hat.storesNothing_of_failed hfailed⟩
  others := storesNothing

end Program

end StackMachine
