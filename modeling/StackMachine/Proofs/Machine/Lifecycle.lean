import StackMachine.Proofs.Machine.Trace

/-!
# The life of a session

A session can be asked to run any number of times, and does so once. The first call that
comes back has brought its machine to one of the two ends, and which one it is is what the
call returns; every call after it is refused and changes nothing at all, for a refused call
does not get as far as the journal. That the first call may have failed before anything was
fetched makes no difference: the machine has left its initial state by then.

The invariant is on the machine of the run, `StackMachine.Program.status_run`: its status
and the result of the run always say the same. It is what makes the half-started machine an
ordinary case, for there the frame stack is full and the status is `faulted` all the same.

* `StackMachine.Session.Calls` – a sequence of calls, all of which have come back;
* `StackMachine.Session.seenAfter_calls` – **what is seen between the calls**.
-/

namespace StackMachine

/-! ### The machine and the result of its run -/

/-- The status of a machine whose run has ended with the result. -/
def Result.status : Result → Status
  | .ok () => .halted
  | .error _ => .faulted

theorem Result.status_ne_running (result : Result) : result.status ≠ .running := by
  rcases result with _ | _ <;> rintro ⟨⟩

theorem Result.status_ne_ready (result : Result) : result.status ≠ .ready := by
  rcases result with _ | _ <;> rintro ⟨⟩

theorem Result.eq_ok_iff {result : Result} : result = .ok () ↔ result.status = .halted := by
  rcases result with _ | _
  · exact iff_of_false (by rintro ⟨⟩) (by rintro ⟨⟩)
  · exact iff_of_true rfl rfl

theorem Result.eq_error_iff {result : Result} :
    (∃ e, result = .error e) ↔ result.status = .faulted := by
  rcases result with e | _
  · exact iff_of_true ⟨e, rfl⟩ rfl
  · exact iff_of_false (by rintro ⟨_, ⟨⟩⟩) (by rintro ⟨⟩)

/-- A rule of an opcode leaves the status as it is, or halts the machine. -/
theorem Dispatch.status {m m' : Machine} {emitted : Option String} (h : Dispatch m emitted m') :
    m'.status = m.status ∨ m'.status = .halted := by
  cases h with
  | halt => exact Or.inr rfl
  | _ => exact Or.inl rfl

/-- **A turn that ends the run leaves the status that its result tells.** -/
theorem Machine.status_turn {m : Machine} {result : Result} (hrunning : m.status = .running)
    (h : m.turn.result = some result) : m.turn.machine.status = result.status := by
  rcases hs : Exec.step m with ⟨event, n⟩ | ⟨e, n⟩
  · rw [turn_of_step_ok hs] at h ⊢
    by_cases hn : n.status = .running
    · simp only [if_pos hn] at h
      cases h
    · simp only [if_neg hn] at h
      cases h
      rcases (Exec.dispatch_of_step hs).2.status with hstatus | hstatus
      · exact absurd (hstatus.trans hrunning) hn
      · exact hstatus
  · rw [turn_of_step_error hs] at h ⊢
    cases h
    rfl

/-- **A run that has ended leaves the status that its result tells**, also when it has ended
before its first turn. -/
theorem Program.status_run {p : Program} {c : Config} {n : Nat} {result : Result}
    (h : (p.run c n).result = some result) : (p.run c n).machine.status = result.status := by
  have hend : p.Ends c (p.run c n) := ⟨by rw [h]; rfl, n, rfl⟩
  rcases hend.start_or_next with ⟨hzero, hrun⟩ | ⟨j, hj, hrun, -⟩
  · have hroom := (ended_run_zero_iff p c).mp hzero
    rw [hrun, run_zero_of_no_room hroom] at h ⊢
    cases h
    rfl
  · rw [hrun] at h ⊢
    exact Machine.status_turn (running_of_going hj) h

/-! ### Calls -/

namespace Session

variable {first s s' : Session} {results : List Result} {result : Result} {fuel : Nat}

/-- **Calls of a session to run**, one after the other, with what they have returned. There
is no call that has not come back, since nothing can be seen of the session until then. -/
inductive Calls (first : Session) : List Result → Session → Prop
  | nil : Calls first [] first
  | concat {results : List Result} {result : Result} {s s' : Session} {fuel : Nat}
      (h : Calls first results s) (hrun : s.run fuel = (some result, s')) :
    Calls first (results ++ [result]) s'

/-- A session whose machine is not ready refuses to run and stays as it is. -/
theorem run_of_not_ready (h : s.machine.status ≠ .ready) (fuel : Nat) :
    s.run fuel = (some (.error .alreadyRun), s) := by
  rw [run, start, if_neg h]

/-- **A call that comes back** has brought the machine to the end that it tells. -/
theorem status_of_run {p : Program} {c : Config} (hmachine : s.machine = .load p c)
    (hrun : s.run fuel = (some result, s')) : s'.machine.status = result.status := by
  obtain ⟨hresult, hrun', -⟩ := tells_run s fuel
  rw [hrun, hmachine] at hresult hrun'
  change s'.machine = (p.run c fuel).machine at hrun'
  rw [hrun']
  exact Program.status_run hresult.symm

/-- **What is seen of a session between its calls**, by the results of the calls so far. -/
structure SeenAfter (first : Session) (results : List Result) (s : Session) : Prop where
  /-- The machine is never seen running. -/
  settled : s.machine.status ≠ .running
  /-- Before the first call it is ready, and nothing has happened to it yet. -/
  fresh : results = [] → s = first ∧ s.machine.status = .ready ∧ s.machine.ip = 0 ∧
    s.machine.steps = 0 ∧ s.machine.stack.toList = [] ∧ s.machine.frames.toList = []
  /-- The first call tells which end the machine has come to. -/
  told : ∀ result later, results = result :: later →
    (result = .ok () ↔ s.machine.status = .halted) ∧
      ((∃ e, result = .error e) ↔ s.machine.status = .faulted)
  /-- All later calls were refused, and the session is still the one that the first call has
  left: machine, sink and journal. -/
  kept : ∀ result later, results = result :: later →
    (∀ r ∈ later, r = .error .alreadyRun) ∧ ∃ fuel, first.run fuel = (some result, s)
  /-- So will be the next one: it comes back at once, and leaves everything as it is. -/
  refuses : results ≠ [] → ∀ fuel, s.run fuel = (some (.error .alreadyRun), s)

/-- The first call that comes back. -/
theorem seenAfter_singleton {p : Program} {c : Config} (hmachine : first.machine = .load p c)
    (hrun : first.run fuel = (some result, s)) : SeenAfter first [result] s := by
  have hstatus := status_of_run hmachine hrun
  refine ⟨?_, ?_, ?_, ?_, ?_⟩
  · rw [hstatus]
    exact result.status_ne_running
  · intro hnil
    cases hnil
  · rintro _ _ ⟨⟩
    rw [hstatus]
    exact ⟨Result.eq_ok_iff, Result.eq_error_iff⟩
  · rintro _ _ ⟨⟩
    exact ⟨by simp, fuel, hrun⟩
  · exact fun _ => run_of_not_ready (by rw [hstatus]; exact result.status_ne_ready)

/-- Any later call: it is refused. -/
theorem SeenAfter.concat (h : SeenAfter first results s) (hne : results ≠ [])
    (hrun : s.run fuel = (some result, s')) : SeenAfter first (results ++ [result]) s' := by
  obtain ⟨r, later, rfl⟩ := List.exists_cons_of_ne_nil hne
  obtain ⟨rfl, rfl⟩ : result = .error .alreadyRun ∧ s' = s := by
    simpa [eq_comm] using (h.refuses hne fuel).symm.trans hrun
  refine ⟨h.settled, by simp, ?_, ?_, fun _ => h.refuses hne⟩
  · rintro _ _ ⟨⟩
    exact h.told _ _ rfl
  · rintro _ _ ⟨⟩
    obtain ⟨hlater, hleft⟩ := h.kept _ _ rfl
    refine ⟨fun q hq => ?_, hleft⟩
    rcases List.mem_append.mp hq with hq | hq
    · exact hlater q hq
    · exact List.mem_singleton.mp hq

/-- **A session runs once**, whatever its program and its limits, where its trace goes and
what is logged, and however often it is called. -/
theorem seenAfter_calls {p : Program} {c : Config} {sink : Sink} {journal : Journal}
    (h : Calls ⟨.load p c, sink, journal⟩ results s) :
    SeenAfter ⟨.load p c, sink, journal⟩ results s := by
  induction h with
  | nil =>
    refine ⟨by rintro ⟨⟩, fun _ => ⟨rfl, rfl, rfl, rfl, rfl, rfl⟩, ?_, ?_, ?_⟩
    · rintro _ _ ⟨⟩
    · rintro _ _ ⟨⟩
    · exact fun hne => absurd rfl hne
  | @concat results _ _ _ _ hcalls hrun ih =>
    rcases eq_or_ne results [] with rfl | hne
    · obtain ⟨rfl, -⟩ := ih.fresh rfl
      exact seenAfter_singleton rfl hrun
    · exact ih.concat hne hrun

/-- A session without room for a frame, called three times: the first call fails before
anything is fetched, and the others are refused. -/
theorem seenAfter_calls_no_room :
    let s : Session := ⟨.load (.ofList [Instruction.halt.opcode]) { frameCapacity := 0 },
      .buffer #[], { threshold := .debug }⟩
    let results : List Result :=
      [.error (.stackOverflow 0 0), .error .alreadyRun, .error .alreadyRun]
    Calls s results (s.run 0).2 ∧ SeenAfter s results (s.run 0).2 := by
  intro s results
  have hfirst : s.run 0 = (some (.error (.stackOverflow 0 0)), (s.run 0).2) := rfl
  have hlater : (s.run 0).2.run 0 = (some (.error .alreadyRun), (s.run 0).2) := rfl
  have hcalls : Calls s results (s.run 0).2 :=
    ((Calls.nil.concat hfirst).concat hlater).concat hlater
  exact ⟨hcalls, seenAfter_calls hcalls⟩

end Session

end StackMachine
