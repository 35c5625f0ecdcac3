import StackMachine.Proofs.Command.Settings

/-!
# The answers of the runner

Everything a runner answers, for any arguments and any files. A command can end before there
is a machine to run, and then its answer is one of three: nothing and success for a call for
help, nothing and failure for arguments that are refused and files that are not loaded, and
the listing. Otherwise it is the run that answers, with a line for each of its events, and it
does not matter whether the run has halted or faulted but for the exit code.

Which of these it is does not depend on how the arguments are read:
`StackMachine.Command.Runner.AsksHelp` and `StackMachine.Command.Runner.Loads` say it from the
arguments and the files alone.

* `StackMachine.Command.Runner.Prepares` – what there is before the run;
* `StackMachine.Command.Runner.answer?_eq` – once it is loaded, the file is of no matter;
* `StackMachine.Command.Runner.Succeeds` – when a command succeeds;
* `StackMachine.Command.Runner.answers` – **the answers of the runner**, in all cases.
-/

namespace StackMachine

namespace Command

namespace Runner

variable {fs : FileSystem} {program path : String} {arguments options : List String}
  {settings : List Setting} {p : Program} {fuel : Nat}

/-! ### Arguments -/

/-- **A command that calls for help**: in the place of the file, or behind options that are
well formed. -/
inductive AsksHelp : List String → Prop
  | first {help : String} {rest : List String} (hhelp : help ∈ helpNames) : AsksHelp (help :: rest)
  | later {path help : String} {before rest : List String} {settings : List Setting}
      (hsets : Sets before settings) (hhelp : help ∈ helpNames) :
    AsksHelp (path :: (before ++ help :: rest))

/-- **A command that loads a program**: all its options are well formed, and its file is
loaded in the form that they select. -/
inductive Loads (fs : FileSystem) : List String → List Setting → Program → Prop
  | intro {path : String} {options : List String} {settings : List Setting} {format : FileFormat}
      {p : Program} (hpath : path ∉ helpNames) (hsets : Sets options settings)
      (hselects : Selects path settings format) (hload : fs.loaded format path = .ok p) :
    Loads fs (path :: options) settings p

theorem readOptions_help {help : String} (h : help ∈ helpNames) (o : Options)
    (rest : List String) : readOptions o (help :: rest) = .usage 0 := by
  rcases List.mem_pair.mp h with rfl | rfl <;> rfl

theorem read_cons_of_help (h : path ∈ helpNames) : read (path :: options) = .usage 0 := by
  rw [read, if_pos (by simpa [helpNames, or_comm] using h)]

theorem read_cons_of_not_help (h : path ∉ helpNames) :
    read (path :: options) = readOptions { path } options := by
  rw [read, if_neg (by simpa [helpNames, and_comm] using h)]

theorem AsksHelp.read_eq (h : AsksHelp arguments) : read arguments = .usage 0 := by
  cases h with
  | first hhelp => exact read_cons_of_help hhelp
  | @later path _ _ _ _ hsets hhelp =>
    by_cases hpath : path ∈ helpNames
    · exact read_cons_of_help hpath
    · rw [read_cons_of_not_help hpath, hsets.readOptions_append, readOptions_help hhelp]

theorem Sets.read_eq (h : Sets options settings) (hpath : path ∉ helpNames) :
    read (path :: options) = .run (settings.foldl Options.set { path }) := by
  rw [read_cons_of_not_help hpath, ← List.append_nil options, h.readOptions_append]
  rfl

/-- **What arguments come to**: a call for help, a file and its options, or a failure. -/
theorem read_cases (arguments : List String) :
    AsksHelp arguments ∨
      (∃ path options settings, arguments = path :: options ∧ path ∉ helpNames ∧
        Sets options settings) ∨
      read arguments = .usage 1 ∨ ∃ refusal, read arguments = .refused refusal := by
  rcases arguments with _ | ⟨path, options⟩
  · exact Or.inr (Or.inr (Or.inl rfl))
  · by_cases hpath : path ∈ helpNames
    · exact Or.inl (.first hpath)
    · rcases scan options with ⟨settings, hsets⟩ |
        ⟨before, settings, help, rest, rfl, hsets, hhelp⟩ | ⟨refusal, hrefused⟩
      · exact Or.inr (Or.inl ⟨path, options, settings, rfl, hpath, hsets⟩)
      · exact Or.inl (.later hsets hhelp)
      · refine Or.inr (Or.inr (Or.inr ⟨refusal, ?_⟩))
        rw [read_cons_of_not_help hpath, hrefused]

/-! ### Before the run -/

/-- **What a command has prepared** when its file is loaded and its settings are known: a
failure, the listing, or a machine that is ready to run. -/
inductive Prepares (loaded : Except Error Program) (settings : List Setting) : Prepared → Prop
  | refused {outcome : Outcome} {e : Error} (hloaded : loaded = .error e)
      (hanswer : outcome.answer = (1, "")) : Prepares loaded settings (.finished outcome)
  | listed {outcome : Outcome} {p : Program} (hloaded : loaded = .ok p)
      (hlisting : .listing ∈ settings) (hanswer : outcome.answer = (0, p.listing)) :
    Prepares loaded settings (.finished outcome)
  | ready {journal : Journal} {p : Program} (hloaded : loaded = .ok p)
      (hlisting : .listing ∉ settings) :
    Prepares loaded settings (.session ⟨.load p (limits settings), .stdout "", journal⟩)

/-- A program that is to be listed is listed, and not run. -/
theorem Prepares.finished_of_listing {prepared : Prepared}
    (h : Prepares (.ok p) settings prepared) (hlisting : .listing ∈ settings) :
    ∃ outcome : Outcome, outcome.answer = (0, p.listing) ∧ prepared = .finished outcome := by
  cases h with
  | refused hloaded => cases hloaded
  | listed hloaded _ hanswer =>
    cases hloaded
    exact ⟨_, hanswer, rfl⟩
  | ready _ hrun => exact absurd hlisting hrun

/-- Any other program is run. -/
theorem Prepares.session_of_not_listing {prepared : Prepared}
    (h : Prepares (.ok p) settings prepared) (hlisting : .listing ∉ settings) :
    ∃ journal, prepared = .session ⟨.load p (limits settings), .stdout "", journal⟩ := by
  cases h with
  | refused hloaded => cases hloaded
  | listed _ hlist => exact absurd hlist hlisting
  | ready hloaded =>
    cases hloaded
    exact ⟨_, rfl⟩

/-- Without a program there is a failure. -/
theorem Prepares.finished_of_not_loaded {loaded : Except Error Program} {prepared : Prepared}
    (h : Prepares loaded settings prepared) (hno : ∀ p, loaded ≠ .ok p) :
    ∃ outcome : Outcome, outcome.answer = (1, "") ∧ prepared = .finished outcome := by
  cases h with
  | refused _ hanswer => exact ⟨_, hanswer, rfl⟩
  | listed hloaded => exact absurd hloaded (hno _)
  | ready hloaded => exact absurd hloaded (hno _)

/-- What a command answers that has tried to load a program: a failure if there is none, and
what the program answers otherwise. -/
def answerTo? (settings : List Setting) (fuel : Nat) :
    Except Error Program → Option (Nat × String)
  | .error _ => some (1, "")
  | .ok p => p.answer? (limits settings) (decide (.listing ∈ settings)) fuel

/-- **What was prepared tells the answer.** -/
theorem Prepares.answer?_eq {loaded : Except Error Program}
    (h : Prepares loaded settings ((prepare FileSystem.host program arguments).run fs).1)
    (fuel : Nat) : answer? fs fuel program arguments = answerTo? settings fuel loaded := by
  generalize hprepare : ((prepare FileSystem.host program arguments).run fs).1 = prepared at h
  cases h with
  | refused hloaded hanswer =>
    rw [answer?_of_finished hprepare, hanswer, hloaded, answerTo?]
  | listed hloaded hlisting hanswer =>
    rw [answer?_of_finished hprepare, hanswer, hloaded, answerTo?, Program.answer?,
      if_pos (decide_eq_true hlisting)]
  | ready hloaded hlisting =>
    rw [answer?_of_session hprepare, hloaded, answerTo?, decide_eq_false hlisting]
    exact answer_conclude _ _ _ fuel

/-- **Whatever a command has prepared** depends on its settings and on what its file is
loaded as. -/
theorem prepares {format : FileFormat} (hpath : path ∉ helpNames) (hsets : Sets options settings)
    (hselects : Selects path settings format) (fs : FileSystem) (program : String) :
    Prepares (fs.loaded format path) settings
      ((prepare FileSystem.host program (path :: options)).run fs).1 := by
  have hlisting := listing_foldl_set settings { path }
  have hconfig := config_foldl_set settings path
  have hname := path_foldl_set settings { path }
  have hformat := selects_iff.mp hselects
  rw [prepare, hsets.read_eq hpath]
  generalize settings.foldl Options.set { path } = o at hlisting hconfig hname hformat
  obtain ⟨journal, hrun⟩ :=
    fs.run_load format { threshold := if o.quiet then .error else .info } path
  simp only [prepareRun, hname, hformat, StateT.run_bind, hrun, pure_bind]
  rcases fs.loaded format path with e | p
  · exact .refused rfl rfl
  · rcases hlist : o.listing with _ | _
    · rw [hconfig]
      exact .ready rfl (by simpa [hlist] using hlisting)
    · exact .listed rfl (by simpa [hlist] using hlisting) rfl

theorem Loads.prepares (h : Loads fs arguments settings p) (program : String) :
    Prepares (.ok p) settings ((prepare FileSystem.host program arguments).run fs).1 := by
  obtain ⟨hpath, hsets, hselects, hload⟩ := h
  rw [← hload]
  exact Runner.prepares hpath hsets hselects fs program

/-- **A command that loads no program**, and does not call for help, fails. -/
theorem prepare_of_not_loads (hhelp : ¬AsksHelp arguments)
    (hload : ∀ settings p, ¬Loads fs arguments settings p) (program : String) :
    ∃ outcome : Outcome, outcome.answer = (1, "") ∧
      ((prepare FileSystem.host program arguments).run fs).1 = .finished outcome := by
  rcases read_cases arguments with h | ⟨path, options, settings, rfl, hpath, hsets⟩ | hread |
    ⟨refusal, hread⟩
  · exact absurd h hhelp
  · have hselects : Selects path settings _ := selects_iff.mpr rfl
    exact (prepares hpath hsets hselects fs program).finished_of_not_loaded
      fun p hloaded => hload settings p (.intro hpath hsets hselects hloaded)
  · rw [prepare, hread]
    exact ⟨_, rfl, rfl⟩
  · rw [prepare, hread]
    exact ⟨refusal.outcome program, by cases refusal <;> rfl, rfl⟩

/-! ### The answers -/

theorem AsksHelp.answer?_eq (h : AsksHelp arguments) (fs : FileSystem) (fuel : Nat)
    (program : String) : answer? fs fuel program arguments = some (0, "") := by
  have hprepare : ((prepare FileSystem.host program arguments).run fs).1 =
      .finished { exitCode := 0, notice := usage program } := by
    rw [prepare, h.read_eq]
    rfl
  exact answer?_of_finished hprepare fuel

/-- What a run has printed: a line for each of its events. -/
def printed (p : Program) (c : Config) (fuel : Nat) : String :=
  textOfLines ((p.run c fuel).events.toList.map Event.text)

theorem Loads.answer?_of_listing (h : Loads fs arguments settings p)
    (hlisting : .listing ∈ settings) (fuel : Nat) (program : String) :
    answer? fs fuel program arguments = some (0, p.listing) := by
  rw [(h.prepares program).answer?_eq, answerTo?]
  exact if_pos (decide_eq_true hlisting)

theorem Loads.answer?_of_not_listing (h : Loads fs arguments settings p)
    (hlisting : .listing ∉ settings) (fuel : Nat) (program : String) :
    answer? fs fuel program arguments = (p.run (limits settings) fuel).result.map
      fun result => (result.exitCode, printed p (limits settings) fuel) := by
  rw [(h.prepares program).answer?_eq, answerTo?, decide_eq_false hlisting]
  rfl

/-- A command that loads no program, and does not call for help, answers with a failure. -/
theorem answer?_of_not_loads (hhelp : ¬AsksHelp arguments)
    (hload : ∀ settings p, ¬Loads fs arguments settings p) (fuel : Nat) (program : String) :
    answer? fs fuel program arguments = some (1, "") := by
  obtain ⟨outcome, hanswer, hprepare⟩ := prepare_of_not_loads hhelp hload program
  rw [answer?_of_finished hprepare, hanswer]

/-- **The file is of no matter** once it is loaded, neither its name nor its form. -/
theorem answer?_eq (h : WellFormed options) :
    ∃ c listing, ∀ (fs : FileSystem) (fuel : Nat) (program path flag : String)
      (format : FileFormat), path ∉ helpNames → flags.lookup flag = some (.format format) →
        answer? fs fuel program (path :: flag :: options) =
          match fs.loaded format path with
          | .error _ => some (1, "")
          | .ok p => p.answer? c listing fuel := by
  obtain ⟨settings, hsets, hnone⟩ := h.exists_sets
  refine ⟨limits settings, decide (.listing ∈ settings),
    fun fs fuel program path flag format hpath hflag => ?_⟩
  have hall : Sets ([flag] ++ options) (.format format :: settings) :=
    .cons (names_of_lookup hflag) hsets
  have hselects : Selects path (.format format :: settings) format :=
    .told (by rw [last?_cons, hnone]; rfl)
  have hlisting : Setting.listing ∈ Setting.format format :: settings ↔ .listing ∈ settings := by
    simp
  have hanswer := (prepares hpath hall hselects fs program).answer?_eq fuel
  rw [List.singleton_append] at hanswer
  rw [hanswer]
  rcases fs.loaded format path with e | p
  · rfl
  · rw [answerTo?, decide_eq_decide.mpr hlisting]
    rfl

/-! ### Success -/

/-- **A command that succeeds**: it was asked for help, it has listed a program, or it has run
one that halts. -/
inductive Succeeds (fs : FileSystem) (arguments : List String) : Prop
  | help (h : AsksHelp arguments)
  | listed {settings : List Setting} {p : Program} (hload : Loads fs arguments settings p)
      (hlisting : .listing ∈ settings)
  | halted {settings : List Setting} {p : Program} {n : Nat}
      (hload : Loads fs arguments settings p) (hlisting : .listing ∉ settings)
      (hhalts : (p.run (limits settings) n).result = some (.ok ()))

theorem Succeeds.exitCode_eq {code : Nat} {output : String} (h : Succeeds fs arguments)
    (hanswer : answer? fs fuel program arguments = some (code, output)) : code = 0 := by
  cases h with
  | help h =>
    rw [h.answer?_eq] at hanswer
    exact (congrArg Prod.fst (Option.some.inj hanswer)).symm
  | listed hload hlisting =>
    rw [hload.answer?_of_listing hlisting] at hanswer
    exact (congrArg Prod.fst (Option.some.inj hanswer)).symm
  | halted hload hlisting hhalts =>
    rw [hload.answer?_of_not_listing hlisting, Option.map_eq_some_iff] at hanswer
    obtain ⟨result, hresult, heq⟩ := hanswer
    rw [Program.result_unique hresult hhalts] at heq
    exact (congrArg Prod.fst heq).symm

/-- **A command that has answered** has succeeded, or its exit code is one. -/
theorem exitCode_cases {code : Nat} {output : String}
    (hanswer : answer? fs fuel program arguments = some (code, output)) :
    Succeeds fs arguments ∨ code = 1 := by
  by_cases hhelp : AsksHelp arguments
  · exact Or.inl (.help hhelp)
  · by_cases hload : ∃ settings p, Loads fs arguments settings p
    · obtain ⟨settings, p, hload⟩ := hload
      by_cases hlisting : .listing ∈ settings
      · exact Or.inl (.listed hload hlisting)
      · rw [hload.answer?_of_not_listing hlisting, Option.map_eq_some_iff] at hanswer
        obtain ⟨result, hresult, heq⟩ := hanswer
        rcases result with e | ⟨⟩
        · exact Or.inr (congrArg Prod.fst heq).symm
        · exact Or.inl (.halted hload hlisting hresult)
    · have hno (settings : List Setting) (p : Program) : ¬Loads fs arguments settings p :=
        fun h => hload ⟨settings, p, h⟩
      rw [answer?_of_not_loads hhelp hno] at hanswer
      exact Or.inr (congrArg Prod.fst (Option.some.inj hanswer)).symm

/-! ### The whole command -/

/-- **What there is to know about the answers of a runner.** -/
structure Answers (fs : FileSystem) (program : String) (arguments : List String) : Prop where
  /-- A call for help is answered with nothing on the standard output. -/
  help : AsksHelp arguments → ∀ fuel, answer? fs fuel program arguments = some (0, "")
  /-- A program that is to be listed is listed, and there is no machine to run it. -/
  listed : ∀ settings p, Loads fs arguments settings p → .listing ∈ settings →
    (∀ s, ((prepare FileSystem.host program arguments).run fs).1 ≠ .session s) ∧
      ∀ fuel, answer? fs fuel program arguments = some (0, p.listing)
  /-- Any other program is run, and the answer is there when the run is over. It is what the
  run has printed, however the run has ended. -/
  ran : ∀ settings p, Loads fs arguments settings p → .listing ∉ settings → ∀ fuel,
    answer? fs fuel program arguments = (p.run (limits settings) fuel).result.map
      fun result => (result.exitCode, printed p (limits settings) fuel)
  /-- A run prints while it goes on, also when it never ends. -/
  running : ∀ settings p, Loads fs arguments settings p → .listing ∉ settings →
    ∃ s, ((prepare FileSystem.host program arguments).run fs).1 = .session s ∧
      ∀ fuel, (s.run fuel).2.sink = .stdout (printed p (limits settings) fuel)
  /-- Anything else is answered with nothing on the standard output as well. -/
  refused : ¬AsksHelp arguments → (∀ settings p, ¬Loads fs arguments settings p) → ∀ fuel,
    answer? fs fuel program arguments = some (1, "")
  /-- The exit code is zero exactly when the command succeeds, and one otherwise. -/
  exitCode : ∀ fuel code output, answer? fs fuel program arguments = some (code, output) →
    code = 0 ∧ Succeeds fs arguments ∨ code = 1 ∧ ¬Succeeds fs arguments

/-- **The answers of the runner**, to any arguments and with any files. -/
theorem answers (fs : FileSystem) (program : String) (arguments : List String) :
    Answers fs program arguments where
  help h fuel := h.answer?_eq fs fuel program
  listed settings p hload hlisting := by
    refine ⟨fun s hsession => ?_, fun fuel => hload.answer?_of_listing hlisting fuel program⟩
    obtain ⟨outcome, -, hfinished⟩ := (hload.prepares program).finished_of_listing hlisting
    rw [hfinished] at hsession
    cases hsession
  ran settings p hload hlisting fuel := hload.answer?_of_not_listing hlisting fuel program
  running settings p hload hlisting := by
    obtain ⟨journal, hprepare⟩ := (hload.prepares program).session_of_not_listing hlisting
    refine ⟨_, hprepare, fun fuel => ?_⟩
    obtain ⟨-, -, hsink⟩ := Session.tells_run ⟨.load p (limits settings), .stdout "", journal⟩ fuel
    rw [hsink, Sink.foldl_put_stdout, String.empty_append]
    rfl
  refused hhelp hload fuel := answer?_of_not_loads hhelp hload fuel program
  exitCode fuel code output hanswer := by
    by_cases h : Succeeds fs arguments
    · exact Or.inl ⟨h.exitCode_eq hanswer, h⟩
    · exact Or.inr ⟨(exitCode_cases hanswer).resolve_left h, h⟩

end Runner

end Command

end StackMachine
