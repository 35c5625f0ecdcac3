import StackMachine.Proofs.Command.Runner
import StackMachine.Proofs.Text.Letters
import StackMachine.Proofs.Text.Numeral

/-!
# What the options of the runner choose

The options of the runner are read in one pass that keeps track of what was chosen so far,
stops at the first thing that is wrong, and stops at a call for help as well, so that what
stands behind either of them is never looked at. Here they are described the other way
round, without a reader: an option is one argument or two and chooses one thing
(`StackMachine.Command.Runner.Chooses`), options stand in a row
(`StackMachine.Command.Runner.Sets`), and what they come to is what was chosen **last** for
each thing there is to choose (`StackMachine.Command.Runner.last?`).

That the reader agrees is a step and an induction. An option moves its reader on by one
setting (`StackMachine.Command.Runner.Chooses.readOptions_append`), so a row of them moves it
on by all, whatever comes behind; and there are only three things that can come behind: no
more arguments, a call for help, or something that is refused
(`StackMachine.Command.Runner.scan`).
-/

namespace StackMachine

namespace Command

namespace Runner

/-! ### Settings -/

/-- What an option chooses. -/
inductive Setting
  | format (format : FileFormat)
  | limit (limit : Limit) (n : Nat)
  | listing
  | quiet
  deriving DecidableEq

/-- The form of the file that a setting tells, if it tells one. -/
def Setting.format? : Setting → Option FileFormat
  | .format told => some told
  | _ => none

/-- The value of a limit that a setting gives, if it gives one. -/
def Setting.value? (limit : Limit) : Setting → Option Nat
  | .limit other n => if other = limit then some n else none
  | _ => none

/-- The last thing of some kind that settings tell. -/
def last? {α : Type} (tells : Setting → Option α) (settings : List Setting) : Option α :=
  (settings.filterMap tells).getLast?

theorem last?_cons {α : Type} (tells : Setting → Option α) (setting : Setting)
    (settings : List Setting) :
    last? tells (setting :: settings) = (last? tells settings).or (tells setting) := by
  rw [last?, List.filterMap_cons]
  rcases tells setting with _ | a
  · exact Option.or_none.symm
  · change (a :: settings.filterMap tells).getLast? = _
    rw [List.getLast?_cons, last?]
    rcases (settings.filterMap tells).getLast? with _ | _ <;> rfl

/-- **The limits that settings choose**, the usual ones where they choose none. -/
def limits (settings : List Setting) : Config where
  stackCapacity := (last? (Setting.value? .stack) settings).getD 4096
  frameCapacity := (last? (Setting.value? .frames) settings).getD 256
  stepLimit := last? (Setting.value? .steps) settings

/-- The name of a file ends with the extension of assembly source. -/
def NamesAssembly (path : String) : Prop :=
  ∃ extension, Path.extension? path = some extension ∧ Text.SameLetters extension "asm"

/-- **The form that a file is loaded in**: the last one that settings tell, and otherwise the
one its name does. -/
inductive Selects (path : String) (settings : List Setting) : FileFormat → Prop
  | told {format : FileFormat} (h : last? Setting.format? settings = some format) :
    Selects path settings format
  | assembly (h : last? Setting.format? settings = none) (hname : NamesAssembly path) :
    Selects path settings .assembly
  | text (h : last? Setting.format? settings = none) (hname : ¬NamesAssembly path) :
    Selects path settings .text

/-! ### Options -/

/-- **An option**, and what it chooses. -/
inductive Chooses : List String → Setting → Prop
  | assembly : Chooses ["--asm"] (.format .assembly)
  | binary : Chooses ["--bin"] (.format .binary)
  | listing : Chooses ["--disasm"] .listing
  | quiet : Chooses ["--quiet"] .quiet
  | limit (limit : Limit) {value : String} {n : Nat} (hvalue : Numeral.IsCount value n) :
    Chooses [limit.name, value] (.limit limit n)

/-- **Options in a row**, and what they choose. -/
inductive Sets : List String → List Setting → Prop
  | nil : Sets [] []
  | cons {option rest : List String} {setting : Setting} {settings : List Setting}
      (hoption : Chooses option setting) (hrest : Sets rest settings) :
    Sets (option ++ rest) (setting :: settings)

/-- **Options that are well formed** and neither tell the form of the file nor ask for
help. -/
inductive WellFormed : List String → Prop
  | nil : WellFormed []
  | listing {rest : List String} (h : WellFormed rest) : WellFormed ("--disasm" :: rest)
  | quiet {rest : List String} (h : WellFormed rest) : WellFormed ("--quiet" :: rest)
  | limit (limit : Limit) {value : String} {n : Nat} {rest : List String}
      (hvalue : Numeral.count? value = some n) (h : WellFormed rest) :
    WellFormed (limit.name :: value :: rest)

/-- What the options decide once there is another setting. -/
def Options.set (o : Options) : Setting → Options
  | .format format => { o with format := some format }
  | .limit limit n => { o with config := limit.set o.config n }
  | .listing => { o with listing := true }
  | .quiet => { o with quiet := true }

variable {option before options rest : List String} {setting : Setting}
  {settings : List Setting} {path argument : String}

theorem lookup_name (limit : Limit) : flags.lookup limit.name = some (.limit limit) := by
  rcases limit with _ | _ | _ <;> rfl

/-- An option moves its reader on by its setting. -/
theorem Chooses.readOptions_append (h : Chooses option setting) (o : Options)
    (rest : List String) : readOptions o (option ++ rest) = readOptions (o.set setting) rest := by
  cases h with
  | assembly => rfl
  | binary => rfl
  | listing => rfl
  | quiet => rfl
  | limit limit hvalue =>
    change readOptions o (limit.name :: _ :: rest) = _
    rw [readOptions, lookup_name]
    simp only [Numeral.count?_eq_some_iff.mpr hvalue]
    rfl

/-- **Options in a row** move their reader on by all their settings. -/
theorem Sets.readOptions_append (h : Sets before settings) (o : Options) (rest : List String) :
    readOptions o (before ++ rest) = readOptions (settings.foldl Options.set o) rest := by
  induction h generalizing o with
  | nil => rfl
  | cons hoption _ ih =>
    rw [List.append_assoc, hoption.readOptions_append, ih, List.foldl_cons]

/-- Options that do not tell the form of the file are options that choose something else. -/
theorem WellFormed.exists_sets {arguments : List String} (h : WellFormed arguments) :
    ∃ settings, Sets arguments settings ∧ last? Setting.format? settings = none := by
  induction h with
  | nil => exact ⟨[], .nil, rfl⟩
  | listing _ ih =>
    obtain ⟨settings, hsets, hnone⟩ := ih
    exact ⟨_, .cons .listing hsets, by rw [last?_cons, hnone]; rfl⟩
  | quiet _ ih =>
    obtain ⟨settings, hsets, hnone⟩ := ih
    exact ⟨_, .cons .quiet hsets, by rw [last?_cons, hnone]; rfl⟩
  | limit limit hvalue _ ih =>
    obtain ⟨settings, hsets, hnone⟩ := ih
    have hoption := Chooses.limit limit (Numeral.count?_eq_some_iff.mp hvalue)
    exact ⟨_, .cons hoption hsets, by rw [last?_cons, hnone]; rfl⟩

/-! ### The last one wins -/

/-- **What settings come to**, in a part of the decision that each of them either leaves alone
or decides anew: what the last one that decides it says. -/
theorem foldl_set {α : Type} (part : Options → Option α) (tells : Setting → Option α)
    (hset : ∀ o setting, part (Options.set o setting) = (tells setting).or (part o))
    (settings : List Setting) (o : Options) :
    part (settings.foldl Options.set o) = (last? tells settings).or (part o) := by
  induction settings generalizing o with
  | nil => rfl
  | cons setting settings ih => rw [List.foldl_cons, ih, last?_cons, hset, Option.or_assoc]

theorem path_foldl_set (settings : List Setting) (o : Options) :
    (settings.foldl Options.set o).path = o.path := by
  induction settings generalizing o with
  | nil => rfl
  | cons setting settings ih =>
    rw [List.foldl_cons, ih]
    rcases setting with _ | _ | _ | _ <;> rfl

theorem listing_foldl_set (settings : List Setting) (o : Options) :
    (settings.foldl Options.set o).listing = true ↔
      o.listing = true ∨ Setting.listing ∈ settings := by
  induction settings generalizing o with
  | nil => simp
  | cons setting settings ih =>
    rw [List.foldl_cons, ih]
    rcases setting with _ | _ | _ | _ <;> simp [Options.set]

/-- The limits that a command starts with are the usual ones. -/
theorem config_foldl_set (settings : List Setting) (path : String) :
    (settings.foldl Options.set { path }).config = limits settings := by
  have hstack := foldl_set (fun o => some o.config.stackCapacity) (Setting.value? .stack)
    (by rintro o (_ | ⟨_ | _ | _, _⟩ | _ | _) <;> rfl) settings { path }
  have hframes := foldl_set (fun o => some o.config.frameCapacity) (Setting.value? .frames)
    (by rintro o (_ | ⟨_ | _ | _, _⟩ | _ | _) <;> rfl) settings { path }
  have hsteps := foldl_set (fun o => o.config.stepLimit) (Setting.value? .steps)
    (by rintro o (_ | ⟨_ | _ | _, _⟩ | _ | _) <;> rfl) settings { path }
  rw [Option.or_some, Option.some.injEq] at hstack hframes
  rw [Option.or_none] at hsteps
  generalize (settings.foldl Options.set { path }).config = c at hstack hframes hsteps
  rw [limits, ← hstack, ← hframes, ← hsteps]

theorem format_foldl_set (settings : List Setting) (path : String) :
    (settings.foldl Options.set { path }).format = last? Setting.format? settings := by
  rw [foldl_set (fun o => o.format) Setting.format? (by rintro o (_ | _ | _ | _) <;> rfl) settings
    { path }, Option.or_none]

theorem detectFormat_of_namesAssembly (h : NamesAssembly path) :
    detectFormat path = .assembly := by
  obtain ⟨extension, hextension, hletters⟩ := h
  rw [detectFormat, hextension]
  exact if_pos hletters

theorem detectFormat_of_not_namesAssembly (h : ¬NamesAssembly path) :
    detectFormat path = .text := by
  rw [detectFormat]
  rcases hextension : Path.extension? path with _ | extension
  · rfl
  · exact if_neg fun hletters => h ⟨extension, hextension, hletters⟩

/-- The form that a file is loaded in. -/
theorem selects_iff {format : FileFormat} :
    Selects path settings format ↔
      (settings.foldl Options.set { path }).format.getD (detectFormat path) = format := by
  rw [format_foldl_set]
  constructor
  · rintro (h | ⟨h, hname⟩ | ⟨h, hname⟩)
    · rw [h, Option.getD_some]
    · rw [h, Option.getD_none, detectFormat_of_namesAssembly hname]
    · rw [h, Option.getD_none, detectFormat_of_not_namesAssembly hname]
  · rintro rfl
    rcases h : last? Setting.format? settings with _ | told
    · rw [Option.getD_none]
      by_cases hname : NamesAssembly path
      · rw [detectFormat_of_namesAssembly hname]
        exact .assembly h hname
      · rw [detectFormat_of_not_namesAssembly hname]
        exact .text h hname
    · exact .told h

/-! ### Reading -/

/-- **What a flag is called.** -/
def Flag.Names : Flag → String → Prop
  | .format told, argument => Chooses [argument] (.format told)
  | .limit which, argument => argument = which.name
  | .listing, argument => Chooses [argument] .listing
  | .quiet, argument => Chooses [argument] .quiet
  | .help, argument => argument ∈ helpNames

theorem names_of_lookup {flag : Flag} (h : flags.lookup argument = some flag) :
    flag.Names argument := by
  rcases List.mem_append.mp (List.mem_of_lookup_eq_some h) with hmem | hmem
  · simp only [List.mem_cons, Prod.mk.injEq, List.not_mem_nil, or_false] at hmem
    rcases hmem with ⟨rfl, rfl⟩ | ⟨rfl, rfl⟩ | ⟨rfl, rfl⟩ | ⟨rfl, rfl⟩ | ⟨rfl, rfl⟩ | ⟨rfl, rfl⟩
    · exact .assembly
    · exact .binary
    · exact .listing
    · exact .quiet
    · exact List.mem_cons_self
    · exact List.mem_cons_of_mem _ List.mem_cons_self
  · obtain ⟨limit, -, heq⟩ := List.mem_map.mp hmem
    obtain ⟨rfl, rfl⟩ := Prod.mk.inj heq
    rfl

/-- **What arguments can begin with**: a call for help, an option, or something that is
refused, whatever was chosen before. -/
theorem head_cases (argument : String) (rest : List String) :
    argument ∈ helpNames ∨
      (∃ option setting rest', argument :: rest = option ++ rest' ∧ Chooses option setting) ∨
      ∃ refusal, ∀ o, readOptions o (argument :: rest) = .refused refusal := by
  have hone {setting : Setting} (h : Chooses [argument] setting) : ∃ option setting rest',
      argument :: rest = option ++ rest' ∧ Chooses option setting := ⟨_, _, rest, rfl, h⟩
  rcases hflag : flags.lookup argument with _ | flag
  · refine Or.inr (Or.inr ⟨.unexpected argument, fun o => ?_⟩)
    rw [readOptions.eq_def]
    simp only [hflag]
  · have hnames := names_of_lookup hflag
    cases flag with
    | format => exact Or.inr (Or.inl (hone hnames))
    | listing => exact Or.inr (Or.inl (hone hnames))
    | quiet => exact Or.inr (Or.inl (hone hnames))
    | help => exact Or.inl hnames
    | limit limit =>
      subst hnames
      rcases rest with _ | ⟨value, rest⟩
      · refine Or.inr (Or.inr ⟨.missingValue limit, fun o => ?_⟩)
        rw [readOptions.eq_def]
        simp only [lookup_name]
      · rcases hvalue : Numeral.count? value with _ | n
        · refine Or.inr (Or.inr ⟨.invalidValue limit value, fun o => ?_⟩)
          rw [readOptions.eq_def]
          simp only [lookup_name, hvalue]
        · have hcount := Numeral.count?_eq_some_iff.mp hvalue
          exact Or.inr (Or.inl ⟨[limit.name, value], _, rest, rfl, .limit limit hcount⟩)

theorem Chooses.length_pos (h : Chooses option setting) : 0 < option.length := by
  cases h <;> exact Nat.succ_pos _

/-- **What arguments are**: options in a row, with a call for help behind them or without, or
something that is refused. -/
theorem scan (arguments : List String) :
    (∃ settings, Sets arguments settings) ∨
      (∃ before settings help rest, arguments = before ++ help :: rest ∧
        Sets before settings ∧ help ∈ helpNames) ∨
      ∃ refusal, ∀ o, readOptions o arguments = .refused refusal := by
  -- An option takes one argument or two, so the induction is on how many there are.
  induction hn : arguments.length using Nat.strongRecOn generalizing arguments with
  | ind n ih =>
    rcases arguments with _ | ⟨argument, rest⟩
    · exact Or.inl ⟨[], .nil⟩
    · rcases head_cases argument rest with
        hhelp | ⟨option, setting, rest', hsplit, hoption⟩ | hrefused
      · exact Or.inr (Or.inl ⟨[], [], argument, rest, rfl, .nil, hhelp⟩)
      · have hlt : rest'.length < n := by
          have hpos := hoption.length_pos
          rw [← hn, hsplit, List.length_append]
          omega
        rw [hsplit]
        rcases ih rest'.length hlt rest' rfl with ⟨settings, hsets⟩ |
          ⟨before, settings, help, rest, rfl, hsets, hhelp⟩ | ⟨refusal, hrefused⟩
        · exact Or.inl ⟨_, .cons hoption hsets⟩
        · exact Or.inr (Or.inl ⟨option ++ before, _, help, rest, (List.append_assoc _ _ _).symm,
            .cons hoption hsets, hhelp⟩)
        · refine Or.inr (Or.inr ⟨refusal, fun o => ?_⟩)
          rw [hoption.readOptions_append, hrefused]
      · exact Or.inr (Or.inr hrefused)

/-- A call for help in the place of a value is a value, and no number. -/
example (o : Options) :
    readOptions o ["--stack", "--help"] = .refused (.invalidValue .stack "--help") := by
  rfl

end Runner

end Command

end StackMachine
