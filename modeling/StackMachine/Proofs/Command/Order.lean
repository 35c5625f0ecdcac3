import StackMachine.Proofs.Command.Answers

/-!
# The order of the options

The options of the runner may stand in any order, and this is not for want of options that
depend on each other: one of them decides which messages are logged, another how the file is
read, and all of this has to be settled before the file is touched and the first message is
logged. The reader sees to it by doing nothing but reading until it has seen the last option.

So nothing is left of the options but what they come to, and that has a closed form
(`StackMachine.Command.Runner.foldl_set_eq`): for the form of the file and for each of the
limits the last one told, for the listing and for the quiet whether they were asked for at all.
Options that agree on these (`StackMachine.Command.Runner.Agree`) are options that nobody can
tell apart, whoever keeps the files.
-/

namespace StackMachine

namespace Command

namespace Runner

variable {options options' : List String} {settings settings' : List Setting}

/-- **Settings that agree** on everything there is to choose: on the last one of each kind that
tells something, and on the presence of those that tell nothing. -/
structure Agree (settings settings' : List Setting) : Prop where
  format : last? Setting.format? settings = last? Setting.format? settings'
  value : ∀ limit, last? (Setting.value? limit) settings = last? (Setting.value? limit) settings'
  listing : .listing ∈ settings ↔ .listing ∈ settings'
  quiet : .quiet ∈ settings ↔ .quiet ∈ settings'

theorem quiet_foldl_set (settings : List Setting) (o : Options) :
    (settings.foldl Options.set o).quiet = true ↔ o.quiet = true ∨ Setting.quiet ∈ settings := by
  induction settings generalizing o with
  | nil => simp
  | cons setting settings ih =>
    rw [List.foldl_cons, ih]
    rcases setting with _ | _ | _ | _ <;> simp [Options.set]

/-- **What settings come to**, without reading them one after the other. -/
theorem foldl_set_eq (settings : List Setting) (path : String) :
    settings.foldl Options.set { path } =
      { path := path
        format := last? Setting.format? settings
        config := limits settings
        listing := decide (.listing ∈ settings)
        quiet := decide (.quiet ∈ settings) } := by
  have hpath := path_foldl_set settings { path }
  have hformat := format_foldl_set settings path
  have hconfig := config_foldl_set settings path
  have hlisting := listing_foldl_set settings { path }
  have hquiet := quiet_foldl_set settings { path }
  generalize settings.foldl Options.set { path } = o at *
  rw [Options.mk.injEq]
  refine ⟨hpath, hformat, hconfig, ?_, ?_⟩
  · rw [Bool.eq_iff_iff, hlisting, decide_eq_true_iff]
    simp
  · rw [Bool.eq_iff_iff, hquiet, decide_eq_true_iff]
    simp

/-- Settings that agree choose the same limits. -/
theorem Agree.limits_eq (h : Agree settings settings') : limits settings = limits settings' := by
  rw [limits, limits, h.value, h.value, h.value]

/-- **Options whose settings agree are read as the same**, in the place of help as well. -/
theorem Agree.read_eq (h : Agree settings settings') (hsets : Sets options settings)
    (hsets' : Sets options' settings') (path : String) :
    read (path :: options) = read (path :: options') := by
  by_cases hpath : path ∈ helpNames
  · rw [read_cons_of_help hpath, read_cons_of_help hpath]
  · rw [hsets.read_eq hpath, hsets'.read_eq hpath, foldl_set_eq, foldl_set_eq, h.format,
      h.limits_eq, decide_eq_decide.mpr h.listing, decide_eq_decide.mpr h.quiet]

/-- **The order of the options is of no matter**, and neither is any option that a later one
overrules. The outcome is the same – the exit code, the standard output, and all that is on the
standard error but the time – and so is what was prepared for it: it is a session that writes
while its run goes on, also when there is never an outcome. -/
theorem indistinguishable {m : Type → Type} [Monad m] (host : Host m) (program path : String)
    (hsets : Sets options settings) (hsets' : Sets options' settings')
    (h : Agree settings settings') :
    prepare host program (path :: options) = prepare host program (path :: options') ∧
      ∀ fuel, run host fuel program (path :: options) =
        run host fuel program (path :: options') := by
  have hprepare : prepare host program (path :: options) =
      prepare host program (path :: options') := by
    rw [prepare, prepare, h.read_eq hsets hsets' path]
  refine ⟨hprepare, fun fuel => ?_⟩
  rw [run, run, hprepare]

/-- A capacity that a later one overrules, a form of the file that a later one overrules, and
an option that is given twice. -/
theorem indistinguishable_overruled :
    let options := ["--stack", "1", "--quiet", "--bin", "--stack", "+16", "--asm"]
    let options' := ["--asm", "--quiet", "--stack", "16", "--quiet"]
    let settings : List Setting := [.limit .stack 1, .quiet, .format .binary, .limit .stack 16,
      .format .assembly]
    let settings' : List Setting := [.format .assembly, .quiet, .limit .stack 16, .quiet]
    Sets options settings ∧ Sets options' settings' ∧ Agree settings settings' ∧
      prepare FileSystem.host "stackvm" ("p.txt" :: options) =
          prepare FileSystem.host "stackvm" ("p.txt" :: options') ∧
        ∀ fuel, run FileSystem.host fuel "stackvm" ("p.txt" :: options) =
          run FileSystem.host fuel "stackvm" ("p.txt" :: options') := by
  intro options options' settings settings'
  have hcount (text : String) (n : Nat) (h : Numeral.count? text = some n) :
      Chooses ["--stack", text] (.limit .stack n) :=
    .limit .stack (Numeral.count?_eq_some_iff.mp h)
  have hsets : Sets options settings :=
    .cons (hcount "1" 1 (by decide)) (.cons .quiet (.cons .binary
      (.cons (hcount "+16" 16 (by decide)) (.cons .assembly .nil))))
  have hsets' : Sets options' settings' :=
    .cons .assembly (.cons .quiet (.cons (hcount "16" 16 (by decide)) (.cons .quiet .nil)))
  have hagree : Agree settings settings' :=
    ⟨rfl, by rintro (_ | _ | _) <;> rfl, by decide, by decide⟩
  exact ⟨hsets, hsets', hagree, indistinguishable _ _ _ hsets hsets' hagree⟩

end Runner

end Command

end StackMachine
