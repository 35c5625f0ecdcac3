import StackMachine.Proofs.Command.Pipeline
import StackMachine.Proofs.Files.Parent

/-!
# All or nothing

What the assembler command does to the files is one write, and the write is the last thing that
can go wrong. All the other ways to fail come before it – arguments that are refused, an input
that is not there, an output that has no directory, a source that cannot be read or does not
assemble – so a command that fails has changed nothing, and one that succeeds has changed one
file at most. Nor does a command fail that could have succeeded: in particular, an output that
can be written has its directory (`StackMachine.FileSystem.contains_of_target`).

Which file is written and what is in it does not depend on how the arguments are read.
`StackMachine.Command.Assembler.Names` lists the outputs that a row of options names, and the
last of them counts; without any, the input has its extension exchanged.

| the command            | its exit code | the files                                            |
|------------------------|---------------|------------------------------------------------------|
| asks for help          | 0             | as they were                                         |
| compiles its input     | 0             | the output holds the bytes, the others are as before |
| fails, in whatever way | 1             | as they were                                         |

* `StackMachine.FileSystem.OnlyWritten` – a file system in which only one file was written;
* `StackMachine.Command.Assembler.Compiles` – what is to be read and written;
* `StackMachine.Command.Assembler.allOrNothing` – **all or nothing**, for all arguments and
  all files.
-/

namespace StackMachine

variable {fs fs' : FileSystem}

/-! ### One file -/

/-- **Only one file was written**: the path leads to it and reads as the bytes, and whatever
stands, or does not stand, in any other place is as it was. -/
structure FileSystem.OnlyWritten (fs fs' : FileSystem) (path : String) (bytes : List UInt8) :
    Prop where
  workingDirectory : fs'.workingDirectory = fs.workingDirectory
  read : fs'.read path = .ok bytes
  elsewhere : ∃ l, fs'.locate path = .ok l ∧ ∀ l', l' ≠ l → fs'.node? l' = fs.node? l'

/-- **Writing writes only one file.** -/
theorem FileSystem.onlyWritten_of_write {path : String} {bytes : List UInt8}
    (h : fs.write path bytes = .ok fs') : fs.OnlyWritten fs' path bytes := by
  obtain ⟨_, htarget, rfl⟩ := write_eq_ok_iff.mp h
  obtain ⟨d, name, rfl, hplace⟩ := exists_target htarget
  exact ⟨rfl, read_of_write h, d ++ [name], hplace.locate,
    fun _ hne => node?_put_of_ne hplace.directory hne⟩

namespace Command

namespace Assembler

variable {program input output : String} {arguments options outputs : List String} {o : Options}
  {p : Program}

/-! ### Arguments -/

/-- **Options in a row**, and the outputs that they name. -/
inductive Names : List String → List String → Prop
  | nil : Names [] []
  | listing {option : String} {options outputs : List String}
      (hoption : option = "--listing" ∨ option = "-l") (h : Names options outputs) :
    Names (option :: options) outputs
  | output {option value : String} {options outputs : List String}
      (hoption : option = "--output" ∨ option = "-o") (h : Names options outputs) :
    Names (option :: value :: options) (value :: outputs)

/-- A command that asks for help. -/
def AsksHelp (arguments : List String) : Prop :=
  ∃ help ∈ Runner.helpNames, arguments.head? = some help

/-- **A command that compiles**: its options are well formed, and the output is the last one
that they name, or else the input with its extension exchanged. -/
inductive Compiles : List String → String → String → Prop
  | intro {input : String} {options outputs : List String} (hinput : input ∉ Runner.helpNames)
      (hoptions : Names options outputs) :
    Compiles (input :: options) input (outputs.getLast?.getD (Path.withExtension input "bin"))

/-- Options in a row are read as the last output that they name. -/
theorem Names.readOptions_eq (h : Names options outputs) (o : Options) :
    ∃ listing, readOptions o options =
      .assemble { o with output := outputs.getLast?.or o.output, listing } := by
  induction h generalizing o with
  | nil => exact ⟨o.listing, rfl⟩
  | listing hoption _ ih =>
    rcases hoption with rfl | rfl <;> exact ih { o with listing := true }
  | @output _ value _ outputs hoption _ ih =>
    have hlast : outputs.getLast?.or (some value) = (value :: outputs).getLast?.or o.output := by
      rw [List.getLast?_cons]
      rcases outputs.getLast? with _ | _ <;> rfl
    rw [← hlast]
    rcases hoption with rfl | rfl <;> exact ih { o with output := some value }

/-- **What options are**: well formed, or refused. -/
theorem names_or_refused (o : Options) (options : List String) :
    (∃ outputs, Names options outputs) ∨ ∃ refusal, readOptions o options = .refused refusal := by
  fun_induction readOptions o options with
  | case1 o => exact Or.inl ⟨[], .nil⟩
  | case2 o option rest hflag ih =>
    refine ih.imp_left ?_
    rintro ⟨outputs, hoptions⟩
    exact ⟨outputs, .listing (by simpa [flags] using List.mem_of_lookup_eq_some hflag) hoptions⟩
  | case3 o option => exact Or.inr ⟨_, rfl⟩
  | case4 o option hflag value rest ih =>
    refine ih.imp_left ?_
    rintro ⟨outputs, hoptions⟩
    exact ⟨_, .output (by simpa [flags] using List.mem_of_lookup_eq_some hflag) hoptions⟩
  | case5 o option => exact Or.inr ⟨_, rfl⟩

theorem AsksHelp.read_eq (h : AsksHelp arguments) : read arguments = .usage 0 := by
  obtain ⟨help, hhelp, hhead⟩ := h
  obtain ⟨rest, rfl⟩ := List.head?_eq_some_iff.mp hhead
  exact read_of_help hhelp

theorem Compiles.exists_read_eq (h : Compiles arguments input output) :
    ∃ o : Options, read arguments = .assemble o ∧ o.input = input ∧ o.outputPath = output := by
  obtain @⟨_, _, outputs, hinput, hoptions⟩ := h
  obtain ⟨listing, hread⟩ := hoptions.readOptions_eq { input }
  rw [Option.or_none] at hread
  refine ⟨{ input, output := outputs.getLast?, listing }, ?_, rfl, rfl⟩
  rw [read_of_not_help hinput]
  exact hread

/-- **What arguments come to**: a call for help, something to compile, or a failure. -/
theorem asksHelp_or_compiles_or_fails (arguments : List String) :
    AsksHelp arguments ∨ (∃ input output, Compiles arguments input output) ∨
      ∀ program fs, ∃ outcome : Outcome, outcome.exitCode = 1 ∧
        (run FileSystem.host program arguments).run fs = (outcome, fs) := by
  rcases arguments with _ | ⟨input, options⟩
  · exact Or.inr (Or.inr fun _ _ => ⟨_, rfl, rfl⟩)
  · by_cases hinput : input ∈ Runner.helpNames
    · exact Or.inl ⟨input, hinput, rfl⟩
    · right
      refine (names_or_refused { input } options).imp ?_ ?_
      · rintro ⟨outputs, hoptions⟩
        exact ⟨_, _, .intro hinput hoptions⟩
      · rintro ⟨refusal, hrefused⟩ program fs
        rw [run, read_of_not_help hinput, hrefused]
        exact ⟨_, by cases refusal <;> rfl, rfl⟩

/-! ### What a command does -/

/-- The directory that has to be there is there, if the output can be written. -/
theorem contains_requiredDirectory {l : Location} {directory : String}
    (h : fs.target output = .ok l) (hdirectory : requiredDirectory? output = some directory) :
    fs.contains directory = true := by
  obtain ⟨hparent, hne⟩ := Option.filter_eq_some_iff.mp hdirectory
  exact FileSystem.contains_of_target h hparent (by simpa using hne)

/-- **Nothing stands in the way** of an assembler that can read its input and write its output:
the checks that come first refuse nothing that would have succeeded. -/
theorem exitCode_assemble {l : Location} (hp : fs.Assembles o.input p)
    (hl : fs.target o.outputPath = .ok l) :
    ((assemble FileSystem.host o).run fs).1.exitCode = 0 := by
  have hwrite : fs.write o.outputPath p.toBytes = .ok (fs.put l (.file p.toBytes)) :=
    FileSystem.write_eq_ok_iff.mpr ⟨l, hl, rfl⟩
  have ⟨_, _, hread, _⟩ := hp
  have ⟨_, hinput, _⟩ := FileSystem.read_eq_ok_iff.mp hread
  have hcompile : ((compile FileSystem.host o).run fs).1.exitCode = 0 := by
    obtain ⟨journal, hload⟩ := fs.run_load .assembly {} o.input
    rw [compile, StateT.run_bind, hload, pure_bind, FileSystem.loaded_assembly_eq_ok_iff.mpr hp]
    simp only [StateT.run_bind, fs.run_write, pure_bind, hwrite]
    rfl
  simp only [assemble, StateT.run_bind, fs.run_contains, pure_bind,
    FileSystem.contains_of_locate hinput]
  rcases hdirectory : requiredDirectory? o.outputPath with _ | directory
  · exact hcompile
  · rw [if_neg (by simp), StateT.run_bind, fs.run_contains, pure_bind,
      contains_requiredDirectory hl hdirectory]
    exact hcompile

/-- **A command that can do what it is told**: it is asked for help, or its input assembles and
its output can be written. -/
def Able (fs : FileSystem) (arguments : List String) : Prop :=
  AsksHelp arguments ∨ ∃ input output p l, Compiles arguments input output ∧
    fs.Assembles input p ∧ fs.target output = .ok l

/-- A command that can do what it is told succeeds. -/
theorem exitCode_run_of_able (h : Able fs arguments) :
    ((run FileSystem.host program arguments).run fs).1.exitCode = 0 := by
  rcases h with hhelp | ⟨input, output, p, l, hcompiles, hp, hl⟩
  · rw [run, hhelp.read_eq]
    rfl
  · obtain ⟨o, hread, rfl, rfl⟩ := hcompiles.exists_read_eq
    rw [run, hread]
    exact exitCode_assemble hp hl

/-- **How a command ends**: having been asked for help, having written its output, or having
failed. -/
inductive Effect (fs : FileSystem) (arguments : List String) : Outcome × FileSystem → Prop
  | helped {outcome : Outcome} (hhelp : AsksHelp arguments) (hcode : outcome.exitCode = 0) :
    Effect fs arguments (outcome, fs)
  | written {outcome : Outcome} {fs' : FileSystem} {input output : String} {p : Program}
      (hcompiles : Compiles arguments input output) (hp : fs.Assembles input p)
      (hwrite : fs.write output p.toBytes = .ok fs') (hcode : outcome.exitCode = 0) :
    Effect fs arguments (outcome, fs')
  | failed {outcome : Outcome} (hcode : outcome.exitCode = 1) : Effect fs arguments (outcome, fs)

theorem effect_run (fs : FileSystem) (program : String) (arguments : List String) :
    Effect fs arguments ((run FileSystem.host program arguments).run fs) := by
  rcases asksHelp_or_compiles_or_fails arguments with
    hhelp | ⟨input, output, hcompiles⟩ | hfails
  · rw [run, hhelp.read_eq]
    exact .helped hhelp rfl
  · obtain ⟨o, hread, rfl, rfl⟩ := hcompiles.exists_read_eq
    rw [run, hread]
    change Effect fs arguments ((assemble FileSystem.host o).run fs)
    rcases hrun : (assemble FileSystem.host o).run fs with ⟨outcome, fs'⟩
    have hends : Ends fs o (outcome, fs') := hrun ▸ ends_assemble fs o
    cases hends with
    | refused hcode => exact .failed hcode
    | written hcode hp hwrite =>
      exact .written hcompiles (FileSystem.loaded_assembly_eq_ok_iff.mp hp) hwrite hcode
  · obtain ⟨outcome, hcode, hrun⟩ := hfails program fs
    rw [hrun]
    exact .failed hcode

/-- **What a command does to the files**, with the exit code that it ends with: one file is
written if something was compiled, and nothing is changed otherwise. -/
structure AllOrNothing (fs : FileSystem) (arguments : List String) (outcome : Outcome)
    (fs' : FileSystem) : Prop where
  succeeds : outcome.exitCode = 0 ↔ Able fs arguments
  /-- A command that does not succeed changes nothing. -/
  nothing : outcome.exitCode ≠ 0 → outcome.exitCode = 1 ∧ fs' = fs
  /-- A command that succeeds was asked for help, or has written the output. -/
  all : outcome.exitCode = 0 →
    AsksHelp arguments ∧ fs' = fs ∨
      ∃ input output p, Compiles arguments input output ∧ fs.Assembles input p ∧
        fs.OnlyWritten fs' output p.toBytes

/-- **All or nothing**, whatever the arguments and the files are. -/
theorem allOrNothing (fs : FileSystem) (program : String) (arguments : List String) :
    AllOrNothing fs arguments ((run FileSystem.host program arguments).run fs).1
      ((run FileSystem.host program arguments).run fs).2 := by
  have hable : Able fs arguments →
      ((run FileSystem.host program arguments).run fs).1.exitCode = 0 := exitCode_run_of_able
  have heffect := effect_run fs program arguments
  rcases hrun : (run FileSystem.host program arguments).run fs with ⟨outcome, fs'⟩
  rw [hrun] at hable heffect
  cases heffect with
  | helped hhelp hcode =>
    exact ⟨iff_of_true hcode (Or.inl hhelp), fun hno => absurd hcode hno,
      fun _ => Or.inl ⟨hhelp, rfl⟩⟩
  | @written _ _ input output p hcompiles hp hwrite hcode =>
    obtain ⟨l, hl, -⟩ := FileSystem.write_eq_ok_iff.mp hwrite
    exact ⟨iff_of_true hcode (Or.inr ⟨input, output, p, l, hcompiles, hp, hl⟩),
      fun hno => absurd hcode hno,
      fun _ => Or.inr ⟨input, output, p, hcompiles, hp, FileSystem.onlyWritten_of_write hwrite⟩⟩
  | failed hcode =>
    have hno : outcome.exitCode ≠ 0 := by simp [hcode]
    exact ⟨⟨fun hzero => absurd hzero hno, hable⟩, fun _ => ⟨hcode, rfl⟩,
      fun hzero => absurd hzero hno⟩

/-- The last output counts, and the one before it is not even made. -/
example :
    let fs : FileSystem := ⟨["home"], [(["home", "a.asm"], .file "HALT".toUTF8.data.toList)]⟩
    let after := (run FileSystem.host "assembler" ["a.asm", "-o", "x", "-l", "-o", "y"]).run fs
    after.1.exitCode = 0 ∧ after.2.contains "x" = false ∧ after.2.contains "y" = true := by
  decide +kernel

end Assembler

end Command

end StackMachine
