import StackMachine.Command.Assembler
import StackMachine.Proofs.Command.Answers

/-!
# Two ways from a source file to an answer

A source file can be given to the runner as it is, or be assembled into a file of bytes that
is given to the runner in its place. The two ways have nothing in common but the passes over
the source: on the second one the program goes through an encoding, a file and a decoding,
and through a command line of its own.

They come to the same all the same. An assembler that succeeds has written the bytes of the
program that its input assembles to, and nothing else (`StackMachine.Command.Assembler.Ends`);
the file is read back as it was written, its bytes are decoded to the same program, and the
answer of the runner depends on nothing else. A source that does not assemble is refused on
both ways, and nothing is written.

* `StackMachine.Command.Assembler.ends_assemble` – the two ends of an assembler;
* `StackMachine.Command.WaysAgree` – what the two ways have to do with each other;
* `StackMachine.Command.waysAgree` – **the two ways agree**, whatever the options.
-/

namespace StackMachine

namespace Command

/-! ### The assembler -/

namespace Assembler

variable {fs fs' : FileSystem} {program input output : String} {outcome : Outcome}

theorem read_of_help {options : List String} (h : input ∈ Runner.helpNames) :
    read (input :: options) = .usage 0 := by
  rw [read, if_pos (by simpa [Runner.helpNames, or_comm] using h)]

theorem read_of_not_help {options : List String} (h : input ∉ Runner.helpNames) :
    read (input :: options) = readOptions { input } options := by
  rw [read, if_neg (by simpa [Runner.helpNames, and_comm] using h)]

/-- **How an assembler ends**: it has failed and written nothing, or it has assembled its
input and written the bytes of the program. -/
inductive Ends (fs : FileSystem) (o : Options) : Outcome × FileSystem → Prop
  | refused {outcome : Outcome} (hcode : outcome.exitCode = 1) : Ends fs o (outcome, fs)
  | written {outcome : Outcome} {fs' : FileSystem} {p : Program} (hcode : outcome.exitCode = 0)
      (hp : fs.loaded .assembly o.input = .ok p)
      (hwrite : fs.write o.outputPath p.toBytes = .ok fs') :
    Ends fs o (outcome, fs')

theorem ends_compile (fs : FileSystem) (o : Options) :
    Ends fs o ((compile FileSystem.host o).run fs) := by
  obtain ⟨journal, hload⟩ := fs.run_load .assembly {} o.input
  rw [compile, StateT.run_bind, hload, pure_bind]
  rcases hp : fs.loaded .assembly o.input with e | p
  · exact .refused rfl
  · simp only [StateT.run_bind, fs.run_write, pure_bind]
    rcases hwrite : fs.write o.outputPath p.toBytes with e | fs'
    · exact .refused rfl
    · exact .written rfl hp hwrite

/-- **An assembler ends in one of the two ways.** -/
theorem ends_assemble (fs : FileSystem) (o : Options) :
    Ends fs o ((assemble FileSystem.host o).run fs) := by
  have hcompile := ends_compile fs o
  simp only [assemble, StateT.run_bind, fs.run_contains, pure_bind]
  rcases fs.contains o.input with _ | _
  · exact .refused rfl
  · rcases requiredDirectory? o.outputPath with _ | directory
    · exact hcompile
    · rw [if_neg (by simp), StateT.run_bind, fs.run_contains, pure_bind]
      rcases fs.contains directory with _ | _
      · exact .refused rfl
      · exact hcompile

/-- The command that is told which file to read and which one to write. -/
theorem ends_run (h : input ∉ Runner.helpNames) :
    Ends fs { input, output := some output }
      ((run FileSystem.host program [input, "-o", output]).run fs) := by
  rw [run, read_of_not_help h]
  exact ends_assemble fs { input, output := some output }

/-- **An assembler that succeeds** has written the program of its source. -/
theorem exists_written (h : input ∉ Runner.helpNames)
    (hrun : (run FileSystem.host program [input, "-o", output]).run fs = (outcome, fs'))
    (hcode : outcome.exitCode = 0) :
    ∃ p, fs.Assembles input p ∧ fs.write output p.toBytes = .ok fs' := by
  have hends : Ends fs { input, output := some output } (outcome, fs') := hrun ▸ ends_run h
  rcases hends with hfailed | ⟨-, hp, hwrite⟩
  · rw [hcode] at hfailed
    cases hfailed
  · exact ⟨_, FileSystem.loaded_assembly_eq_ok_iff.mp hp, hwrite⟩

/-- **An assembler whose source does not assemble** fails, and writes nothing. -/
theorem refused_of_not_assembles (h : input ∉ Runner.helpNames)
    (hno : ∀ p, ¬fs.Assembles input p) :
    ∃ outcome, outcome.exitCode = 1 ∧
      (run FileSystem.host program [input, "-o", output]).run fs = (outcome, fs) := by
  rcases hrun : (run FileSystem.host program [input, "-o", output]).run fs with ⟨outcome, fs'⟩
  have hends : Ends fs { input, output := some output } (outcome, fs') := hrun ▸ ends_run h
  rcases hends with hfailed | ⟨-, hp, -⟩
  · exact ⟨outcome, hfailed, rfl⟩
  · exact absurd (FileSystem.loaded_assembly_eq_ok_iff.mp hp) (hno _)

end Assembler

/-! ### The two ways -/

/-- **What the two ways from a source file to an answer have to do with each other.** -/
structure WaysAgree (fs : FileSystem) (input output : String) (options : List String) : Prop where
  /-- An assembler that succeeds leaves a file that answers like the source did, and like
  the source still does if this is another file. The answers agree after any number of
  turns, so neither way ends without the other. -/
  assembled : ∀ assembler outcome fs',
    (Assembler.run FileSystem.host assembler [input, "-o", output]).run fs = (outcome, fs') →
      outcome.exitCode = 0 → ∀ runner fuel,
        Runner.answer? fs' fuel runner (output :: "--bin" :: options) =
            Runner.answer? fs fuel runner (input :: "--asm" :: options) ∧
          (fs.locate input ≠ fs.target output →
            Runner.answer? fs' fuel runner (output :: "--bin" :: options) =
              Runner.answer? fs' fuel runner (input :: "--asm" :: options))
  /-- A source that does not assemble is refused on both ways, and nothing is written. -/
  refused : (∀ p, ¬fs.Assembles input p) →
    (∀ assembler, ∃ outcome, outcome.exitCode = 1 ∧
      (Assembler.run FileSystem.host assembler [input, "-o", output]).run fs = (outcome, fs)) ∧
    ∀ runner fuel, Runner.answer? fs fuel runner (input :: "--asm" :: options) = some (1, "")

/-- **The two ways agree**, whatever the options, and however the program ends or whether
it ends at all. -/
theorem waysAgree {input output : String} {options : List String} (fs : FileSystem)
    (hinput : input ∉ Runner.helpNames) (houtput : output ∉ Runner.helpNames)
    (hoptions : Runner.WellFormed options) : WaysAgree fs input output options := by
  obtain ⟨c, listing, hanswer⟩ := Runner.answer?_eq hoptions
  have hasm (fs : FileSystem) (fuel : Nat) (runner : String) :=
    hanswer fs fuel runner input "--asm" .assembly hinput rfl
  have hbin (fs : FileSystem) (fuel : Nat) (runner : String) :=
    hanswer fs fuel runner output "--bin" .binary houtput rfl
  refine ⟨fun assembler outcome fs' hrun hcode runner fuel => ?_, fun hno => ⟨?_, ?_⟩⟩
  · obtain ⟨p, hp, hwrite⟩ := Assembler.exists_written hinput hrun hcode
    have hback : fs'.loaded .binary output = .ok p :=
      FileSystem.loaded_binary_eq_ok_iff.mpr (FileSystem.read_of_write hwrite)
    refine ⟨?_, fun hne => ?_⟩
    · rw [hbin, hasm, hback, FileSystem.loaded_assembly_eq_ok_iff.mpr hp]
    · -- The source is still there.
      obtain ⟨bytes, source, hread, hdecode, hassemble⟩ := hp
      have hread' := FileSystem.read_of_write_elsewhere hwrite hne hread
      have hp' : fs'.Assembles input p := ⟨bytes, source, hread', hdecode, hassemble⟩
      rw [hbin, hasm, hback, FileSystem.loaded_assembly_eq_ok_iff.mpr hp']
  · exact fun assembler => Assembler.refused_of_not_assembles hinput hno
  · intro runner fuel
    rw [hasm]
    rcases hp : fs.loaded .assembly input with e | p
    · rfl
    · exact absurd (FileSystem.loaded_assembly_eq_ok_iff.mp hp) (hno p)

/-- A program that prints a number, run with a small stack: the assembler succeeds, and what
it has written prints the number and halts. -/
theorem waysAgree_printing_program :
    let source := "PUSH 5\nPRINT_I\nHALT\n".toUTF8.data.toList
    let fs : FileSystem := ⟨["home"], [(["home", "five.asm"], .file source)]⟩
    let options := ["--quiet", "--stack", "16"]
    let written := (Assembler.run FileSystem.host "assembler" ["five.asm", "-o", "five.bin"]).run fs
    ("five.asm" ∉ Runner.helpNames ∧ "five.bin" ∉ Runner.helpNames ∧ Runner.WellFormed options) ∧
      WaysAgree fs "five.asm" "five.bin" options ∧ written.1.exitCode = 0 ∧
      Runner.answer? written.2 4 "runner" ("five.bin" :: "--bin" :: options) =
        some (0, "5\nHALT\n") := by
  intro source fs options written
  have hinput : "five.asm" ∉ Runner.helpNames := by decide
  have houtput : "five.bin" ∉ Runner.helpNames := by decide
  have hcount : Numeral.count? "16" = some 16 := by decide
  have hoptions : Runner.WellFormed options := .quiet (.limit .stack hcount .nil)
  exact ⟨⟨hinput, houtput, hoptions⟩, waysAgree fs hinput houtput hoptions,
    by decide +kernel, by decide +kernel⟩

end Command

end StackMachine
