import StackMachine.Proofs.Command.Pipeline
import StackMachine.Proofs.Files.Path

/-!
# What becomes of the source

An assembler that is not told where to write exchanges the extension of its input for `bin`
and writes there, in place of whatever stands there; it does not ask whether that is the file
it has read. The two paths are the same exactly when the input has the extension already, and
then the source is lost.

That nothing else can go wrong is a fact about paths: a path with another extension leads to
another file, however it is spelled (`StackMachine.FileSystem.same_or_elsewhere`). So the
extension of the input and the exit code tell what is in the input afterwards
(`StackMachine.Command.Assembler.SourceAfter`).

* `StackMachine.Command.Assembler.ends_run_of_no_output` – the command ends like an assembler
  that writes to the default path, or asks for nothing;
* `StackMachine.Command.Assembler.sourceAfter_run` – **what is in the input afterwards**;
* `StackMachine.Command.Assembler.source_lost` – a source that is lost.
-/

namespace StackMachine

namespace Command

namespace Assembler

variable {fs fs' : FileSystem} {input : String} {options : List String} {outcome : Outcome}

/-! ### Options that name no output -/

/-- Options that name no output leave nothing to choose but the listing. -/
theorem readOptions_of_no_output (hshort : "-o" ∉ options) (hlong : "--output" ∉ options)
    (o : Options) :
    (∃ refusal, readOptions o options = .refused refusal) ∨
      ∃ listing, readOptions o options = .assemble { o with listing } := by
  induction options generalizing o with
  | nil => exact Or.inr ⟨o.listing, rfl⟩
  | cons argument options ih =>
    rw [List.mem_cons, not_or] at hshort hlong
    rw [readOptions.eq_def]
    rcases hflag : flags.lookup argument with _ | _ | _ <;> simp only [hflag]
    · exact Or.inl ⟨_, rfl⟩
    · -- The two names of the option for the output are the ones that are excluded.
      have hmem := List.mem_of_lookup_eq_some hflag
      have hname : argument = "--output" ∨ argument = "-o" := by simpa [flags] using hmem
      rcases hname with rfl | rfl
      · exact absurd rfl hlong.1
      · exact absurd rfl hshort.1
    · exact ih hshort.2 hlong.2 { o with listing := true }

/-- **A command that is not told where to write** asks for nothing that could be written, or
ends like an assembler that writes to the default path. -/
theorem ends_run_of_no_output (program input : String) (fs : FileSystem) (hshort : "-o" ∉ options)
    (hlong : "--output" ∉ options) :
    (input ∈ Runner.helpNames ∧
        ((run FileSystem.host program (input :: options)).run fs).2 = fs) ∨
      ∃ listing, Ends fs { input, listing }
        ((run FileSystem.host program (input :: options)).run fs) := by
  rw [run]
  by_cases hhelp : input ∈ Runner.helpNames
  · rw [read_of_help hhelp]
    exact Or.inl ⟨hhelp, rfl⟩
  · rw [read_of_not_help hhelp]
    right
    rcases readOptions_of_no_output hshort hlong { input } with ⟨refusal, hread⟩ | ⟨listing, hread⟩
    · rw [hread]
      exact ⟨false, .refused (by cases refusal <;> rfl)⟩
    · rw [hread]
      exact ⟨listing, ends_assemble fs { input, listing }⟩

/-! ### The input afterwards -/

/-- **What is in the input of an assembler afterwards.** -/
structure SourceAfter (fs : FileSystem) (input : String) (outcome : Outcome)
    (fs' : FileSystem) : Prop where
  /-- An assembler that fails leaves its input as it is, and so does any that has to give
  its output another extension. -/
  kept : outcome.exitCode ≠ 0 ∨ Path.extension? input ≠ some "bin" →
    fs'.read input = fs.read input
  /-- In the place of a source with the extension of programs there is the program. -/
  replaced : outcome.exitCode = 0 → Path.extension? input = some "bin" →
    ∃ p, fs.Assembles input p ∧ fs'.read input = .ok p.toBytes

theorem Ends.sourceAfter {listing : Bool} (h : Ends fs { input, listing } (outcome, fs')) :
    SourceAfter fs input outcome fs' := by
  cases h with
  | refused hcode => exact ⟨fun _ => rfl, fun hok => by simp [hcode] at hok⟩
  | @written _ _ p hcode hp hwrite =>
    have hassembles := FileSystem.loaded_assembly_eq_ok_iff.mp hp
    have ⟨_, _, hread, _⟩ := hassembles
    rw [Options.outputPath, Option.getD_none] at hwrite
    obtain ⟨l, htarget, -⟩ := FileSystem.write_eq_ok_iff.mp hwrite
    have hext : '/' ∉ "bin".toList := by decide
    rcases FileSystem.same_or_elsewhere hread hext htarget with ⟨hbin, hsame⟩ | ⟨hne, helse⟩
    · rw [hsame] at hwrite
      exact ⟨fun hkept => absurd hkept (by simp [hcode, hbin]),
        fun _ _ => ⟨p, hassembles, FileSystem.read_of_write hwrite⟩⟩
    · refine ⟨fun _ => ?_, fun _ hbin => absurd hbin hne⟩
      rw [hread]
      exact FileSystem.read_of_write_elsewhere hwrite (htarget ▸ helse) hread

/-- **What is in the input afterwards**, when no option names the output: the source, unless
the assembler has succeeded and the input has the extension of the output already. -/
theorem sourceAfter_run (program : String) (fs : FileSystem) (hshort : "-o" ∉ options)
    (hlong : "--output" ∉ options) :
    SourceAfter fs input ((run FileSystem.host program (input :: options)).run fs).1
      ((run FileSystem.host program (input :: options)).run fs).2 := by
  rcases ends_run_of_no_output program input fs hshort hlong with ⟨hhelp, hfs⟩ | ⟨listing, hends⟩
  · have hext : Path.extension? input = none := by
      rcases List.mem_pair.mp hhelp with rfl | rfl <;> decide
    exact ⟨fun _ => by rw [hfs], fun _ hbin => by simp [hext] at hbin⟩
  · exact hends.sourceAfter

/-- A source with the usual extension is kept, and the program stands beside it. -/
theorem sourceAfter_run_asm :
    let source := "PUSH 1\nPRINT_I\nHALT\n".toUTF8.data.toList
    let fs : FileSystem := ⟨["home"], [(["home", "one.asm"], .file source)]⟩
    let after := (run FileSystem.host "assembler" ["one.asm", "-l"]).run fs
    ("-o" ∉ ["-l"] ∧ "--output" ∉ ["-l"]) ∧ SourceAfter fs "one.asm" after.1 after.2 ∧
      after.1.exitCode = 0 ∧ (after.2.read "one.asm").toOption = some source ∧
      after.2.contains "one.bin" = true := by
  intro source fs after
  have hshort : "-o" ∉ ["-l"] := by decide
  have hlong : "--output" ∉ ["-l"] := by decide
  exact ⟨⟨hshort, hlong⟩, sourceAfter_run "assembler" fs hshort hlong, by decide +kernel,
    by decide +kernel, by decide +kernel⟩

/-- **A source that is lost**: its extension is the one of programs, so the program is written
in its place. -/
theorem source_lost :
    let source := "PUSH 1\nPRINT_I\nHALT\n".toUTF8.data.toList
    let fs : FileSystem := ⟨["home"], [(["home", "x.bin"], .file source)]⟩
    let after := (run FileSystem.host "assembler" ["x.bin"]).run fs
    after.1.exitCode = 0 ∧ (fs.read "x.bin").toOption = some source ∧
      (after.2.read "x.bin").toOption ≠ some source := by
  decide +kernel

end Assembler

end Command

end StackMachine
