import StackMachine.Files.Load
import StackMachine.Proofs.Files.FileSystem
import StackMachine.Proofs.Program.Binary

/-!
# What a file is loaded as

Loading a file asks a host for its bytes and logs what it finds wrong with them. With a file
system for a host, and apart from what is logged, it is a function of the file system:
`StackMachine.FileSystem.loaded`. It changes nothing, and nothing that was logged before
changes what it comes to (`StackMachine.FileSystem.run_load`). Writing to such a host either
writes or leaves everything as it was.
-/

namespace StackMachine

/-- Logging the diagnostic changes nothing about the result. -/
theorem Assembly.fst_assembleLogged (journal : Journal) (name source : String) :
    (assembleLogged journal name source).1 = assemble source := by
  rw [assembleLogged]
  split <;> simp only [*]

/-- What a file is decoded to does not depend on what was logged before. -/
theorem FileFormat.fst_decode (format : FileFormat) (journal : Journal) (path : String)
    (bytes : List UInt8) :
    (format.decode journal path bytes).1 = (format.decode {} path bytes).1 := by
  rcases format with _ | _ | _
  · rw [decode, decode]
    rcases decodeText bytes with _ | source
    · rfl
    · simp only [Assembly.fst_assembleLogged]
  · rfl
  · rw [decode, decode]
    rcases decodeText bytes with _ | _ <;> rfl

namespace FileSystem

variable {fs : FileSystem} {path : String} {p : Program}

/-- **The program that a file is loaded as**, in the given form. -/
def loaded (fs : FileSystem) (format : FileFormat) (path : String) : Except Error Program :=
  match fs.read path with
  | .error e => .error (.unreadableFile path e.message)
  | .ok bytes => (format.decode {} path bytes).1

/-- **Loading is a function of the file system**, which it leaves as it is, but for what is
logged. -/
theorem run_load (fs : FileSystem) (format : FileFormat) (journal : Journal) (path : String) :
    ∃ journal', (host.load format journal path).run fs =
      pure ((fs.loaded format path, journal'), fs) := by
  have hload : (host.load format journal path).run fs = pure ((match fs.read path with
      | .error e => (.error (.unreadableFile path e.message), journal)
      | .ok bytes => format.decode journal path bytes), fs) := by
    change StateT.run (match fs.read path with
      | .error e => pure (.error (Error.unreadableFile path e.message), journal)
      | .ok bytes => pure (format.decode journal path bytes)) fs = _
    rcases fs.read path with _ | _ <;> rfl
  rw [hload, loaded]
  rcases fs.read path with e | bytes
  · exact ⟨journal, rfl⟩
  · refine ⟨(format.decode journal path bytes).2, ?_⟩
    simp only [← format.fst_decode journal]

theorem run_contains (fs : FileSystem) (path : String) :
    (host.contains path).run fs = pure (fs.contains path, fs) := rfl

/-- **Writing writes, or leaves everything as it was.** -/
theorem run_write (fs : FileSystem) (path : String) (bytes : List UInt8) :
    (host.write path bytes).run fs = pure (match fs.write path bytes with
      | .ok fs' => (.ok (), fs')
      | .error e => (.error e, fs)) := by
  change StateT.run (match fs.write path bytes with
    | .ok fs' => do set fs'; return Except.ok ()
    | .error e => return Except.error e) fs = _
  rcases fs.write path bytes with _ | _ <;> rfl

/-- The file at a path is source text that assembles to the program. -/
def Assembles (fs : FileSystem) (path : String) (p : Program) : Prop :=
  ∃ bytes source, fs.read path = .ok bytes ∧ decodeText bytes = .ok source ∧
    Assembly.assemble source = .ok p

theorem loaded_assembly_eq_ok_iff : fs.loaded .assembly path = .ok p ↔ fs.Assembles path p := by
  rw [loaded, Assembles]
  rcases fs.read path with e | bytes
  · simp
  · rcases hdecode : decodeText bytes with e | source
    · simp [FileFormat.decode, hdecode]
    · rcases hp : Assembly.assemble source with e | q <;>
        simp [FileFormat.decode, Assembly.assembleLogged, hdecode, hp]

/-- A file that is loaded as bytes holds the bytes of the program. -/
theorem loaded_binary_eq_ok_iff :
    fs.loaded .binary path = .ok p ↔ fs.read path = .ok p.toBytes := by
  rw [loaded]
  rcases fs.read path with e | bytes
  · simp
  · rw [Except.ok.injEq]
    exact Program.ofBytes_eq_ok_iff

end FileSystem

end StackMachine
