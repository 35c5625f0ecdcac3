import StackMachine.Instruction

/-!
# Reading opcodes and mnemonics

The table of the instructions is read in both directions: the executor looks an
opcode up, and a program is written with the opcodes of instructions. The two
directions are inverse to each other, so a word is either the opcode of exactly one
instruction or of none. The mnemonics, which the assembler looks up, are read the same
way.
-/

namespace StackMachine

namespace Instruction

variable {i : Instruction} {w : Word}

@[simp] theorem decode?_opcode (i : Instruction) : decode? i.opcode = some i := by
  cases i <;> rfl

theorem opcode_injective {i j : Instruction} (h : i.opcode = j.opcode) : i = j := by
  have hij : some i = some j := by rw [← decode?_opcode i, h, decode?_opcode]
  exact Option.some.inj hij

/-- A word decodes to the one instruction whose opcode it is. -/
theorem decode?_eq_some_iff : decode? w = some i ↔ w = i.opcode := by
  constructor
  · intro h
    have hw := List.find?_some (p := fun j : Instruction => j.opcode == w) h
    exact (eq_of_beq hw).symm
  · rintro rfl
    exact decode?_opcode i

/-- A word that does not decode is the opcode of no instruction. -/
theorem decode?_eq_none_iff : decode? w = none ↔ ∀ i : Instruction, w ≠ i.opcode := by
  constructor
  · rintro h i rfl
    rw [decode?_opcode] at h
    cases h
  · intro h
    cases hd : decode? w with
    | none => rfl
    | some i => exact absurd (decode?_eq_some_iff.mp hd) (h i)

/-- A text names the one instruction whose mnemonic it is in capitals. -/
theorem ofMnemonic?_eq_some_iff {text : String} :
    ofMnemonic? text = some i ↔ text.toList.map Char.toUpper = i.mnemonic.toList := by
  constructor
  · intro h
    have hi := List.find?_some
      (p := fun j : Instruction => j.mnemonic.toList == text.toList.map Char.toUpper) h
    exact (eq_of_beq hi).symm
  · intro h
    rw [ofMnemonic?, h]
    cases i <;> decide

end Instruction

end StackMachine
