import StackMachine.Program.Listing
import StackMachine.Proofs.Instruction

/-!
# Rows tile a program

The rows of a program lie one behind the other, from the first word to the last: every
row has the address at which the row before it ends, and the words of all rows are the
words of the program. No row shows an instruction without its immediates, so every row
shows a statement that could have been written.

* `StackMachine.Entry.Reads` – how a row is read off the words that begin at its address,
  a rule for each kind of row;
* `StackMachine.Tiles` – rows that lie one behind the other, so that each ends where the
  next one begins (`StackMachine.Tiles.boundaries_succ`);
* `StackMachine.Program.tiles_rows` – the rows of a program do.
-/

namespace StackMachine

namespace Entry

/-- What the statement of a row begins with. -/
def head : Entry → Assembly.Head
  | word _ => .word
  | instruction i _ => .instruction i

/-- The words that the row shows as operands. -/
def values : Entry → List Word
  | word w => [w]
  | instruction _ immediates => immediates

/-- The row has as many operands as its head asks for. -/
def IsComplete (e : Entry) : Prop := e.values.length = e.head.arity

/-- The number of words that the row takes up: a word as it is, or an instruction with its
immediates. -/
def size : Entry → Nat
  | word _ => 1
  | instruction i _ => 1 + i.immediates

theorem size_pos (e : Entry) : 0 < e.size := by
  cases e with
  | word w => exact Nat.one_pos
  | instruction i immediates => exact Nat.le_add_right 1 _

theorem words_eq (e : Entry) : e.words = e.head.opcodes ++ e.values := by
  cases e <;> rfl

theorem IsComplete.length_words {e : Entry} (h : e.IsComplete) : e.words.length = e.size := by
  cases e with
  | word w => rfl
  | instruction i immediates =>
    rw [words, List.length_cons, size, Nat.add_comm]
    exact congrArg (1 + ·) h

/-- **How a row is read off words**: what it shows, and the words that are left. An opcode
is shown as a word when it wants an immediate and none is left. -/
inductive Reads : List Word → Entry → List Word → Prop
  | unknown {w : Word} {rest : List Word} (hw : ∀ i : Instruction, w ≠ i.opcode) :
    Reads (w :: rest) (.word w) rest
  | plain {i : Instruction} {rest : List Word} (hi : i.immediates = 0) :
    Reads (i.opcode :: rest) (.instruction i []) rest
  | immediate {i : Instruction} {v : Word} {rest : List Word} (hi : i.immediates = 1) :
    Reads (i.opcode :: v :: rest) (.instruction i [v]) rest
  | truncated {i : Instruction} (hi : i.immediates = 1) : Reads [i.opcode] (.word i.opcode) []

namespace Reads

variable {words rest : List Word} {e : Entry}

theorem isComplete (h : Reads words e rest) : e.IsComplete := by
  cases h with
  | unknown | truncated => rfl
  | plain hi | immediate hi => exact hi.symm

theorem words_eq (h : Reads words e rest) : words = e.words ++ rest := by
  cases h <;> rfl

end Reads

end Entry

/-- **The boundaries of rows**: where they begin, and where the last one ends. -/
def Row.boundaries (rows : List Row) (stop : Nat) : List Nat := rows.map Row.address ++ [stop]

/-- **Rows lie one behind the other** and stand for the words, from an address on. -/
inductive Tiles : Nat → List Row → List Word → Prop
  | nil {address : Nat} : Tiles address [] []
  | cons {address : Nat} {e : Entry} {rows : List Row} {words : List Word} : e.IsComplete →
      Tiles (address + e.words.length) rows words →
      Tiles address (⟨address, e⟩ :: rows) (e.words ++ words)

namespace Tiles

variable {address : Nat} {rows : List Row} {words : List Word}

theorem flatMap_words (h : Tiles address rows words) : rows.flatMap (·.entry.words) = words := by
  induction h with
  | nil => rfl
  | cons _ _ ih => rw [List.flatMap_cons, ih]

theorem isComplete (h : Tiles address rows words) : ∀ r ∈ rows, r.entry.IsComplete := by
  induction h with
  | nil => simp
  | cons he _ ih => exact List.forall_mem_cons.mpr ⟨he, ih⟩

/-- **The first boundary is the address**, whether there are rows or not. -/
theorem boundaries_zero (h : Tiles address rows words) :
    (Row.boundaries rows (address + words.length))[0]? = some address := by
  cases h <;> rfl

/-- **A row ends at the next boundary.** -/
theorem boundaries_succ (h : Tiles address rows words) {j : Nat} {r : Row}
    (hr : rows[j]? = some r) :
    (Row.boundaries rows (address + words.length))[j + 1]? =
      some (r.address + r.entry.size) := by
  induction h generalizing j with
  | nil => cases hr
  | @cons address e rows words he hrest ih =>
    -- The boundaries of the other rows end at the same place.
    have hstop : address + (e.words ++ words).length =
        address + e.words.length + words.length := by
      rw [List.length_append, Nat.add_assoc]
    rw [hstop, Row.boundaries, List.map_cons, List.cons_append, List.getElem?_cons_succ]
    cases j with
    | zero =>
      rw [List.getElem?_cons_zero, Option.some.injEq] at hr
      rw [← hr, ← he.length_words]
      exact boundaries_zero hrest
    | succ j =>
      rw [List.getElem?_cons_succ] at hr
      exact ih hr

end Tiles

theorem Instruction.immediates_eq_one {i : Instruction} (h : i.immediates ≠ 0) :
    i.immediates = 1 := by
  cases i <;> first | rfl | exact absurd rfl h

namespace Program

/-- **The first of the rows for some words** is read off them, and the others are the rows
for the words that are left. -/
theorem exists_reads {words : List Word} (address : Nat) (hne : words ≠ []) :
    ∃ e rest, Entry.Reads words e rest ∧
      rowsFrom address words = ⟨address, e⟩ :: rowsFrom (address + e.words.length) rest := by
  obtain ⟨w, rest, rfl⟩ := List.exists_cons_of_ne_nil hne
  cases hw : Instruction.decode? w with
  | none =>
    refine ⟨.word w, rest, .unknown (Instruction.decode?_eq_none_iff.mp hw), ?_⟩
    rw [rowsFrom.eq_def]
    simp only [hw]
    rfl
  | some i =>
    obtain rfl := Instruction.decode?_eq_some_iff.mp hw
    by_cases hi : i.immediates = 0
    · refine ⟨.instruction i [], rest, .plain hi, ?_⟩
      rw [rowsFrom.eq_def]
      simp only [hw, hi, if_true]
      rfl
    · have hone := Instruction.immediates_eq_one hi
      cases rest with
      | nil =>
        -- The immediate would lie beyond the end.
        refine ⟨.word i.opcode, [], .truncated hone, ?_⟩
        rw [rowsFrom.eq_def]
        simp only [hw, hi, if_false, rowsFrom]
      | cons v rest =>
        refine ⟨.instruction i [v], rest, .immediate hone, ?_⟩
        rw [rowsFrom.eq_def]
        simp only [hw, hi, if_false]
        rfl

/-- **The rows for words tile these words**, however they are decoded. -/
theorem tiles_rowsFrom (address : Nat) (words : List Word) :
    Tiles address (rowsFrom address words) words := by
  -- On the number of words, as every row takes some of them.
  induction hn : words.length using Nat.strongRecOn generalizing address words with
  | ind n ih =>
    by_cases hne : words = []
    · rw [hne, rowsFrom]
      exact .nil
    · obtain ⟨e, rest, hr, heq⟩ := exists_reads address hne
      have hlt : rest.length < n := by
        rw [← hn, hr.words_eq, List.length_append, hr.isComplete.length_words]
        have := e.size_pos
        omega
      rw [heq, hr.words_eq]
      exact .cons hr.isComplete (ih rest.length hlt _ rest rfl)

/-- **The rows of a program tile the program.** -/
theorem tiles_rows (p : Program) : Tiles 0 p.rows p.toList := tiles_rowsFrom 0 p.toList

end Program

end StackMachine
