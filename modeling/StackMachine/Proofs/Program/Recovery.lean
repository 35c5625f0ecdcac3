import StackMachine.Proofs.Assembly.Linking
import StackMachine.Proofs.Program.Listing
import StackMachine.Proofs.Text.Spelling

/-!
# Instructions read back

A program does not say which of its words are opcodes, and an operand may be any word, the
opcode of an instruction included. All the same the listing of a program that was assembled
from instructions shows these instructions, line by line, as long as no raw words were put
between them.

The reason is that a listing is read from the beginning. A row that begins at an opcode with
all its immediates ends where they end, whatever they are
(`StackMachine.Program.rowsFrom_instruction`), and this is where the next line of the source
has put its opcode. So the rows are never out of step, and nothing has to be known about the
words after an opcode but their number.

* `StackMachine.Assembly.RecoversFrom` – the rows for words that instruction lines are worth;
* `StackMachine.Program.exists_recovers` – **the listing shows the instructions of the
  source**, with their addresses and the values of their operands.
-/

namespace StackMachine

/-! ### One instruction -/

namespace Program

/-- **An opcode with all its immediates is a row**, and the other rows begin behind them. -/
theorem rowsFrom_instruction {i : Instruction} {values : List Word}
    (h : values.length = i.immediates) (address : Nat) (rest : List Word) :
    rowsFrom address (i.opcode :: values ++ rest) =
      ⟨address, .instruction i values⟩ :: rowsFrom (address + i.size) rest := by
  have hsize : i.size = 1 + values.length := by rw [h, Instruction.size]
  rw [hsize]
  by_cases hi : i.immediates = 0
  · obtain rfl := List.length_eq_zero_iff.mp (h.trans hi)
    rw [List.singleton_append, rowsFrom.eq_def]
    simp only [Instruction.decode?_opcode, hi, if_true]
    rfl
  · obtain ⟨v, rfl⟩ := List.length_eq_one_iff.mp (h.trans (Instruction.immediates_eq_one hi))
    rw [List.cons_append, List.singleton_append, rowsFrom.eq_def]
    simp only [Instruction.decode?_opcode, hi, if_false]
    rfl

end Program

/-- The text of an instruction in a listing. -/
theorem Entry.text_instruction (i : Instruction) (values : List Word) :
    (Entry.instruction i values).text =
      " ".intercalate (i.mnemonic :: values.map fun w => toString w.toInt) := by
  rw [← String.toList_inj, Entry.toList_text, String.toList_intercalate, List.map_cons,
    List.map_map]
  rfl

/-! ### The instructions of a source text -/

namespace Assembly

variable {source : String} {all ss : List Sentence} {parts : List (List Word)}
  {lines before after : List (Instruction × List String)} {i : Instruction}
  {operands : List String} {rows : List Row} {address k : Nat} {w : Word}

/-- **No raw words**: on no line does the statement begin with the directive for raw words, in
any case. -/
def HasNoRawWord (source : String) : Prop :=
  ∀ l ∈ Line.ofSource source, ∀ t ∈ l.body.head?, ¬Text.SameLetters t.text wordDirective

instance (source : String) : Decidable (HasNoRawWord source) :=
  inferInstanceAs (Decidable (∀ l ∈ _, ∀ t ∈ _, ¬_))

/-- The instruction that a sentence states, if it states one, and its operands. -/
def Sentence.instruction? (s : Sentence) : Option (Instruction × List String) :=
  match s.statement with
  | some (.instruction i, operands) => some (i, operands)
  | _ => none

/-- **The instruction lines**: the instructions that sentences state, in order, and their
operands. -/
def instructions (ss : List Sentence) : List (Instruction × List String) :=
  ss.filterMap Sentence.instruction?

/-- **The number that an operand is**: what a numeral spells, or the address that a name stands
for, as it is put into a word. -/
inductive Number (all : List Sentence) : String → Int → Prop
  | reference {name : String} {k : Nat} : StandsFor all name k →
      Number all ("@" ++ name) (Int64.ofNat k).toInt
  | numeral {text : String} {z : Int} : Numeral.Spells text.toList z → Number all text z

/-- The value of an operand is the number that it is. -/
theorem Value.number {text : String} (h : Value all text w) : Number all text w.toInt := by
  cases h with
  | reference hk => exact .reference hk
  | numeral hw => exact .numeral (Numeral.word?_eq_some_iff.mp hw)

/-- **A line reads as one sentence only.** -/
theorem Line.Reads.unique {line : Line} {s s' : Sentence} (h : line.Reads s)
    (h' : line.Reads s') : s = s' := by
  obtain ⟨labels, statement⟩ := s
  obtain ⟨labels', statement'⟩ := s'
  obtain ⟨-, rfl, st, hst, rfl⟩ := h
  obtain ⟨-, rfl, st', hst', rfl⟩ := h'
  rw [hst] at hst'
  cases hst'
  rfl

/-- The sentences of a source text are the only ones that its lines say. -/
theorem eq_of_says {ss' : List Sentence} (h : List.Forall₂ Says (tokenLines source) ss)
    (h' : List.Forall₂ Says (tokenLines source) ss') : ss = ss' :=
  have hunique : Relator.RightUnique Line.Reads := fun _ _ _ => Line.Reads.unique
  hunique.forall₂ (forall₂_reads_iff.mp h) (forall₂_reads_iff.mp h')

/-- A sentence of a text without raw words states an instruction if it states anything. -/
theorem HasNoRawWord.statement (hword : HasNoRawWord source)
    (h : List.Forall₂ Says (tokenLines source) ss) :
    ∀ s ∈ ss, ∀ operands, s.statement ≠ some (.word, operands) := by
  intro s hs operands hstatement
  obtain ⟨line, hline, -, -, st, hst, hs'⟩ := (forall₂_reads_iff.mp h).exists_of_mem_right hs
  rw [hstatement] at hs'
  obtain ⟨number, labels, _ | ⟨t, rest⟩⟩ := line
  · cases hst
    cases hs'
  · obtain ⟨head, hname, -, rfl⟩ := Line.statement?_eq_ok_iff.mp hst
    obtain ⟨rfl, -⟩ := Prod.mk.inj (Option.some.inj hs')
    exact hword _ hline t rfl hname

/-! ### Reading them back -/

/-- **Rows show instruction lines**, from an address on: one row for each line, behind the rows
for the lines before, with the values of the operands. -/
inductive RecoversFrom (all : List Sentence) :
    Nat → List (Instruction × List String) → List Row → Prop
  | nil {address : Nat} : RecoversFrom all address [] []
  | cons {address : Nat} {i : Instruction} {operands : List String} {values : List Word}
      {lines : List (Instruction × List String)} {rows : List Row} :
      List.Forall₂ (Value all) operands values →
      RecoversFrom all (address + i.size) lines rows →
      RecoversFrom all address ((i, operands) :: lines)
        (⟨address, .instruction i values⟩ :: rows)

/-- **The rows for what sentences are worth** show the instruction lines. -/
theorem recoversFrom_rowsFrom {tokens : List (List String)} (address : Nat)
    (hsaid : List.Forall₂ Says tokens ss) (h : List.Forall₂ (Worth all) ss parts)
    (hword : ∀ s ∈ ss, ∀ operands, s.statement ≠ some (.word, operands)) :
    RecoversFrom all address (instructions ss) (Program.rowsFrom address parts.flatten) := by
  -- On the sentences; those without a statement are worth nothing, and make no row.
  induction h generalizing address tokens with
  | nil =>
    rw [List.flatten_nil, Program.rowsFrom]
    exact .nil
  | @cons s words ss parts hworth _ ih =>
    obtain _ | ⟨hline, hrest⟩ := hsaid
    obtain ⟨hs, hss⟩ := List.forall_mem_cons.mp hword
    rw [List.flatten_cons, instructions]
    cases hworth with
    | nothing => exact ih address hrest hss
    | @statement names head operands values hvalues =>
      cases head with
      | word => exact absurd rfl (hs operands)
      | instruction i =>
        have hlength : values.length = i.immediates :=
          hvalues.length_eq.symm.trans (hline.length_operands rfl)
        rw [List.filterMap_cons_some (by rfl)]
        change RecoversFrom all address _
          (Program.rowsFrom address (i.opcode :: values ++ parts.flatten))
        rw [Program.rowsFrom_instruction hlength]
        exact .cons hvalues (ih _ hrest hss)

theorem RecoversFrom.length_eq (h : RecoversFrom all address lines rows) :
    rows.length = lines.length := by
  induction h with
  | nil => rfl
  | cons _ _ ih => rw [List.length_cons, List.length_cons, ih]

/-- **The row for a line** is behind as many rows as there are lines before it, and its address
is the number of words that these take up. -/
theorem RecoversFrom.exists_row
    (h : RecoversFrom all address (before ++ (i, operands) :: after) rows) :
    ∃ values, List.Forall₂ (Value all) operands values ∧ rows[before.length]? =
      some ⟨address + (before.map fun line => line.1.size).sum, .instruction i values⟩ := by
  induction before generalizing address rows with
  | nil =>
    cases h with
    | cons hvalues _ => exact ⟨_, hvalues, rfl⟩
  | cons line before ih =>
    cases h with
    | cons _ hrest =>
      obtain ⟨values, hvalues, hrow⟩ := ih hrest
      refine ⟨values, hvalues, ?_⟩
      rw [List.length_cons, List.getElem?_cons_succ, hrow, List.map_cons, List.sum_cons,
        Nat.add_assoc]

end Assembly

namespace Program

open Assembly

variable {source : String} {p : Program}

/-- The lines of a listing are its rows. -/
theorem lines_listing (p : Program) :
    Text.lines p.listing.toList = p.rows.map fun r => r.text.toList := by
  rw [toList_listing]
  refine Text.lines_terminated fun l hl => ?_
  obtain ⟨r, -, rfl⟩ := List.mem_map.mp hl
  exact r.isSingleLine_text

/-- **A listing shows the instructions of a source text** whose lines say the given
sentences. -/
structure Recovers (source : String) (p : Program) (ss : List Sentence) : Prop where
  sentences : List.Forall₂ Says (tokenLines source) ss
  /-- There are as many rows as there are instruction lines. -/
  count : p.rows.length = (instructions ss).length
  /-- They come in the same order: behind the rows for the lines before, at the address where
  these lines end, there is a row that shows the instruction of the line, with the numbers that
  its operands are. It is no row for a raw word. -/
  row : ∀ before i operands after, instructions ss = before ++ (i, operands) :: after →
    ∃ r values, p.rows[before.length]? = some r ∧
      r.address = (before.map fun line => 1 + line.1.immediates).sum ∧
      r.entry = .instruction i values ∧
      List.Forall₂ (fun text w => Number ss text w.toInt) operands values ∧
      r.text = Text.pad .right 6 (toString r.address) ++ ": " ++
        " ".intercalate (i.mnemonic :: values.map fun w => toString w.toInt)
  /-- The lines of the listing are the texts of the rows. -/
  listing : Text.lines p.listing.toList = p.rows.map fun r => r.text.toList
  /-- The address that a name stands for is the number in the row, as long as the words of the
  program can be counted in a word. -/
  reference : p.size ≤ Int64.maxValue.toInt →
    ∀ name k, StandsFor ss name k → (Int64.ofNat k).toInt = k

/-- **The listing of a program that was assembled from instructions shows these
instructions.** -/
theorem exists_recovers (h : assemble source = .ok p) (hword : HasNoRawWord source) :
    ∃! ss, Recovers source p ss := by
  obtain ⟨ss, hm⟩ := assemble_eq_ok_iff.mp h
  obtain ⟨parts, hparts, hwords⟩ := hm.worth
  have hsize := hm.length_eq
  have hrows : RecoversFrom ss 0 (instructions ss) p.rows := by
    rw [rows, hwords]
    exact recoversFrom_rowsFrom 0 hm.sentences hparts (hword.statement hm.sentences)
  refine ⟨ss, ⟨hm.sentences, hrows.length_eq, ?_, p.lines_listing, ?_⟩,
    fun _ h' => eq_of_says h'.sentences hm.sentences⟩
  · intro before i operands after hsplit
    rw [hsplit] at hrows
    obtain ⟨values, hvalues, hrow⟩ := hrows.exists_row
    refine ⟨_, values, hrow, Nat.zero_add _, rfl, hvalues.imp fun _ _ => Value.number, ?_⟩
    rw [Row.text, Entry.text_instruction]
  · intro hfits name k hk
    have hle := hk.le_size
    rw [← hsize, p.length_toList] at hle
    have hmax : Int64.maxValue.toInt = 9223372036854775807 := rfl
    exact Int64.toInt_ofNat_of_lt (by omega)

/-- Two operands are opcodes, one of them an address, and labels, a comment, a blank line and a
carriage return stand between the instructions. -/
theorem exists_recovers_opcode_as_operand :
    assemble "a: PUSH 0x101 # 257\r\n\nload,@a\nb: c:\nJMP\nend: Halt" =
        .ok (ofList [257, 257, 260, 0, 1041, 1]) ∧
      HasNoRawWord "a: PUSH 0x101 # 257\r\n\nload,@a\nb: c:\nJMP\nend: Halt" ∧
      ∃! ss, Recovers "a: PUSH 0x101 # 257\r\n\nload,@a\nb: c:\nJMP\nend: Halt"
        (ofList [257, 257, 260, 0, 1041, 1]) ss := by
  have h : assemble "a: PUSH 0x101 # 257\r\n\nload,@a\nb: c:\nJMP\nend: Halt" =
      .ok (ofList [257, 257, 260, 0, 1041, 1]) := by rfl
  have hword : HasNoRawWord "a: PUSH 0x101 # 257\r\n\nload,@a\nb: c:\nJMP\nend: Halt" := by
    decide +kernel
  exact ⟨h, hword, exists_recovers h hword⟩

example : (ofList [257, 257, 260, 0, 1041, 1]).listing =
    "     0: PUSH 257\n     2: LOAD 0\n     4: JMP\n     5: HALT\n" := by rfl

end Program

end StackMachine
