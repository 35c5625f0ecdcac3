import StackMachine.Assembly.Passes
import StackMachine.Proofs.Assembly.Token
import StackMachine.Proofs.Pointwise
import StackMachine.Proofs.Text.Numeral

/-!
# Statements and the words they are worth

A statement that was read has as many operands as its head asks for, and every operand
becomes one word. So the number of words of a statement is known before any of its
operands has a value, which is what the two passes of the assembler rest on.

The other half is about statements that were written: the name of a head is read as
that head and never as the definition of a label, and the text of a word is read as
that word.
-/

namespace StackMachine

namespace Assembly

variable {s : Statement} {line : Line} {labels : LabelTable} {words : List Word}

/-! ### The number of words -/

theorem Head.size_eq (h : Head) : h.size = h.opcodes.length + h.arity := by
  cases h <;> rfl

/-- **What is read off tokens**: a head that the first token names, with as many operands as
it asks for. -/
theorem Statement.ofTokens_eq_ok_iff {number : Nat} {head : Token} {operands : List Token} :
    Statement.ofTokens number head operands = .ok s ↔
      ∃ h, Head.ofText? head.text = some h ∧ operands.length = h.arity ∧
        s = ⟨number, h, operands⟩ := by
  unfold Statement.ofTokens
  cases Head.ofText? head.text with
  | none => simp
  | some h =>
    by_cases hlength : operands.length = h.arity
    · simp [hlength, eq_comm]
    · simp [hlength]

/-- The statement of a line is read off the tokens of its body. -/
theorem Line.statement?_cons_eq_ok_iff {number : Nat} {names : List Label} {head : Token}
    {operands : List Token} {st : Option Statement} :
    (⟨number, names, head :: operands⟩ : Line).statement? = .ok st ↔
      ∃ s, Statement.ofTokens number head operands = .ok s ∧ st = some s := by
  change (Statement.ofTokens number head operands).map some = .ok st ↔ _
  cases Statement.ofTokens number head operands with
  | error e => simp [Except.map]
  | ok s => simp [Except.map, eq_comm]

/-- A statement that was read has the operands that its head asks for. -/
theorem Line.length_operands (h : line.statement? = .ok (some s)) :
    s.operands.length = s.head.arity := by
  obtain ⟨number, names, _ | ⟨head, operands⟩⟩ := line
  · cases h
  · obtain ⟨_, hs, ⟨⟩⟩ := Line.statement?_cons_eq_ok_iff.mp h
    obtain ⟨_, -, hlength, rfl⟩ := Statement.ofTokens_eq_ok_iff.mp hs
    exact hlength

theorem Statement.emit_eq_ok_iff :
    s.emit labels = .ok words ↔
      ∃ values, s.operands.mapM (resolve labels s.line) = .ok values ∧
        words = s.head.opcodes ++ values := by
  rw [Statement.emit, Except.bind_eq_ok_iff]
  refine exists_congr fun values => and_congr_right fun _ => ?_
  exact ⟨fun h => by cases h; rfl, fun h => by rw [h]; rfl⟩

/-- **A statement takes up as many words as were set aside for it.** -/
theorem Statement.length_emit (hs : s.operands.length = s.head.arity)
    (h : s.emit labels = .ok words) : words.length = s.head.size := by
  obtain ⟨values, hv, rfl⟩ := Statement.emit_eq_ok_iff.mp h
  rw [List.length_append, ← (List.mapM_eq_ok_iff.mp hv).length_eq, hs, Head.size_eq]

theorem Head.size_pos (h : Head) : 0 < h.size := by
  cases h with
  | word => exact Nat.one_pos
  | instruction i => exact Nat.le_add_right 1 _

/-! ### Statements that were written -/

/-- **A head is read off its name.** -/
theorem Head.ofText?_name (h : Head) : Head.ofText? h.name = some h := by
  cases h with
  | word => decide
  | instruction i => cases i <;> decide

/-- The ASCII characters from the minus sign on neither separate nor begin a comment. -/
theorem isSeparator_of_toNat {c : Char} (hle : 45 ≤ c.toNat) (hlt : c.toNat < 127) :
    Text.isSeparator c = false ∧ c ≠ '#' := by
  have hne {d : Char} (hd : d.toNat < 45) : c ≠ d := by
    rintro rfl
    omega
  have hblank : Text.isBlank c = false := by
    simp only [Text.isBlank, Text.blankRanges, List.any_cons, List.any_nil, Bool.or_eq_false_iff,
      Bool.and_eq_false_iff, decide_eq_false_iff_not, and_true]
    omega
  rw [Text.isSeparator, hblank, Bool.or_false, beq_eq_false_iff_ne]
  exact ⟨hne (by decide), hne (by decide)⟩

/-- The text of an integer is what a token can be. -/
theorem isWord_toString (z : Int) : Token.IsWord (toString z).toList := by
  have hall : ∀ c ∈ (toString z).toList, Text.isSeparator c = false ∧ c ≠ '#' := by
    intro c hc
    rcases Numeral.mem_toString hc with rfl | h
    · decide
    · have hdigit : 48 ≤ c.toNat ∧ c.toNat ≤ 57 := Char.isDigit_iff_toNat.mp h
      exact isSeparator_of_toNat (by omega) (by omega)
  exact ⟨Numeral.toString_ne_nil z, fun c hc => (hall c hc).1, fun c hc => (hall c hc).2⟩

/-- The name of a head is what a token can be. -/
theorem Head.isWord_name (h : Head) : Token.IsWord h.name.toList := by
  have hne : h.name.toList.isEmpty = false := by
    cases h with
    | word => rfl
    | instruction i => cases i <;> rfl
  have hall : (h.name.toList.all fun c => !Text.isSeparator c && c != '#') = true := by
    cases h with
    | word => rfl
    | instruction i => cases i <;> rfl
  have hmem := List.all_eq_true.mp hall
  simp only [Bool.and_eq_true, Bool.not_eq_true', bne_iff_ne] at hmem
  exact ⟨List.isEmpty_eq_false_iff.mp hne, fun c hc => (hmem c hc).1, fun c hc => (hmem c hc).2⟩

/-- The name of a head is no definition of a label. -/
theorem Label.ofToken?_name (h : Head) (column : Nat) : Label.ofToken? ⟨h.name, column⟩ = none := by
  have hcolon : h.name.toList.getLast? ≠ some ':' := by
    cases h with
    | word => decide
    | instruction i => cases i <;> decide
  rw [Label.ofToken?, if_neg fun hlabel => hcolon hlabel.2]

/-- **The text of a word is an operand with that value**, whatever the labels. -/
theorem resolve_toString (labels : LabelTable) (number : Nat) (w : Word) (column : Nat) :
    resolve labels number ⟨toString w.toInt, column⟩ = .ok w := by
  unfold resolve
  split
  case h_1 name hname =>
    have hat : '@' ∈ (toString w.toInt).toList := by rw [hname]; simp
    rcases Numeral.mem_toString hat with h | h
    · exact absurd h (by decide)
    · exact absurd h (by decide)
  case h_2 => rw [Numeral.word?_toString]

end Assembly

end StackMachine
