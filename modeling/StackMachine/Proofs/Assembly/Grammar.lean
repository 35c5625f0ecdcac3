import Mathlib.Data.List.Forall2
import StackMachine.Proofs.Assembly.Fields
import StackMachine.Proofs.Assembly.Statement
import StackMachine.Proofs.Instruction
import StackMachine.Proofs.Text.Letters

/-!
# What a line may say

The grammar of the assembly language, over the texts of tokens. It knows nothing of the
places of tokens, of errors or of the order in which things are checked: a line is a
sequence of texts, and `StackMachine.Assembly.Says` relates it to the **sentence** that it
is, the names it defines and what it states. There is one rule for each way to begin a
line:

| the line begins with | and goes on with                     | so it          |
|----------------------|--------------------------------------|----------------|
| nothing              |                                      | is empty       |
| `name:`              | a line                               | defines `name` |
| a head, in any case  | as many operands as the head asks for | is a statement |

No text falls under two of the rules, since heads do not end with a colon, and a colon
alone falls under none. `StackMachine.Assembly.reads_iff` is the bridge to the way in
which the assembler takes a line apart.
-/

namespace StackMachine

namespace Assembly

variable {name text : String} {tokens : List String} {number : Nat} {t : Token} {l : Label}
  {h : Head}

/-! ### Names -/

/-- A letter or an underscore. -/
def IsNameStart (c : Char) : Prop := ('A' ≤ c ∧ c ≤ 'Z') ∨ ('a' ≤ c ∧ c ≤ 'z') ∨ c = '_'

/-- A letter, an underscore or a digit. -/
def IsNameChar (c : Char) : Prop := IsNameStart c ∨ ('0' ≤ c ∧ c ≤ '9')

/-- **A name**: a letter or an underscore, and then letters, underscores and digits. -/
def IsName (name : String) : Prop :=
  ∃ c rest, name.toList = c :: rest ∧ IsNameStart c ∧ ∀ d ∈ rest, IsNameChar d

theorem isNameStart_iff {c : Char} : (c.isAlpha || c == '_') = true ↔ IsNameStart c := by
  have halpha : c.isAlpha =
      (decide (c.val ≥ 'A'.val ∧ c.val ≤ 'Z'.val) ||
        (decide (c.val ≥ 'a'.val) && decide (c.val ≤ 'z'.val))) := rfl
  simp [IsNameStart, halpha, Char.le_def, or_assoc]

theorem isNameChar_iff {c : Char} : (c.isAlphanum || c == '_') = true ↔ IsNameChar c := by
  rw [IsNameChar, ← isNameStart_iff, ← Numeral.isDigit_iff]
  simp only [Char.isAlphanum, Bool.or_eq_true, or_right_comm]

/-- **The names that may be given to labels are the names.** -/
theorem isLabelName_iff : isLabelName name = true ↔ IsName name := by
  unfold isLabelName IsName
  cases name.toList with
  | nil => simp
  | cons c rest =>
    simp only [Bool.and_eq_true, List.all_eq_true, isNameStart_iff, isNameChar_iff]
    constructor
    · rintro ⟨hc, hrest⟩
      exact ⟨c, rest, rfl, hc, hrest⟩
    · rintro ⟨_, _, hcs, hc, hrest⟩
      cases hcs
      exact ⟨hc, hrest⟩

theorem IsName.ne_empty (h : IsName name) : name ≠ "" := by
  rintro rfl
  obtain ⟨c, rest, hcs, -⟩ := h
  cases hcs

/-! ### Sentences -/

/-- **What a line says.** -/
structure Sentence where
  /-- The names that it defines. -/
  labels : List String
  /-- The head and the operands of its statement, if it has one. -/
  statement : Option (Head × List String)

/-- **The grammar of lines.** -/
inductive Says : List String → Sentence → Prop
  | nothing : Says [] ⟨[], none⟩
  | label {name : String} {tokens : List String} {s : Sentence} : IsName name → Says tokens s →
      Says ((name ++ ":") :: tokens) ⟨name :: s.labels, s.statement⟩
  | statement {text : String} {h : Head} {operands : List String} : Text.SameLetters text h.name →
      operands.length = h.arity → Says (text :: operands) ⟨[], some (h, operands)⟩

/-- The lines of a source text, as the texts of their tokens. -/
def tokenLines (source : String) : List (List String) :=
  (Text.lines source.toList).map fun line => (Text.chunks line).map String.ofList

/-! ### Taking lines apart -/

/-- **A head is read off the texts that are its name but for the case of letters.** -/
theorem Head.ofText?_eq_some_iff : Head.ofText? text = some h ↔ Text.SameLetters text h.name := by
  cases h with
  | word =>
    have hname : Text.SameLetters text Head.word.name ↔
        text.toList.map Char.toLower = wordDirective.toList := Iff.rfl
    rw [hname, ofText?]
    by_cases hword : text.toList.map Char.toLower = wordDirective.toList <;> simp [hword]
  | instruction i =>
    have hupper : i.mnemonic.toList.map Char.toUpper = i.mnemonic.toList := by
      cases i <;> decide
    have hne : wordDirective.toList.map Char.toUpper ≠ i.mnemonic.toList := by
      cases i <;> decide
    rw [Text.sameLetters_iff, Head.name, hupper, ← Instruction.ofMnemonic?_eq_some_iff, ofText?]
    by_cases hword : text.toList.map Char.toLower = wordDirective.toList
    · -- The directive is no mnemonic, in capitals either.
      have hcapitals : text.toList.map Char.toUpper = wordDirective.toList.map Char.toUpper := by
        rw [← hword, List.map_map]
        simp only [Function.comp_def, Char.toUpper_toLower]
      rw [if_pos hword, Instruction.ofMnemonic?_eq_some_iff, hcapitals]
      exact ⟨fun h => (nomatch h), fun h => absurd h hne⟩
    · simp [hword]

/-- **The token of a definition is the name with a colon behind it.** -/
theorem Label.ofToken?_eq_some_iff :
    Label.ofToken? t = some l ↔ l.name ≠ "" ∧ t.text = l.name ++ ":" ∧ l.column = t.column := by
  rw [Label.ofToken?, Option.ite_none_right_eq_some]
  constructor
  · rintro ⟨⟨hlength, hlast⟩, hl⟩
    obtain rfl := Option.some.inj hl
    have happend := List.dropLast_append_getLast? ':' hlast
    refine ⟨fun hempty => ?_, ?_, rfl⟩
    · -- A mere colon is too short.
      rw [String.ofList_eq_empty_iff] at hempty
      rw [hempty] at happend
      rw [← happend] at hlength
      exact absurd hlength (by decide)
    · rw [← String.toList_inj, String.toList_append, String.toList_ofList, ← happend]
      simp
  · rintro ⟨hne, htext, hcolumn⟩
    have htoList : t.text.toList = l.name.toList ++ [':'] := by
      rw [htext, String.toList_append]
      rfl
    have hname : l.name.toList ≠ [] := fun hnil => hne (String.toList_eq_nil_iff.mp hnil)
    have hpos := List.length_pos_iff.mpr hname
    rw [htoList, List.dropLast_concat, String.ofList_toList, ← hcolumn]
    refine ⟨⟨?_, by simp⟩, rfl⟩
    rw [List.length_append, List.length_singleton]
    omega

/-- A head in any case is no definition of a label. -/
theorem Label.ofToken?_of_sameLetters (hname : Text.SameLetters t.text h.name) :
    Label.ofToken? t = none := by
  have hcolon : (h.name.toList.map Char.toLower).getLast? ≠ some ':' := by
    cases h with
    | word => decide
    | instruction i => cases i <;> decide
  rw [Label.ofToken?, if_neg]
  rintro ⟨-, hlast⟩
  rw [← hname, List.getLast?_map, hlast] at hcolon
  exact hcolon rfl

/-- **A line that was taken apart reads as a sentence**: its labels have names, and its
statement could be read. -/
structure Line.Reads (line : Line) (s : Sentence) : Prop where
  names : ∀ l ∈ line.labels, IsName l.name
  labels : s.labels = line.labels.map Label.name
  statement : ∃ st, line.statement? = .ok st ∧
    s.statement = st.map fun st => (st.head, st.operands.map Token.text)

theorem Line.ofTokens_label {rest : List Token} (ht : Label.ofToken? t = some l) :
    Line.ofTokens number (t :: rest) =
      { Line.ofTokens number rest with labels := l :: (Line.ofTokens number rest).labels } := by
  rw [Line.ofTokens, Line.split, ht]
  rfl

theorem Line.ofTokens_body {rest : List Token} (ht : Label.ofToken? t = none) :
    Line.ofTokens number (t :: rest) = ⟨number, [], t :: rest⟩ := by
  rw [Line.ofTokens, Line.split, ht]

/-- The statement of a line is its head, in any case, with as many operands as it asks for. -/
theorem Line.statement?_eq_ok_iff {labels : List Label} {rest : List Token}
    {st : Option Statement} :
    (⟨number, labels, t :: rest⟩ : Line).statement? = .ok st ↔
      ∃ h, Text.SameLetters t.text h.name ∧ rest.length = h.arity ∧
        st = some ⟨number, h, rest⟩ := by
  simp only [Line.statement?_cons_eq_ok_iff, Statement.ofTokens_eq_ok_iff, Head.ofText?_eq_some_iff]
  constructor
  · rintro ⟨_, ⟨h, hname, hlength, rfl⟩, rfl⟩
    exact ⟨h, hname, hlength, rfl⟩
  · rintro ⟨h, hname, hlength, rfl⟩
    exact ⟨_, ⟨h, hname, hlength, rfl⟩, rfl⟩

/-- **The sentences of a line are what it reads as once it is taken apart.** -/
theorem reads_iff (number : Nat) {tokens : List Token} {s : Sentence} :
    Says (tokens.map Token.text) s ↔ (Line.ofTokens number tokens).Reads s := by
  induction tokens generalizing s with
  | nil =>
    constructor
    · rintro ⟨⟩
      exact ⟨by simp [Line.ofTokens, Line.split], rfl, none, rfl, rfl⟩
    · rintro ⟨-, hlabels, st, hst, hs⟩
      obtain ⟨labels, statement⟩ := s
      cases hst
      cases hlabels
      cases hs
      exact .nothing
  | cons t rest ih =>
    cases ht : Label.ofToken? t with
    | none =>
      rw [Line.ofTokens_body ht, List.map_cons]
      constructor
      · intro hsaid
        generalize htext : t.text = text at hsaid
        cases hsaid with
        | label hname =>
          -- The token would have been the definition of a label.
          have hlabel := Label.ofToken?_eq_some_iff (t := t) (l := ⟨_, t.column⟩).mpr
            ⟨hname.ne_empty, htext, rfl⟩
          rw [ht] at hlabel
          cases hlabel
        | @statement _ h _ hname hlength =>
          rw [← htext] at hname
          rw [List.length_map] at hlength
          exact ⟨by simp, rfl, _, Line.statement?_eq_ok_iff.mpr ⟨h, hname, hlength, rfl⟩, rfl⟩
      · rintro ⟨-, hlabels, st, hst, hs⟩
        obtain ⟨labels, statement⟩ := s
        obtain ⟨h, hname, hlength, rfl⟩ := Line.statement?_eq_ok_iff.mp hst
        cases hlabels
        cases hs
        exact .statement hname (by rwa [List.length_map])
    | some l =>
      obtain ⟨hne, htext, -⟩ := Label.ofToken?_eq_some_iff.mp ht
      rw [Line.ofTokens_label ht, List.map_cons]
      constructor
      · intro hsaid
        generalize htext' : t.text = text at hsaid
        cases hsaid with
        | @label name _ s hname hrest =>
          obtain ⟨hnames, hlabels, st, hst, hs⟩ := ih.mp hrest
          obtain rfl : l.name = name := by
            rw [htext] at htext'
            exact String.append_left_inj ":" |>.mp htext'
          refine ⟨List.forall_mem_cons.mpr ⟨hname, hnames⟩, ?_, st, hst, hs⟩
          rw [hlabels, List.map_cons]
        | statement hname =>
          -- No head ends with a colon.
          rw [← htext'] at hname
          rw [Label.ofToken?_of_sameLetters hname] at ht
          cases ht
      · rintro ⟨hnames, hlabels, st, hst, hs⟩
        obtain ⟨labels, statement⟩ := s
        obtain ⟨hname, hrest⟩ := List.forall_mem_cons.mp hnames
        have hsaid : Says (rest.map Token.text)
            ⟨(Line.ofTokens number rest).labels.map Label.name, statement⟩ :=
          ih.mpr ⟨hrest, rfl, st, hst, hs⟩
        cases hlabels
        rw [htext]
        exact .label hname hsaid

end Assembly

end StackMachine
