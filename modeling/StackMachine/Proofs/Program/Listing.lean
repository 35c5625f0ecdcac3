import StackMachine.Proofs.Assembly.Passes
import StackMachine.Proofs.Program.Rows
import StackMachine.Proofs.Text.Lines

/-!
# Listings are source text

A listing without its addresses assembles to the program that was listed. The assembler
knows nothing of listings: it cuts the text into lines and these into tokens, looks the
head up and reads the operands. So the listing is followed through all of these, from
the words of a row to the tokens of a statement, from there to a line and to the text,
and back again.

* `StackMachine.Assembly.assemble_of_lines` – a text with a row's statement on every line
  assembles to the words of the rows;
* `StackMachine.Program.assemble_listing` – the listing of a program is
  such a text.
-/

namespace StackMachine

/-! ### The statement of a row -/

namespace Entry

/-- The words of the statement, as text. -/
def tokens (e : Entry) : List (List Char) :=
  e.head.name.toList :: e.values.map fun w => (toString w.toInt).toList

theorem isWord_of_mem_tokens {e : Entry} {w : List Char} (h : w ∈ e.tokens) : Token.IsWord w := by
  rcases List.mem_cons.mp h with rfl | h
  · exact Assembly.Head.isWord_name e.head
  · obtain ⟨v, -, rfl⟩ := List.mem_map.mp h
    exact Assembly.isWord_toString v.toInt

/-- A list with the separator in it is two lists. -/
theorem intercalate_append_cons {α : Type} (sep a b : List α) (rest : List (List α)) :
    sep.intercalate ((a ++ sep ++ b) :: rest) = sep.intercalate (a :: b :: rest) := by
  rw [List.intercalate_cons_cons]
  cases rest with
  | nil => simp
  | cons c rest => simp [List.intercalate_cons_cons]

/-- The operands are written behind the text so far. -/
theorem toList_foldl_values (values : List Word) (text : String) :
    (values.foldl (fun text w => text ++ " " ++ toString w.toInt) text).toList =
      [' '].intercalate (text.toList :: values.map fun w => (toString w.toInt).toList) := by
  induction values generalizing text with
  | nil => simp
  | cons w values ih =>
    -- One operand more in the text so far is one word more in the line.
    rw [List.foldl_cons, ih, List.map_cons, ← intercalate_append_cons]
    simp

/-- **The text of a row is its tokens**, with blanks between them. -/
theorem toList_text (e : Entry) : e.text.toList = [' '].intercalate e.tokens := by
  cases e with
  | word w => exact toList_foldl_values [w] Assembly.wordDirective
  | instruction i immediates => exact toList_foldl_values immediates i.mnemonic

theorem isSingleLine_text (e : Entry) : Text.IsSingleLine e.text.toList := by
  have hall : ∀ c ∈ e.text.toList, c = ' ' ∨ Text.isSeparator c = false := by
    intro c hc
    rw [toList_text] at hc
    obtain h | ⟨w, hw, hcw⟩ := Token.mem_intercalate hc
    · exact Or.inl h
    · exact Or.inr ((isWord_of_mem_tokens hw).isSeparator c hcw)
  constructor
  · exact fun h => absurd (hall '\n' h) (by decide)
  · exact fun h => absurd (hall '\r' h) (by decide)

theorem text_ne_nil (e : Entry) : e.text.toList ≠ [] := by
  have hname : e.head.name.toList ≠ [] := (Assembly.Head.isWord_name e.head).ne_nil
  rw [toList_text, tokens]
  cases e.values.map fun w => (toString w.toInt).toList with
  | nil => rwa [List.intercalate_singleton]
  | cons w ws => simp [List.intercalate_cons_cons, hname]

end Entry

/-! ### Assembling rows -/

namespace Assembly

variable {e : Entry} {es : List Entry} {tokens operands : List Token} {values : List Word}

/-- Operands that were written have their values. -/
theorem mapM_resolve (labels : LabelTable) (number : Nat)
    (h : operands.map Token.text = values.map fun w => toString w.toInt) :
    operands.mapM (resolve labels number) = .ok values := by
  induction operands generalizing values with
  | nil =>
    have hnil : values = [] := by simpa using h.symm
    rw [hnil]
    rfl
  | cons t operands ih =>
    cases values with
    | nil => cases h
    | cons w values =>
      obtain ⟨text, column⟩ := t
      obtain ⟨rfl, hrest⟩ := List.cons.inj h
      exact List.mapM_cons_eq_ok_iff.mpr
        ⟨w, values, resolve_toString labels number w column, ih hrest, rfl⟩

/-- **The line of a row's tokens** defines no label and has the statement of the row,
which becomes the words of the row whatever labels there are. -/
theorem statement?_ofTokens (number : Nat) (he : e.IsComplete)
    (h : tokens.map Token.text = e.tokens.map String.ofList) :
    (Line.ofTokens number tokens).labels = [] ∧
      ∃ s, (Line.ofTokens number tokens).statement? = .ok (some s) ∧
        ∀ labels, s.emit labels = .ok e.words := by
  cases tokens with
  | nil => cases h
  | cons t operands =>
    obtain ⟨text, column⟩ := t
    obtain ⟨htext, hvalues⟩ := List.cons.inj h
    obtain rfl : text = e.head.name := by rw [← String.ofList_toList (s := e.head.name), ← htext]
    -- The head ends the labels at once, so that the whole line is the statement.
    have hline : Line.ofTokens number (⟨e.head.name, column⟩ :: operands) =
        ⟨number, [], ⟨e.head.name, column⟩ :: operands⟩ := by
      rw [Line.ofTokens, Line.split, Label.ofToken?_name]
    have hlength : operands.length = e.head.arity := by
      rw [← he, ← List.length_map Token.text, hvalues]
      simp
    rw [hline]
    refine ⟨rfl, ⟨number, e.head, operands⟩, ?_, fun labels => ?_⟩
    · simp only [Line.statement?, Statement.ofTokens, Head.ofText?_name, hlength, if_true]
      rfl
    · refine Statement.emit_eq_ok_iff.mpr ⟨e.values, mapM_resolve labels number ?_, e.words_eq⟩
      rw [hvalues]
      simp

/-- The lines of the statements of rows, numbered from a number on. -/
def linesOf (number : Nat) (es : List Entry) : List Line :=
  ((es.map fun e => e.text.toList).zipIdx number).map fun (line, number) =>
    Line.ofTokens number (Token.ofLine line)

/-- The tokens of a line with the statement of a row. -/
theorem ofLine_text (e : Entry) :
    (Token.ofLine e.text.toList).map Token.text = e.tokens.map String.ofList := by
  rw [e.toList_text, Token.ofLine_intercalate fun w => Entry.isWord_of_mem_tokens]

/-- The first pass goes through the statements of rows. -/
theorem exists_placed_linesOf (h : ∀ e ∈ es, e.IsComplete) (number address : Nat)
    (labels : LabelTable) : ∃ layout, Placed address labels (linesOf number es) layout := by
  induction es generalizing number address with
  | nil => exact ⟨_, .nil⟩
  | cons e es ih =>
    obtain ⟨hlabels, s, hs, -⟩ :=
      statement?_ofTokens number (h e (by simp)) (ofLine_text e)
    obtain ⟨layout, hlayout⟩ :=
      ih (fun x hx => h x (by simp [hx])) (number + 1) (address + s.head.size)
    refine ⟨_, .statement ?_ hs hlayout⟩
    rw [hlabels]
    rfl

/-- The second pass puts the words of the rows down. -/
theorem emitted_linesOf (h : ∀ e ∈ es, e.IsComplete) (number : Nat) (labels : LabelTable) :
    Emitted labels (linesOf number es) (es.flatMap Entry.words) := by
  induction es generalizing number with
  | nil => rfl
  | cons e es ih =>
    obtain ⟨-, s, hs, hemit⟩ :=
      statement?_ofTokens number (h e (by simp)) (ofLine_text e)
    refine ⟨e.words, es.flatMap Entry.words, ?_, ih (fun x hx => h x (by simp [hx])) (number + 1),
      List.flatMap_cons⟩
    rw [Line.emit_of_statement hs, hemit]

/-- **A text with the statement of a row on every line** assembles to the words of the
rows. -/
theorem assemble_of_lines {source : String}
    (hlines : Text.lines source.toList = es.map fun e => e.text.toList)
    (h : ∀ e ∈ es, e.IsComplete) :
    assemble source = .ok (Program.ofList (es.flatMap Entry.words)) := by
  have hsource : Line.ofSource source = linesOf 1 es := by rw [Line.ofSource, hlines, linesOf]
  obtain ⟨layout, hlayout⟩ := exists_placed_linesOf h 1 0 []
  refine Except.bind_eq_ok_iff.mpr ⟨layout, ?_, ?_⟩
  · rw [Layout.ofSource, hsource]
    exact Layout.place_eq_ok_iff.mpr hlayout
  · rw [hlayout.emit_eq_ok_iff, Program.toList_ofList]
    exact emitted_linesOf h 1 layout.labels

end Assembly

/-! ### The text of a listing -/

namespace Text

/-- What follows the first colon with a blank behind it. -/
def afterColon? : List Char → Option (List Char)
  | [] => none
  | ':' :: ' ' :: rest => some rest
  | _ :: rest => afterColon? rest

/-- A line without everything up to its first colon with a blank behind it, which is a
line of a listing without its address. -/
def dropAddress (line : List Char) : List Char := (afterColon? line).getD line

/-- A text without the addresses, whose lines end where they did. -/
def withoutAddresses (text : String) : String :=
  String.ofList (['\n'].intercalate ((text.toList.splitOn '\n').map dropAddress))

/-- The lines of a text without the addresses, put together again. -/
def joinedWithoutAddresses (text : String) : String :=
  String.ofList (['\n'].intercalate ((lines text.toList).map dropAddress))

theorem afterColon?_append {address : List Char} (h : ':' ∉ address) (rest : List Char) :
    afterColon? (address ++ ':' :: ' ' :: rest) = some rest := by
  induction address with
  | nil => rfl
  | cons c address ih =>
    have hc : c ≠ ':' := fun hc => h (by simp [hc])
    have hrest : ':' ∉ address := fun hr => h (by simp [hr])
    -- The rule for a colon comes first, and does not apply.
    rw [List.cons_append, afterColon?, ih hrest]
    exact fun _ hcolon => absurd hcolon hc

theorem dropAddress_append {address : List Char} (h : ':' ∉ address) (rest : List Char) :
    dropAddress (address ++ ':' :: ' ' :: rest) = rest := by
  rw [dropAddress, afterColon?_append h, Option.getD_some]

end Text

namespace Row

/-- The address of a row, as it is listed. -/
def field (r : Row) : List Char := (Text.pad .right 6 (toString r.address)).toList

theorem toList_text (r : Row) : r.text.toList = r.field ++ ':' :: ' ' :: r.entry.text.toList := by
  simp [Row.text, field]

/-- The address is made of blanks and digits. -/
theorem mem_field {r : Row} {c : Char} (h : c ∈ r.field) : c = ' ' ∨ c.isDigit = true := by
  rw [field, Text.pad, String.toList_append, List.mem_append] at h
  rcases h with h | h
  · rw [Text.blanks, String.toList_ofList] at h
    exact Or.inl (List.eq_of_mem_replicate h)
  · exact Or.inr (Numeral.isDigit_of_mem_toDigits (by simpa using h))

theorem colon_not_mem_field (r : Row) : ':' ∉ r.field :=
  fun h => absurd (mem_field h) (by decide)

theorem dropAddress_text (r : Row) : Text.dropAddress r.text.toList = r.entry.text.toList := by
  rw [toList_text, Text.dropAddress_append r.colon_not_mem_field]

theorem isSingleLine_text (r : Row) : Text.IsSingleLine r.text.toList := by
  have hfield : Text.IsSingleLine r.field :=
    ⟨fun h => absurd (mem_field h) (by decide), fun h => absurd (mem_field h) (by decide)⟩
  have hcolon : Text.IsSingleLine [':', ' '] := ⟨by decide, by decide⟩
  rw [toList_text]
  exact hfield.append (hcolon.append r.entry.isSingleLine_text)

end Row

namespace Program

/-- A listing has an ending after every row. -/
theorem toList_foldl_rows (rows : List Row) (text : String) :
    (rows.foldl (fun text row => text ++ row.text ++ "\n") text).toList =
      text.toList ++ ['\n'].intercalate ((rows.map fun r => r.text.toList) ++ [[]]) := by
  induction rows generalizing text with
  | nil => simp
  | cons r rows ih =>
    rw [List.foldl_cons, ih, List.map_cons, List.cons_append,
      List.intercalate_cons_of_ne_nil (by simp)]
    simp

theorem toList_listing (p : Program) :
    p.listing.toList = ['\n'].intercalate ((p.rows.map fun r => r.text.toList) ++ [[]]) := by
  rw [listing, toList_foldl_rows]
  rfl

/-- The rows of a program have the text that is left of them without the addresses. -/
theorem map_dropAddress (rows : List Row) :
    (rows.map fun r => r.text.toList).map Text.dropAddress =
      (rows.map (·.entry)).map fun e => e.text.toList := by
  simp only [List.map_map, Function.comp_def, Row.dropAddress_text]

/-- **A text with the lines of the rows, without their addresses, is source text of the
program.** -/
theorem assemble_of_lines_rows {p : Program} {source : String}
    (h : Text.lines source.toList = (p.rows.map (·.entry)).map fun e => e.text.toList) :
    Assembly.assemble source = .ok p := by
  have hcomplete : ∀ e ∈ p.rows.map (·.entry), e.IsComplete := by
    intro e he
    obtain ⟨r, hr, rfl⟩ := List.mem_map.mp he
    exact p.tiles_rows.isComplete r hr
  rw [Assembly.assemble_of_lines h hcomplete, List.flatMap_map, p.tiles_rows.flatMap_words,
    ofList_toList]

/-- **The listing of a program, without its addresses, assembles to the program**: for
all words, whether they are opcodes or not and whether the last immediate is there or
not. The addresses may be deleted where they stand, or the lines be put together again
without them. -/
theorem assemble_listing (p : Program) :
    Assembly.assemble (Text.withoutAddresses p.listing) = .ok p ∧
      Assembly.assemble (Text.joinedWithoutAddresses p.listing) = .ok p := by
  have hrows : ∀ l ∈ p.rows.map fun r => r.text.toList, Text.IsSingleLine l := by
    intro l hl
    obtain ⟨r, -, rfl⟩ := List.mem_map.mp hl
    exact r.isSingleLine_text
  have hentries : ∀ l ∈ (p.rows.map (·.entry)).map fun e => e.text.toList,
      Text.IsSingleLine l ∧ l ≠ [] := by
    intro l hl
    obtain ⟨e, -, rfl⟩ := List.mem_map.mp hl
    exact ⟨e.isSingleLine_text, e.text_ne_nil⟩
  constructor
  -- What is behind the last line ending stays behind it, with nothing to delete.
  · have hsplit : p.listing.toList.splitOn '\n' =
        (p.rows.map fun r => r.text.toList) ++ [[]] := by
      rw [toList_listing]
      refine List.splitOn_intercalate '\n' (fun l hl => ?_) (by simp)
      rcases List.mem_append.mp hl with hl | hl
      · exact (hrows l hl).1
      · simp [List.mem_singleton.mp hl]
    refine assemble_of_lines_rows ?_
    rw [Text.withoutAddresses, String.toList_ofList, hsplit, List.map_append, map_dropAddress]
    exact Text.lines_terminated fun l hl => (hentries l hl).1
  · refine assemble_of_lines_rows ?_
    rw [Text.joinedWithoutAddresses, String.toList_ofList, toList_listing,
      Text.lines_terminated hrows, map_dropAddress]
    exact Text.lines_joined (fun l hl => (hentries l hl).1) fun l hl => (hentries l hl).2

/-- An immediate that is no opcode, and an opcode without its immediate. -/
example : Text.withoutAddresses (ofList [257, -9223372036854775808, 257]).listing =
    "PUSH -9223372036854775808\n.word 257\n" := by
  rfl

end Program

end StackMachine
