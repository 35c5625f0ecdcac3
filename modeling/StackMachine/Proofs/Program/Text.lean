import StackMachine.Proofs.Assembly.Fields
import StackMachine.Proofs.Assembly.Token
import StackMachine.Proofs.Pointwise
import StackMachine.Proofs.Program.Basic
import StackMachine.Proofs.Text.Lines
import StackMachine.Proofs.Text.Runs
import StackMachine.Proofs.Text.Spelling

/-!
# Programs that were written down

A program in text form is read off the tokens of the text, in reading order: either all of
them are numerals, and the program is what they stand for, or the first one that is none is
pointed at. Lines and columns play no part in the program, and so every way to write words
down is read as these words, whatever is put between them.

* `StackMachine.Program.ofText_eq` – the words are read off the tokens, one by one;
* `StackMachine.Program.Renders` – the ways to write words down;
* `StackMachine.Program.exists_readsTokens` – what a text is read as, and where it is refused.

The texts that render words are put together from their beginning, while a line is cut at its
comment and a text at its line feeds. The bridge is that all the pieces of a text
(`StackMachine.Text.pieces`) can be found from its beginning as well: what is put in front of
a text is put in front of its first line, and if it ends with a line feed, it is a text of its
own.
-/

namespace StackMachine

/-! ### Pieces of a text -/

namespace Text

variable {c : Char} {w line text l : List Char}

/-- The pieces of a text: those of its lines. -/
def pieces (text : List Char) : List (List Char) := (text.splitOn '\n').flatMap chunks

/-- The endings of lines have no part in the pieces. -/
theorem flatMap_chunks_lines (text : List Char) : (lines text).flatMap chunks = pieces text := by
  obtain ⟨ls, last, hpieces⟩ := exists_splitOn_eq_concat text
  have hmap : (ls.map dropReturn).flatMap chunks = ls.flatMap chunks := by
    rw [List.flatMap_map]
    simp only [chunks_dropReturn]
  rw [lines_of_splitOn hpieces, pieces, hpieces, List.flatMap_append, List.flatMap_append, hmap]
  cases last <;> rfl

theorem pieces_append_newline (line text : List Char) :
    pieces (line ++ '\n' :: text) = pieces line ++ pieces text := by
  rw [pieces, List.splitOn_append_cons_self, List.flatMap_append, pieces, pieces]

theorem pieces_of_not_mem (h : '\n' ∉ line) : pieces line = chunks line := by
  rw [pieces, List.splitOn_eq_singleton h, List.flatMap_singleton]

/-- What is put in front of a text is put in front of its first line. -/
theorem exists_splitOn_append (hw : '\n' ∉ w) (text : List Char) :
    ∃ l ls, l <+: text ∧ text.splitOn '\n' = l :: ls ∧
      (w ++ text).splitOn '\n' = (w ++ l) :: ls := by
  obtain ⟨l, ls, hsplit⟩ := List.exists_cons_of_ne_nil (List.splitOn_ne_nil '\n' text)
  refine ⟨l, ls, ?_, hsplit, ?_⟩
  · have htext : ['\n'].intercalate (text.splitOn '\n') = text := List.intercalate_splitOn '\n'
    rw [← htext, hsplit]
    cases ls with
    | nil => simp only [List.intercalate_singleton, List.prefix_refl]
    | cons l' ls =>
      rw [List.intercalate_cons_cons, List.append_assoc]
      exact List.prefix_append _ _
  · induction w with
    | nil => exact hsplit
    | cons c w ih =>
      have hc : c ≠ '\n' := fun h => hw (by simp [h])
      have hrest : '\n' ∉ w := fun h => hw (List.mem_cons_of_mem _ h)
      rw [List.cons_append, List.splitOn_cons_eq_if_modifyHead, if_neg (by simpa using hc),
        ih hrest]
      rfl

/-- Pieces that are put in front of every line that a text can begin with are put in front of
the text. -/
theorem pieces_append (out : List (List Char)) (hw : '\n' ∉ w)
    (h : ∀ l, l <+: text → chunks (w ++ l) = out ++ chunks l) :
    pieces (w ++ text) = out ++ pieces text := by
  obtain ⟨l, ls, hl, htext, hwtext⟩ := exists_splitOn_append hw text
  rw [pieces, pieces, htext, hwtext, List.flatMap_cons, List.flatMap_cons, h l hl,
    List.append_assoc]

theorem ne_comment_of_isSeparator (hc : isSeparator c = true) : c ≠ '#' := by
  rintro rfl
  exact absurd hc (by decide)

theorem dropComment_cons (hc : c ≠ '#') (line : List Char) :
    dropComment (c :: line) = c :: dropComment line :=
  List.takeWhile_cons_of_pos (by simpa using hc)

/-- A comment is no piece. -/
theorem chunks_comment (line : List Char) : chunks ('#' :: line) = [] := rfl

/-- A separator is no part of a piece. -/
theorem chunks_separator (hc : isSeparator c = true) (line : List Char) :
    chunks (c :: line) = chunks line := by
  rw [chunks, chunks, dropComment_cons (ne_comment_of_isSeparator hc),
    List.splitOnP_cons_eq_if_modifyHead, if_pos hc]
  rfl

/-- **A word is a piece** when a separator, a comment or nothing follows. -/
theorem chunks_word (hw : Token.IsWord w)
    (hl : ∀ c ∈ l.head?, isSeparator c = true ∨ c = '#') : chunks (w ++ l) = w :: chunks l := by
  have hcode : dropComment (w ++ l) = w ++ dropComment l :=
    List.takeWhile_append_of_pos fun c hc => by simpa using hw.ne_comment c hc
  have hkeep : w.isEmpty = false := by simpa using hw.ne_nil
  rw [chunks, chunks, hcode]
  cases hrest : dropComment l with
  | nil =>
    rw [List.append_nil, List.splitOnP_eq_singleton hw.isSeparator,
      List.filter_cons_of_pos (by simp [hkeep])]
    rfl
  | cons c cs =>
    have hc : isSeparator c = true := by
      cases l with
      | nil => cases hrest
      | cons d ds =>
        rcases hl d rfl with hd | rfl
        · rw [dropComment_cons (ne_comment_of_isSeparator hd)] at hrest
          obtain ⟨rfl, -⟩ := List.cons.inj hrest
          exact hd
        · cases hrest
    rw [List.splitOnP_append_cons_of_forall_mem hw.isSeparator c hc,
      List.splitOnP_cons_eq_if_modifyHead, if_pos hc, List.filter_cons_of_pos (by simp [hkeep])]
    rfl

end Text

/-! ### Numerals as pieces -/

/-- A run of digits is what a token can be. -/
theorem Numeral.Denotes.isWord {base n : Nat} {cs : List Char} (h : Denotes base cs n) :
    Token.IsWord cs := by
  have hall : ((smallDigits ++ capitalDigits).all fun c =>
      !Text.isSeparator c && c != '#') = true := by decide
  have hdigits := List.all_eq_true.mp hall
  simp only [Bool.and_eq_true, Bool.not_eq_true', bne_iff_ne] at hdigits
  obtain ⟨hne, ds, hds, -⟩ := h
  have hmem : ∀ c ∈ cs, c ∈ smallDigits ++ capitalDigits := by
    clear hne
    induction hds with
    | nil => simp
    | cons hc _ ih =>
      refine List.forall_mem_cons.mpr ⟨List.mem_append.mpr ?_, ih⟩
      exact hc.2.imp List.mem_of_getElem? List.mem_of_getElem?
  exact ⟨hne, fun c hc => (hdigits c (hmem c hc)).1, fun c hc => (hdigits c (hmem c hc)).2⟩

theorem Token.IsWord.cons {c : Char} {w : List Char} (hc : Text.isSeparator c = false ∧ c ≠ '#')
    (h : IsWord w) : IsWord (c :: w) :=
  ⟨List.cons_ne_nil c w, List.forall_mem_cons.mpr ⟨hc.1, h.isSeparator⟩,
    List.forall_mem_cons.mpr ⟨hc.2, h.ne_comment⟩⟩

theorem Numeral.SpellsMagnitude.isWord {n : Nat} {cs : List Char} (h : SpellsMagnitude cs n) :
    Token.IsWord cs := by
  cases h with
  | decimal h => exact h.isWord
  | hexadecimal hmark h =>
    refine .cons (by decide) (.cons ?_ h.isWord)
    rcases hmark with rfl | rfl <;> decide

/-- **A numeral is what a token can be.** -/
theorem Numeral.Spells.isWord {cs : List Char} {z : Int} (h : Spells cs z) : Token.IsWord cs := by
  cases h with
  | unsigned h => exact h.isWord
  | plus h => exact .cons (by decide) h.isWord
  | minus h => exact .cons (by decide) h.isWord

/-! ### Reading tokens -/

/-- The word of a token, or where and why there is none. -/
def Spot.word (s : Spot) : Except Error Word :=
  Program.Field.word s.line ⟨s.token.column, s.token.text⟩

theorem Spot.word_eq_ok_iff {s : Spot} {w : Word} :
    s.word = .ok w ↔ Numeral.word? s.token.text = some w := by
  rw [word, Program.Field.word]
  cases Numeral.word? s.token.text <;> simp

theorem Spot.word_eq_error_iff {s : Spot} {e : Error} :
    s.word = .error e ↔ Numeral.word? s.token.text = none ∧
      e = .malformedToken s.line s.token.column ("invalid integer `" ++ s.token.text ++ "`") := by
  rw [word, Program.Field.word]
  cases Numeral.word? s.token.text <;> simp [eq_comm]

/-- The texts of tokens are the pieces of the text. -/
theorem Spot.map_text_ofSource (source : String) :
    (ofSource source).map (·.token.text) = (Text.pieces source.toList).map String.ofList := by
  have hline (line : List Char) (number : Nat) :
      ((Token.ofLine line).map (Spot.mk number)).map (·.token.text) =
        (Text.chunks line).map String.ofList := by
    rw [List.map_map]
    exact Token.map_text_ofLine line
  rw [ofSource, ofLines, List.map_flatMap, ← Text.flatMap_chunks_lines, List.map_flatMap]
  simp only [hline]
  -- The numbers of the lines play no part.
  rw [← List.flatMap_map Prod.fst (fun line => (Text.chunks line).map String.ofList),
    List.zipIdx_map_fst]

namespace Program

variable {source : String} {p : Program} {e : Error} {spots : List Spot}

theorem lineWords_eq (number : Nat) (line : List Char) :
    lineWords number line = ((Token.ofLine line).map (Spot.mk number)).mapM Spot.word := by
  rw [lineWords, Token.ofLine_eq_fields, List.mapM_map, List.mapM_map]
  rfl

/-- **A program is read off the tokens of its text**, one by one. -/
theorem ofText_eq (source : String) :
    ofText source = ((Spot.ofSource source).mapM Spot.word).map ofList := by
  rw [ofText, Spot.ofSource, Spot.ofLines, List.mapM_flatMap]
  simp only [lineWords_eq]
  generalize ((Text.lines source.toList).zipIdx 1).mapM (m := Except Error) _ = words
  cases words <;> rfl

/-- What is read are the values of the tokens, when all of them have one. -/
theorem ofText_eq_ok_iff :
    ofText source = .ok p ↔
      List.Forall₂ (fun s w => Numeral.word? s.token.text = some w) (Spot.ofSource source)
        p.toList := by
  rw [ofText_eq, Except.map_eq_ok_iff]
  simp only [List.mapM_eq_ok_iff, Spot.word_eq_ok_iff, ofList_eq_iff]
  constructor
  · rintro ⟨ws, hws, rfl⟩
    exact hws
  · exact fun h => ⟨_, h, rfl⟩

/-- What is refused is the first token without a value. -/
theorem ofText_eq_error_iff :
    ofText source = .error e ↔ ∃ before s after, Spot.ofSource source = before ++ s :: after ∧
      (∀ x ∈ before, ∃ w, Numeral.word? x.token.text = some w) ∧
      Numeral.word? s.token.text = none ∧
      e = .malformedToken s.line s.token.column ("invalid integer `" ++ s.token.text ++ "`") := by
  rw [ofText_eq, Except.map_eq_error_iff, List.mapM_eq_error_iff]
  simp only [Spot.word_eq_ok_iff, Spot.word_eq_error_iff]

/-! ### Writing words down -/

/-- **The ways to write words down**: numerals of any spelling, and between them separators –
line feeds included – and comments that go to the end of their lines. What follows a numeral
is a separator or a comment, if there is anything. -/
inductive Renders : List Word → List Char → Prop
  | nothing : Renders [] []
  | separator {ws : List Word} {c : Char} {text : List Char} : Text.isSeparator c = true →
      Renders ws text → Renders ws (c :: text)
  | comment {ws : List Word} {comment text : List Char} : '\n' ∉ comment →
      Renders ws text → Renders ws ('#' :: comment ++ '\n' :: text)
  | lastComment {comment : List Char} : '\n' ∉ comment → Renders [] ('#' :: comment)
  | word {w : Word} {ws : List Word} {numeral text : List Char} :
      Numeral.Spells numeral w.toInt →
      (∀ c ∈ text.head?, Text.isSeparator c = true ∨ c = '#') →
      Renders ws text → Renders (w :: ws) (numeral ++ text)

/-- **The pieces of written words** are their numerals. -/
theorem Renders.pieces {ws : List Word} {text : List Char} (h : Renders ws text) :
    List.Forall₂ (fun piece w => Numeral.Spells piece w.toInt) (Text.pieces text) ws := by
  induction h with
  | nothing => exact .nil
  | @separator ws c text hc _ ih =>
    have hpieces : Text.pieces (c :: text) = Text.pieces text := by
      by_cases hline : c = '\n'
      · rw [hline]
        exact Text.pieces_append_newline [] text
      · have hword : '\n' ∉ [c] := by simpa [eq_comm] using hline
        exact Text.pieces_append [] hword fun l _ => Text.chunks_separator hc l
    rwa [hpieces]
  | comment hcomment _ ih =>
    rwa [Text.pieces_append_newline, Text.pieces_of_not_mem (by simpa using hcomment),
      Text.chunks_comment]
  | lastComment hcomment =>
    rw [Text.pieces_of_not_mem (by simpa using hcomment), Text.chunks_comment]
    exact .nil
  | @word w ws numeral text hw htext _ ih =>
    have hnumeral := hw.isWord
    have hline : '\n' ∉ numeral := fun h => absurd (hnumeral.isSeparator _ h) (by decide)
    have hpieces : Text.pieces (numeral ++ text) = [numeral] ++ Text.pieces text := by
      refine Text.pieces_append [numeral] hline fun l hl =>
        Text.chunks_word hnumeral fun c hc => htext c ?_
      obtain ⟨rest, rfl⟩ := hl
      rw [List.head?_append, Option.mem_def.mp hc]
      rfl
    rw [hpieces]
    exact .cons hw ih

/-- **Words that were written down are read as these words.** -/
theorem Renders.ofText_eq {ws : List Word} (h : Renders ws source.toList) :
    ofText source = .ok (ofList ws) := by
  rw [ofText_eq_ok_iff, toList_ofList]
  have hread : List.Forall₂ (fun text w => Numeral.word? text = some w)
      ((Spot.ofSource source).map (·.token.text)) ws := by
    rw [Spot.map_text_ofSource, List.forall₂_map_left_iff]
    refine h.pieces.imp fun piece w hw => Numeral.word?_eq_some_iff.mpr ?_
    rwa [String.toList_ofList]
  exact List.forall₂_map_left_iff.mp hread

/-- Every list of words can be written down. -/
theorem exists_renders (ws : List Word) : ∃ text, Renders ws text := by
  induction ws with
  | nil => exact ⟨[], .nothing⟩
  | cons w ws ih =>
    obtain ⟨text, htext⟩ := ih
    have hblank : Text.isSeparator ' ' = true := by decide
    refine ⟨(toString w.toInt).toList ++ ' ' :: text, .word ?_ ?_ (.separator hblank htext)⟩
    · exact Numeral.word?_eq_some_iff.mp (Numeral.word?_toString w)
    · rintro c ⟨⟩
      exact Or.inl hblank

/-- **A text is read off its tokens.** -/
structure ReadsTokens (source : String) (spots : List Spot) : Prop where
  /-- They are all the tokens, in reading order. -/
  order : Spot.InReadingOrder source spots
  /-- The text is a program exactly when all of them are numerals of words. -/
  accepted : (∃ p, ofText source = .ok p) ↔ ∀ s ∈ spots, ∃ w, Numeral.word? s.token.text = some w
  /-- The program is their values, in order. -/
  value : ∀ p, ofText source = .ok p ↔
    List.Forall₂ (fun s w => Numeral.word? s.token.text = some w) spots p.toList
  /-- Otherwise the first of them that is none is pointed at, and quoted. -/
  refused : ∀ e, ofText source = .error e ↔ ∃ before s after, spots = before ++ s :: after ∧
    (∀ x ∈ before, ∃ w, Numeral.word? x.token.text = some w) ∧
    Numeral.word? s.token.text = none ∧
    e = .malformedToken s.line s.token.column ("invalid integer `" ++ s.token.text ++ "`")
  /-- Words that were written down in any way are read as these words. -/
  rendered : ∀ ws, Renders ws source.toList → ofText source = .ok (ofList ws)
  /-- There is a way to write any words down, and so a text that is read as them. -/
  writable : ∀ ws : List Word, ∃ text : String, Renders ws text.toList ∧
    ofText text = .ok (ofList ws)

/-- **Every text is read off its tokens**, which are in one order only. -/
theorem exists_readsTokens (source : String) : ∃! spots, ReadsTokens source spots := by
  have horder : Spot.InReadingOrder source (Spot.ofSource source) :=
    Spot.inReadingOrder_iff.mpr rfl
  have hwritable (ws : List Word) : ∃ text : String, Renders ws text.toList ∧
      ofText text = .ok (ofList ws) := by
    obtain ⟨text, htext⟩ := exists_renders ws
    rw [← String.toList_ofList (l := text)] at htext
    exact ⟨_, htext, htext.ofText_eq⟩
  refine ⟨Spot.ofSource source, ⟨horder, ?_, fun _ => ofText_eq_ok_iff,
    fun _ => ofText_eq_error_iff, fun _ h => h.ofText_eq, hwritable⟩,
    fun _ h => h.order.unique horder⟩
  simp only [ofText_eq_ok_iff]
  rw [← List.exists_forall₂_iff]
  constructor
  · rintro ⟨p, hp⟩
    exact ⟨p.toList, hp⟩
  · rintro ⟨ws, hws⟩
    refine ⟨ofList ws, ?_⟩
    rwa [toList_ofList]

example : ofText "1,0x0F # 2\r\n\u3000-3" = .ok (ofList [1, 15, -3]) := by rfl

example : ofText "1,0x0F # 2\r\n\u3000ä -3" =
    .error (.malformedToken 2 2 "invalid integer `ä`") := by rfl

end Program

end StackMachine
