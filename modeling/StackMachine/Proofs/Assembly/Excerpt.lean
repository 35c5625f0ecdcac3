import StackMachine.Assembly.Diagnostic
import StackMachine.Proofs.Text.Lines
import StackMachine.Proofs.Text.Numeral
import StackMachine.Proofs.Text.Runs

/-!
# Lines with a caret below

A diagnostic shows a place in a source text: it names the line and the column, and its last
rows are the line, behind a gutter, and a row with a caret. What it shows is read off its text
here, and not off the function that renders it. The rows are told apart from the last one up,
for there are no line feeds in them; the column is what is behind the last colon; and the
blanks in the gutter can be counted, because the number of the line comes next. So there is one
way only in which a text shows a place (`StackMachine.Assembly.Excerpt.Shows.unique`).

The caret is meant for the first character of a token, and it *misses* the token by as many
characters as it is to the left of it (`StackMachine.Assembly.Misses`). Two things are in
between.

* **The gutters.** That of the line has room for four digits and grows with the number, that of
  the caret does not grow.
* **The columns.** The one that is shown may be before that of the token.

They add up (`StackMachine.Assembly.misses_render_iff`), and there is nothing else: tokens are
made of characters that do not separate, so no character of a token is lost with the carriage
returns at the end of a line.
-/

namespace StackMachine

/-! ### Rows of text -/

section Rows

variable {α : Type} {a a' b b' : List α} {c : α} {k : Nat}

/-- **A list is cut at the last place** where an element occurs in one way only. -/
theorem append_cons_inj_of_not_mem (hb : c ∉ b) (hb' : c ∉ b')
    (h : a ++ c :: b = a' ++ c :: b') : a = a' ∧ b = b' := by
  rcases List.append_eq_append_iff.mp h with ⟨_ | ⟨d, ds⟩, rfl, hrest⟩ | ⟨_ | ⟨d, ds⟩, rfl, hrest⟩
  · exact ⟨(List.append_nil a).symm, (List.cons.inj hrest).2⟩
  · exact absurd (by simp [(List.cons.inj hrest).2]) hb
  · exact ⟨List.append_nil a', (List.cons.inj hrest).2.symm⟩
  · exact absurd (by simp [(List.cons.inj hrest).2]) hb'

/-- The place of an element that occurs at the end only. -/
theorem getElem?_concat_eq_some_iff (ha : c ∉ a) : (a ++ [c])[k]? = some c ↔ k = a.length := by
  rcases Nat.lt_trichotomy k a.length with hlt | rfl | hlt
  · rw [List.getElem?_append_left hlt]
    exact iff_of_false (fun h => ha (List.mem_of_getElem? h)) (Nat.ne_of_lt hlt)
  · simp
  · rw [List.getElem?_eq_none (by simpa using Nat.succ_le_of_lt hlt)]
    exact iff_of_false nofun (Nat.ne_of_gt hlt)

theorem Text.length_blanks (n : Nat) : (blanks n).length = n := by
  rw [blanks, String.length_ofList, List.length_replicate]

end Rows

namespace Assembly

variable {source file text : String} {e : Error} {s : Spot}
  {line column column' gap gap' : Nat} {message : String} {l w : List Char} {t : Token}

/-! ### What a diagnostic shows -/

/-- **A gutter of a line**: the number of the line, with some blanks before it, and a bar. -/
def IsGutter (line : Nat) (gutter : List Char) : Prop :=
  ∃ n, gutter = List.replicate n ' ' ++ (toString line).toList ++ [' ', '|', ' ']

/-- The rows that a line is shown in. -/
structure Excerpt where
  /-- What is in front of the line. -/
  gutter : List Char
  /-- The line. -/
  echo : List Char
  /-- The row below it. -/
  marker : List Char

namespace Excerpt

/-- The row with the line in it. -/
def row (x : Excerpt) : List Char := x.gutter ++ x.echo

/-- **A text shows a place** of a source text in a file: it names them, and the last two of its
rows are the line, behind a gutter with the number, and what is below the line. -/
structure Shows (x : Excerpt) (text file source : String) (line column : Nat) : Prop where
  text_eq : ∃ message, text = "error: " ++ message ++ "\n --> " ++ file ++ ":" ++ toString line ++
    ":" ++ toString column ++ "\n" ++ "     |\n" ++ String.ofList x.row ++ "\n" ++
    String.ofList x.marker ++ "\n"
  /-- A row is one row. -/
  row : '\n' ∉ x.row
  marker : '\n' ∉ x.marker
  gutter : IsGutter line x.gutter
  /-- What is shown is the line, but for carriage returns at its end. -/
  echo : ∃ returns, (Text.lines source.toList)[line - 1]? = some (x.echo ++ returns) ∧
    ∀ c ∈ returns, c = '\r'

/-- **The first character of a token is shown** at an index of the row with the line. -/
def TokenAt (x : Excerpt) (t : Token) (i : Nat) : Prop :=
  i = x.gutter.length + (t.column - 1) ∧ t.text.toList <+: x.row.drop i

/-- **The caret is at an index** of its row, and there is no other caret. -/
def CaretAt (x : Excerpt) (i : Nat) : Prop := ∀ k, x.marker[k]? = some '^' ↔ k = i

end Excerpt

/-- **A text misses a token** by some characters: it shows the line of the token and a column,
and the caret is that far to the left of where the first character of the token is shown. -/
def Misses (text file source : String) (s : Spot) (column gap : Nat) : Prop :=
  ∃ (x : Excerpt) (i : Nat), x.Shows text file source s.line column ∧ x.CaretAt i ∧
    x.TokenAt s.token (i + gap)

/-- **A text points at a token**: it shows the line and the column of the token, and the caret
is right below the first character of the token. -/
def PointsAt (text file source : String) (s : Spot) : Prop :=
  Misses text file source s s.token.column 0

/-! ### One way to show a place -/

theorem digits_ne_nil (line : Nat) : (toString line).toList ≠ [] :=
  Numeral.toString_ne_nil (Int.ofNat line)

theorem digits_inj {n n' : Nat} (h : (toString n).toList = (toString n').toList) : n = n' :=
  Numeral.natRepr_inj.mp (String.toList_injective h)

theorem isDigit_of_mem_digits {c : Char} (h : c ∈ (toString line).toList) : c.isDigit = true := by
  rw [Nat.toString_eq_repr, Nat.toList_repr] at h
  exact Numeral.isDigit_of_mem_toDigits h

/-- The blanks before the number of a line can be counted. -/
theorem takeWhile_gutter (line n : Nat) (rest : List Char) :
    (List.replicate n ' ' ++ (toString line).toList ++ rest).takeWhile (· == ' ') =
      List.replicate n ' ' := by
  obtain ⟨d, ds, hdigits⟩ := List.exists_cons_of_ne_nil (digits_ne_nil line)
  have hd : (d == ' ') = false := by
    have hdigit : d.isDigit = true := isDigit_of_mem_digits (hdigits ▸ List.mem_cons_self)
    rw [beq_eq_false_iff_ne]
    rintro rfl
    cases hdigit
  rw [hdigits, List.append_assoc, List.cons_append, List.takeWhile_append_of_pos (by simp),
    List.takeWhile_cons_of_neg (by simp [hd]), List.append_nil]

/-- **A row begins with one gutter of a line** at most. -/
theorem IsGutter.unique {gutter gutter' echo echo' : List Char} (h : IsGutter line gutter)
    (h' : IsGutter line gutter') (hrow : gutter' ++ echo' = gutter ++ echo) :
    gutter' = gutter := by
  obtain ⟨n, rfl⟩ := h
  obtain ⟨n', rfl⟩ := h'
  have hblanks := congrArg (List.takeWhile (· == ' ')) hrow
  rw [List.append_assoc, takeWhile_gutter, List.append_assoc _ _ echo, takeWhile_gutter] at hblanks
  rw [hblanks]

namespace Excerpt

variable {x x' : Excerpt} {i i' : Nat}

/-- The text of a diagnostic with its last rows taken apart. -/
theorem Shows.toList_eq (h : x.Shows text file source line column) :
    ∃ message : String, text.toList =
      ((message.toList ++ ':' :: (toString column).toList) ++ '\n' :: "     |".toList) ++
        '\n' :: x.row ++ '\n' :: x.marker ++ '\n' :: [] := by
  obtain ⟨message, rfl⟩ := h.text_eq
  refine ⟨"error: " ++ message ++ "\n --> " ++ file ++ ":" ++ toString line, ?_⟩
  simp

/-- **There is one way in which a text shows a place.** -/
theorem Shows.unique (h : x.Shows text file source line column)
    (h' : x'.Shows text file source line column') : x' = x ∧ column' = column := by
  obtain ⟨message, heq⟩ := h.toList_eq
  obtain ⟨message', heq'⟩ := h'.toList_eq
  rw [heq'] at heq
  -- The rows, from the last one up.
  obtain ⟨heq, -⟩ := append_cons_inj_of_not_mem (by simp) (by simp) heq
  obtain ⟨heq, hmarker⟩ := append_cons_inj_of_not_mem h'.marker h.marker heq
  obtain ⟨heq, hrow⟩ := append_cons_inj_of_not_mem h'.row h.row heq
  obtain ⟨heq, -⟩ := append_cons_inj_of_not_mem (by decide) (by decide) heq
  have hcolon (n : Nat) : ':' ∉ (toString n).toList := by
    intro hc
    cases isDigit_of_mem_digits hc
  obtain ⟨-, hcolumn⟩ := append_cons_inj_of_not_mem (hcolon column') (hcolon column) heq
  have hgutter : x'.gutter = x.gutter := h.gutter.unique h'.gutter hrow
  have hecho : x'.echo = x.echo := by
    rw [Excerpt.row, Excerpt.row, hgutter] at hrow
    exact List.append_cancel_left hrow
  refine ⟨?_, digits_inj hcolumn⟩
  cases x
  cases x'
  rw [Excerpt.mk.injEq]
  exact ⟨hgutter, hecho, hmarker⟩

theorem CaretAt.unique (h : x.CaretAt i) (h' : x.CaretAt i') : i' = i :=
  (h i').mp ((h' i').mpr rfl)

end Excerpt

/-- **A text misses a token in one way.** -/
theorem Misses.unique (h : Misses text file source s column gap)
    (h' : Misses text file source s column' gap') : column' = column ∧ gap' = gap := by
  obtain ⟨x, i, hshows, hcaret, htoken⟩ := h
  obtain ⟨x', i', hshows', hcaret', htoken'⟩ := h'
  obtain ⟨rfl, rfl⟩ := hshows.unique hshows'
  obtain rfl := hcaret.unique hcaret'
  exact ⟨rfl, Nat.add_left_cancel (htoken'.1.trans htoken.1.symm)⟩

/-! ### What is rendered -/

/-- What is dropped at the end of a line are carriage returns. -/
theorem exists_eq_dropReturns_append (l : List Char) :
    ∃ returns, l = dropReturns l ++ returns ∧ ∀ c ∈ returns, c = '\r' := by
  refine ⟨(l.reverse.takeWhile (· == '\r')).reverse, ?_, fun c hc => ?_⟩
  · rw [dropReturns, ← List.reverse_append, List.takeWhile_append_dropWhile, List.reverse_reverse]
  · have hall := List.all_takeWhile (p := (· == '\r')) (l := l.reverse)
    simpa using List.all_eq_true.mp hall c (List.mem_reverse.mp hc)

theorem dropReturns_isPrefix (l : List Char) : dropReturns l <+: l := by
  obtain ⟨returns, hl, -⟩ := exists_eq_dropReturns_append l
  exact ⟨returns, hl.symm⟩

/-- What does not end with a carriage return is not dropped. -/
theorem isPrefix_dropReturns (h : w <+: l) (hlast : w.getLast? ≠ some '\r') :
    w <+: dropReturns l := by
  obtain ⟨returns, hl, hreturns⟩ := exists_eq_dropReturns_append l
  rcases List.prefix_or_prefix_of_prefix h (dropReturns_isPrefix l) with hw | ⟨dropped, hw⟩
  · exact hw
  · -- Some of the carriage returns would be in `w`, at its end.
    have hdropped : dropped <+: returns := by
      rw [← hw] at h
      nth_rewrite 2 [hl] at h
      exact (List.prefix_append_right_inj _).mp h
    rcases List.eq_nil_or_concat dropped with rfl | ⟨init, c, rfl⟩
    · have hsame : dropReturns l = w := (List.append_nil _).symm.trans hw
      exact hsame ▸ List.prefix_rfl
    · have hc : c = '\r' := hreturns c (hdropped.subset (by simp))
      rw [← hw, hc] at hlast
      simp at hlast

/-- **A token is in the line that is shown**, where its column says. -/
theorem isPrefix_drop_dropReturns (h : t.IsRun 1 (Text.dropComment l)) :
    t.text.toList <+: (dropReturns l).drop (t.column - 1) := by
  obtain ⟨before, after, hcode, hcolumn, hne, hrun, -⟩ := h
  have hprefix : before ++ t.text.toList <+: l := by
    refine List.IsPrefix.trans ⟨after, ?_⟩ (List.takeWhile_prefix (· != '#'))
    rw [List.append_assoc]
    exact hcode.symm
  have hlast : (before ++ t.text.toList).getLast? ≠ some '\r' := by
    rw [List.getLast?_append_of_ne_nil _ hne]
    intro hreturn
    have hc := hrun _ (List.mem_of_getLast? hreturn)
    revert hc
    decide
  obtain ⟨rest, hrest⟩ := isPrefix_dropReturns hprefix hlast
  rw [hcolumn, Nat.add_sub_cancel_left, ← hrest, List.append_assoc, List.drop_left]
  exact List.prefix_append _ _

/-- The rows that a line is rendered in. -/
def excerptOf (line column : Nat) (l : List Char) : Excerpt where
  gutter := (Text.pad .right 4 (toString line) ++ " | ").toList
  echo := dropReturns l
  marker := ("     | " ++ Text.blanks (column - 1)).toList ++ ['^']

theorem length_gutter_excerptOf :
    (excerptOf line column l).gutter.length =
      4 - (toString line).length + (toString line).length + 3 := by
  rw [excerptOf, String.length_toList, String.length_append, Text.pad, String.length_append,
    Text.length_blanks]
  rfl

theorem caretAt_excerptOf : (excerptOf line column l).CaretAt (7 + (column - 1)) := by
  intro k
  have hlength : ("     | " ++ Text.blanks (column - 1)).toList.length = 7 + (column - 1) := by
    rw [String.length_toList, String.length_append, Text.length_blanks]
    rfl
  rw [excerptOf, getElem?_concat_eq_some_iff (by simp [Text.blanks]), hlength]

theorem tokenAt_excerptOf (h : t.IsRun 1 (Text.dropComment l)) :
    (excerptOf line column l).TokenAt t
      ((excerptOf line column l).gutter.length + (t.column - 1)) := by
  refine ⟨rfl, ?_⟩
  rw [Excerpt.row, List.drop_append, List.drop_eq_nil_of_le (Nat.le_add_right _ _),
    List.nil_append, Nat.add_sub_cancel_left]
  exact isPrefix_drop_dropReturns h

theorem isGutter_excerptOf : IsGutter line (excerptOf line column l).gutter :=
  ⟨4 - (toString line).length, by simp [excerptOf, Text.pad, Text.blanks]⟩

/-- **What is rendered shows the place of the error.** -/
theorem shows_render (he : Finding.ofError? e = some ⟨line, column, message⟩)
    (hl : (Text.lines source.toList)[line - 1]? = some l) :
    (excerptOf line column l).Shows (render file source e) file source line column where
  text_eq := by
    refine ⟨message, String.toList_injective ?_⟩
    simp [render, he, hl, excerpt, excerptOf, Excerpt.row]
  row := by
    intro hc
    rcases List.mem_append.mp hc with hc | hc
    · obtain ⟨n, hgutter⟩ : IsGutter line (excerptOf line column l).gutter := isGutter_excerptOf
      have hdigits : '\n' ∉ Nat.toDigits 10 line := nofun ∘ Numeral.isDigit_of_mem_toDigits
      rw [hgutter] at hc
      simp [hdigits] at hc
    · exact Text.newline_not_mem_of_mem_lines (List.mem_of_getElem? hl)
        ((dropReturns_isPrefix l).subset hc)
  marker := by simp [excerptOf, Text.blanks]
  gutter := isGutter_excerptOf
  echo := by
    obtain ⟨returns, hreturns, hall⟩ := exists_eq_dropReturns_append l
    exact ⟨returns, hreturns ▸ hl, hall⟩

/-- **What is rendered misses a token** by the digits of the line's number beyond the fourth, and
by the columns between the one that is shown and that of the token. -/
theorem misses_render_iff (hs : s.StandsIn source)
    (he : Finding.ofError? e = some ⟨s.line, column, message⟩) (hpos : 1 ≤ column)
    (hle : column ≤ s.token.column) :
    Misses (render file source e) file source s column' gap ↔
      column' = column ∧
        gap = ((toString s.line).length - 4) + (s.token.column - column) := by
  obtain ⟨l, hl, hrun⟩ := hs.run
  have hmisses : Misses (render file source e) file source s column
      (((toString s.line).length - 4) + (s.token.column - column)) := by
    refine ⟨excerptOf s.line column l, 7 + (column - 1), shows_render he hl, caretAt_excerptOf, ?_⟩
    have hplace : 7 + (column - 1) + (((toString s.line).length - 4) + (s.token.column - column)) =
        (excerptOf s.line column l).gutter.length + (s.token.column - 1) := by
      rw [length_gutter_excerptOf]
      omega
    rw [hplace]
    exact tokenAt_excerptOf hrun
  constructor
  · exact hmisses.unique
  · rintro ⟨rfl, rfl⟩
    exact hmisses

/-- A number has no more than four digits below ten thousand. -/
theorem length_digits_sub_eq_zero_iff : (toString line).length - 4 = 0 ↔ line < 10000 := by
  rw [Nat.sub_eq_zero_iff_le]
  exact Nat.length_repr_le_iff (by decide)

end Assembly

end StackMachine
