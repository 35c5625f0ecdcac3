import StackMachine.Text.Basic

/-!
# Lines put together

The lines of a text that was put together from lines are those lines, as long as none
of them has an ending in it. Two ways of putting lines together are of interest: an
ending after every line, which is how listings are written, and an ending only between
two lines, where the last one has to have some text. And when two texts are put together
with an ending between them, the lines are those of the one and of the other, but for the
last line of the first (`StackMachine.Text.lines_append_newline`).
-/

namespace StackMachine

namespace Text

variable {l last : List Char} {ls : List (List Char)}

/-- The characters that end lines do not occur. -/
def IsSingleLine (l : List Char) : Prop := '\n' ∉ l ∧ '\r' ∉ l

theorem IsSingleLine.dropReturn (h : IsSingleLine l) : dropReturn l = l := by
  rw [Text.dropReturn, if_neg]
  exact fun hlast => h.2 (List.mem_of_getLast? hlast)

theorem IsSingleLine.append {l' : List Char} (h : IsSingleLine l) (h' : IsSingleLine l') :
    IsSingleLine (l ++ l') := by
  constructor
  · exact fun hc => (List.mem_append.mp hc).elim h.1 h'.1
  · exact fun hc => (List.mem_append.mp hc).elim h.2 h'.2

/-- There is a last piece of a text. -/
theorem exists_splitOn_eq_concat (text : List Char) :
    ∃ ls last, text.splitOn '\n' = ls ++ [last] :=
  ⟨_, _, (List.dropLast_concat_getLast (List.splitOn_ne_nil '\n' text)).symm⟩

/-- A text is cut at all its line feeds. -/
theorem newline_not_mem_of_mem_splitOn {text : List Char} (h : l ∈ text.splitOn '\n') :
    '\n' ∉ l := by
  induction text generalizing l with
  | nil =>
    rw [List.splitOn_nil, List.mem_singleton] at h
    simp [h]
  | cons c text ih =>
    rw [List.splitOn_cons_eq_if_modifyHead] at h
    split at h
    case isTrue =>
      rcases List.mem_cons.mp h with rfl | h
      · simp
      · exact ih h
    case isFalse hc =>
      obtain ⟨piece, pieces, hsplit⟩ :=
        List.exists_cons_of_ne_nil (List.splitOn_ne_nil '\n' text)
      rw [hsplit] at h ih
      rcases List.mem_cons.mp h with rfl | h
      · have hpiece := ih List.mem_cons_self
        simp only [beq_iff_eq] at hc
        simp [hpiece, Ne.symm hc]
      · exact ih (List.mem_cons_of_mem _ h)

/-- The lines of a text, read off the pieces between its line feeds: the last piece is a
line of its own unless it is empty. -/
theorem lines_of_splitOn {text : List Char} (hpieces : text.splitOn '\n' = ls ++ [last]) :
    lines text = ls.map dropReturn ++ if last.isEmpty then [] else [last] := by
  simp only [lines]
  rw [hpieces, List.dropLast_concat, List.getLast?_concat, Option.filter_some]
  cases last with
  | nil => rfl
  | cons c cs => rfl

/-- A line has no line feed in it. -/
theorem newline_not_mem_of_mem_lines {text : List Char} (h : l ∈ lines text) : '\n' ∉ l := by
  obtain ⟨ls, last, hpieces⟩ := exists_splitOn_eq_concat text
  have hcut : ∀ piece ∈ ls ++ [last], '\n' ∉ piece := by
    rw [← hpieces]
    exact fun piece => newline_not_mem_of_mem_splitOn
  rw [lines_of_splitOn hpieces, List.mem_append] at h
  rcases h with h | h
  · obtain ⟨piece, hpiece, rfl⟩ := List.mem_map.mp h
    have hno := hcut piece (List.mem_append_left _ hpiece)
    rw [dropReturn]
    split
    · exact fun hc => hno ((List.dropLast_sublist piece).mem hc)
    · exact hno
  · split at h
    · cases h
    · exact hcut l (List.mem_append_right _ h)

/-- **The lines of two texts with a line feed between them.** The last piece of the first
text is terminated by it, and is a line then even if it is empty. -/
theorem lines_append_newline {text : List Char} (hpieces : text.splitOn '\n' = ls ++ [last])
    (rest : List Char) :
    lines (text ++ '\n' :: rest) = ls.map dropReturn ++ dropReturn last :: lines rest := by
  obtain ⟨ls', last', hpieces'⟩ := exists_splitOn_eq_concat rest
  have hboth : (text ++ '\n' :: rest).splitOn '\n' = (ls ++ last :: ls') ++ [last'] := by
    rw [List.splitOn_append_cons_self, hpieces, hpieces']
    simp
  rw [lines_of_splitOn hboth, lines_of_splitOn hpieces']
  simp

/-- The lines of a text that was put together from lines and a rest. -/
theorem lines_intercalate (h : ∀ l ∈ ls, IsSingleLine l) (hlast : '\n' ∉ last) :
    lines (['\n'].intercalate (ls ++ [last])) =
      ls ++ if last.isEmpty then [] else [last] := by
  have hsplit : (['\n'].intercalate (ls ++ [last])).splitOn '\n' = ls ++ [last] := by
    refine List.splitOn_intercalate '\n' (fun l hl => ?_) (by simp)
    rcases List.mem_append.mp hl with hl | hl
    · exact (h l hl).1
    · rw [List.mem_singleton.mp hl]
      exact hlast
  have hmap : ls.map dropReturn = ls := by
    rw [List.map_congr_left (g := id) fun l hl => (h l hl).dropReturn, List.map_id]
  rw [lines_of_splitOn hsplit, hmap]

/-- **Lines with an ending after every one.** -/
theorem lines_terminated (h : ∀ l ∈ ls, IsSingleLine l) :
    lines (['\n'].intercalate (ls ++ [[]])) = ls := by
  rw [lines_intercalate h (by simp)]
  simp

/-- **Lines with an ending between any two.** -/
theorem lines_joined (h : ∀ l ∈ ls, IsSingleLine l) (hne : ∀ l ∈ ls, l ≠ []) :
    lines (['\n'].intercalate ls) = ls := by
  -- The last line has no ending, and is a line all the same because it is not empty.
  rcases List.eq_nil_or_concat ls with rfl | ⟨init, last, rfl⟩
  · rfl
  · rw [List.concat_eq_append] at h hne ⊢
    have hinit : ∀ l ∈ init, IsSingleLine l := fun l hl => h l (List.mem_append_left _ hl)
    have hmem : last ∈ init ++ [last] := by simp
    rw [lines_intercalate hinit (h last hmem).1, if_neg]
    simpa using hne last hmem

end Text

end StackMachine
