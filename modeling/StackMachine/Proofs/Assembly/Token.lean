import StackMachine.Assembly.Statement

/-!
# Tokens put together

A line that was put together from words with single blanks between them has these
words as its tokens. A **word** is what a token can be: some characters, none of
which separates tokens or begins a comment.

The scanner carries the characters of the token it is in the middle of, so what is
proved by induction is that the characters of a word are all taken up; a whole word is
then read in one go, with the blank behind it or at the end of the line.

* `StackMachine.Token.ofLine_intercalate` – the tokens of a line of words.
-/

namespace StackMachine

namespace Token

variable {w rest : List Char} {ws : List (List Char)}

/-- The characters of a token. -/
structure IsWord (w : List Char) : Prop where
  ne_nil : w ≠ []
  isSeparator : ∀ c ∈ w, Text.isSeparator c = false
  ne_comment : ∀ c ∈ w, c ≠ '#'

/-- The scanner takes up the characters of a word. -/
theorem scan_append (h : ∀ c ∈ w, Text.isSeparator c = false) (column : Nat)
    (pending rest : List Char) :
    scan column pending (w ++ rest) = scan (column + w.length) (w.reverse ++ pending) rest := by
  induction w generalizing column pending with
  | nil => rfl
  | cons c w ih =>
    have hc : Text.isSeparator c = false := h c (by simp)
    have hw : ∀ d ∈ w, Text.isSeparator d = false := fun d hd => h d (by simp [hd])
    rw [List.cons_append, scan, hc, if_neg Bool.false_ne_true, ih hw]
    simp [Nat.add_assoc, Nat.add_comm 1]

/-- The token of a word that was taken up. -/
theorem ofPending_word (hw : w ≠ []) (column : Nat) :
    ofPending (column + w.length) (w.reverse ++ []) = [⟨String.ofList w, column⟩] := by
  rw [ofPending, if_neg (by simpa using hw)]
  simp

/-- **A word at the end of a line.** -/
theorem scan_word (hw : IsWord w) (column : Nat) :
    scan column [] w = [⟨String.ofList w, column⟩] := by
  have h := scan_append hw.isSeparator column [] []
  rw [List.append_nil] at h
  rw [h, scan, ofPending_word hw.ne_nil]

/-- **A word with a blank behind it.** -/
theorem scan_word_blank (hw : IsWord w) (column : Nat) :
    scan column [] (w ++ ' ' :: rest) =
      ⟨String.ofList w, column⟩ :: scan (column + w.length + 1) [] rest := by
  have hblank : Text.isSeparator ' ' = true := by decide
  rw [scan_append hw.isSeparator, scan, if_pos hblank, ofPending_word hw.ne_nil,
    List.singleton_append]

theorem scan_intercalate (h : ∀ w ∈ ws, IsWord w) (column : Nat) :
    (scan column [] ([' '].intercalate ws)).map Token.text = ws.map String.ofList := by
  -- The tokens are compared by their text, so the column may be any.
  induction ws generalizing column with
  | nil => rfl
  | cons w ws ih =>
    have hw : IsWord w := h w (by simp)
    have hws : ∀ v ∈ ws, IsWord v := fun v hv => h v (by simp [hv])
    cases ws with
    | nil => rw [List.intercalate_singleton, scan_word hw, List.map_singleton, List.map_singleton]
    | cons v ws =>
      rw [List.intercalate_cons_cons, List.append_assoc, List.singleton_append,
        scan_word_blank hw, List.map_cons, List.map_cons, ih hws]

/-- The characters of a line of words. -/
theorem mem_intercalate {c : Char} (h : c ∈ [' '].intercalate ws) :
    c = ' ' ∨ ∃ w ∈ ws, c ∈ w := by
  induction ws with
  | nil => cases h
  | cons w ws ih =>
    cases ws with
    | nil =>
      rw [List.intercalate_singleton] at h
      exact Or.inr ⟨w, by simp, h⟩
    | cons v ws =>
      rw [List.intercalate_cons_cons, List.append_assoc, List.mem_append,
        List.singleton_append, List.mem_cons] at h
      rcases h with hc | hc | hc
      · exact Or.inr ⟨w, by simp, hc⟩
      · exact Or.inl hc
      · obtain hc | ⟨u, hu, hc⟩ := ih hc
        · exact Or.inl hc
        · exact Or.inr ⟨u, List.mem_cons_of_mem _ hu, hc⟩

/-- A line of words has no comment. -/
theorem dropComment_intercalate (h : ∀ w ∈ ws, IsWord w) :
    Text.dropComment ([' '].intercalate ws) = [' '].intercalate ws := by
  have hall : ∀ c ∈ [' '].intercalate ws, (c != '#') = true := by
    intro c hc
    rw [bne_iff_ne]
    obtain rfl | ⟨w, hw, hcw⟩ := mem_intercalate hc
    · decide
    · exact (h w hw).ne_comment c hcw
  rw [Text.dropComment, ← List.append_nil ([' '].intercalate ws),
    List.takeWhile_append_of_pos hall, List.takeWhile_nil]

/-- **The tokens of a line of words are these words.** -/
theorem ofLine_intercalate (h : ∀ w ∈ ws, IsWord w) :
    (ofLine ([' '].intercalate ws)).map Token.text = ws.map String.ofList := by
  rw [ofLine, dropComment_intercalate h, scan_intercalate h]

end Token

end StackMachine
