import StackMachine.Proofs.Assembly.Excerpt
import StackMachine.Proofs.Assembly.Places

/-!
# Where the carets are

What the assembler refuses it also shows, and the caret is meant for the token that it stopped
at. Whether the caret is there depends on the number of the line, which may be too wide for its
gutter, and on the error: an error about a label carries no column and is shown at the first
one, wherever on its line the label is.

| the error       | the column that is shown | the caret misses the token by                     |
|-----------------|--------------------------|---------------------------------------------------|
| about a label   | the first                | the digits beyond four, and the columns before it |
| about any other | that of the token        | the digits beyond four                            |

* `StackMachine.Assembly.misses_of_place` – errors that carry a column: the caret is right on
  the lines before the ten-thousandth, and on no other;
* `StackMachine.Assembly.misses_of_label` – errors about labels: the label has to begin its
  line too, and a reference never does, for there is a mnemonic before it.

The table is about the one token that the assembler stops at
(`StackMachine.Assembly.StopsAt.unique`), which is found without the two passes.
-/

namespace StackMachine

namespace Assembly

variable {source file : String} {e : Error} {s s' : Site} {line column column' gap : Nat}
  {name : String}

/-! ### The token that the assembler stops at -/

/-- **The assembler stops at a token**: nothing is wrong with the tokens that are looked at
before it, and what is wrong with it is the error. -/
def StopsAt (source : String) (s : Site) (e : Error) : Prop :=
  ∃ before, before ++ [s] <+: outline source ++ operands source ∧ Clean [] before ∧
    Wrong before s e

theorem exists_stopsAt (h : assemble source = .error e) : ∃ s, StopsAt source s e := by
  obtain ⟨before, s, after, hsites, hclean, hwrong⟩ := (checks_assemble e).mp h
  refine ⟨s, before, ⟨after, ?_⟩, hclean, hwrong⟩
  rw [hsites, List.append_assoc, List.singleton_append]

/-- The assembler does not go past what is wrong. -/
theorem Clean.not_isPrefix {before before' : List Site} (h : Clean [] before')
    (hwrong : Wrong before s e) : ¬before ++ [s] <+: before' := by
  rintro ⟨after, rfl⟩
  exact h before s after (by simp) e hwrong

/-- **The assembler stops at one token only.** -/
theorem StopsAt.unique (h : StopsAt source s e) (h' : StopsAt source s' e) : s' = s := by
  obtain ⟨before, hsites, hclean, hwrong⟩ := h
  obtain ⟨before', hsites', hclean', hwrong'⟩ := h'
  rcases List.prefix_or_prefix_of_prefix hsites hsites' with hle | hle
  · rcases List.prefix_concat_iff.mp hle with heq | hlt
    · exact (List.singleton_inj.mp (List.append_inj_right' heq rfl)).symm
    · exact absurd hlt (hclean'.not_isPrefix hwrong)
  · rcases List.prefix_concat_iff.mp hle with heq | hlt
    · exact List.singleton_inj.mp (List.append_inj_right' heq rfl)
    · exact absurd hlt (hclean.not_isPrefix hwrong')

theorem StopsAt.iff_eq (h : StopsAt source s e) (s' : Site) : StopsAt source s' e ↔ s' = s :=
  ⟨h.unique, fun heq => heq ▸ h⟩

theorem StopsAt.standsIn (h : StopsAt source s e) : s.StandsIn source := by
  obtain ⟨before, hsites, -⟩ := h
  exact standsIn_of_mem (hsites.subset (by simp))

/-! ### Errors that carry a column -/

/-- A place that an error carries is shown. -/
theorem exists_ofError?_of_place? (h : place? e = some (line, column)) :
    ∃ message, Finding.ofError? e = some ⟨line, column, message⟩ := by
  cases e <;> cases h <;> exact ⟨_, rfl⟩

theorem StopsAt.explains (h : StopsAt source s e) : Explains e s.toSpot := by
  obtain ⟨_, -, -, hwrong⟩ := h
  exact hwrong.explains

theorem StopsAt.one_le_column (h : StopsAt source s e) : 1 ≤ s.token.column := by
  obtain ⟨_, -, hrun⟩ := h.standsIn.run
  exact hrun.column_le

/-- The column is shown, and the digits of the line's number are what the caret misses by. -/
theorem StopsAt.misses_iff_of_place? (h : StopsAt source s e)
    (hplace : place? e = some (line, column)) :
    Misses (render file source e) file source s.toSpot column' gap ↔
      column' = column ∧ gap = (toString line).length - 4 := by
  obtain ⟨message, he⟩ := exists_ofError?_of_place? hplace
  obtain ⟨rfl, rfl⟩ := h.explains.place_eq hplace
  rw [misses_render_iff h.standsIn he h.one_le_column le_rfl, Nat.sub_self, Nat.add_zero]

theorem StopsAt.pointsAt_iff_of_place? (h : StopsAt source s e)
    (hplace : place? e = some (line, column)) :
    PointsAt (render file source e) file source s.toSpot ↔ line < 10000 := by
  obtain ⟨-, hcolumn⟩ := h.explains.place_eq hplace
  rw [PointsAt, h.misses_iff_of_place? hplace, and_iff_right hcolumn, eq_comm,
    length_digits_sub_eq_zero_iff]

/-- **Where the caret is for an error that carries a column**: the column is that of the token that
the assembler stopped at, and the caret is to the left of the token by as many characters as the
number of the line has digits beyond four. -/
theorem misses_of_place (h : assemble source = .error e) (hplace : place? e = some (line, column))
    (file : String) :
    ∃ s, (∀ s', StopsAt source s' e ↔ s' = s) ∧ s.line = line ∧ s.token.column = column ∧
      (∀ column' gap, Misses (render file source e) file source s.toSpot column' gap ↔
        column' = column ∧ gap = (toString line).length - 4) ∧
      (PointsAt (render file source e) file source s.toSpot ↔ line < 10000) := by
  obtain ⟨s, hs⟩ := exists_stopsAt h
  obtain ⟨hline, hcolumn⟩ := hs.explains.place_eq hplace
  exact ⟨s, hs.iff_eq, hline, hcolumn, fun _ _ => hs.misses_iff_of_place? hplace,
    hs.pointsAt_iff_of_place? hplace⟩

/-- The second line is below the ten-thousandth. -/
theorem misses_of_place_numeral :
    assemble "NOP\nPUSH 1x" = .error (.malformedToken 2 6 "invalid integer `1x`") ∧
      ∃ s, (∀ s', StopsAt "NOP\nPUSH 1x" s' (.malformedToken 2 6 "invalid integer `1x`") ↔ s' = s) ∧
        s.line = 2 ∧ s.token.column = 6 ∧
        PointsAt (render "prog.asm" "NOP\nPUSH 1x" (.malformedToken 2 6 "invalid integer `1x`"))
          "prog.asm" "NOP\nPUSH 1x" s.toSpot := by
  have h : assemble "NOP\nPUSH 1x" = .error (.malformedToken 2 6 "invalid integer `1x`") := by rfl
  obtain ⟨s, hs, hline, hcolumn, -, hpoints⟩ := misses_of_place h rfl "prog.asm"
  exact ⟨h, s, hs, hline, hcolumn, hpoints.mpr (by decide)⟩

/-- A text with nothing but a question mark on its last line, and empty lines before it. -/
def questionAfter (n : Nat) : String := String.ofList (List.replicate n '\n' ++ ['?'])

theorem lines_questionAfter (n : Nat) :
    Text.lines (questionAfter n).toList = List.replicate n [] ++ [['?']] := by
  rw [questionAfter, String.toList_ofList]
  induction n with
  | zero => decide
  | succ n ih =>
    have hempty : ([] : List Char).splitOn '\n' = [] ++ [[]] := rfl
    rw [List.replicate_succ, List.cons_append]
    exact (Text.lines_append_newline hempty _).trans (congrArg ([] :: ·) ih)

theorem outline_questionAfter (n : Nat) :
    outline (questionAfter n) = [⟨⟨n + 1, ⟨"?", 1⟩⟩, .head 0⟩] := by
  rw [outline, Line.ofSource, lines_questionAfter, List.zipIdx_append, List.map_append,
    List.flatMap_append, List.length_replicate, Nat.add_comm]
  refine Eq.trans (congrArg (· ++ _) (List.flatMap_eq_nil_iff.mpr fun line hline => ?_)) rfl
  obtain ⟨⟨l, number⟩, hl, rfl⟩ := List.mem_map.mp hline
  obtain rfl : l = [] := (List.mem_replicate.mp (List.fst_mem_of_mem_zipIdx hl)).2
  rfl

theorem assemble_questionAfter (n : Nat) :
    assemble (questionAfter n) =
      .error (.badStatement (n + 1) 1 "invalid instruction name: ?") := by
  have hno : ∀ h : Head, ¬Text.SameLetters "?" h.name := by
    intro h hsame
    cases Head.ofText?_eq_some_iff.mpr hsame
  refine (checks_assemble _).mpr
    ⟨[], ⟨⟨n + 1, ⟨"?", 1⟩⟩, .head 0⟩, operands (questionAfter n), ?_, clean_nil, .mnemonic hno⟩
  rw [outline_questionAfter, List.singleton_append, List.nil_append]

theorem render_questionAfter (n : Nat) (message : String) :
    render file (questionAfter n) (.badStatement (n + 1) 1 message) =
      "error: " ++ message ++ "\n --> " ++ file ++ ":" ++ toString (n + 1) ++ ":" ++ toString 1 ++
        "\n" ++ excerpt (n + 1) 1 ['?'] := by
  have hline : (Text.lines (questionAfter n).toList)[n + 1 - 1]? = some ['?'] := by
    rw [lines_questionAfter]
    simp
  simp only [render, Finding.ofError?, hline]

/-- **On line 10000 the caret is wrong**: it is one character to the left of the question mark. -/
theorem caret_before_question :
    assemble (questionAfter 9999) = .error (.badStatement 10000 1 "invalid instruction name: ?") ∧
      render "f.asm" (questionAfter 9999) (.badStatement 10000 1 "invalid instruction name: ?") =
        "error: invalid instruction name: ?\n --> f.asm:10000:1\n" ++
          "     |\n10000 | ?\n     | ^\n" ∧
      ∀ s, StopsAt (questionAfter 9999) s (.badStatement 10000 1 "invalid instruction name: ?") →
        ¬PointsAt
          (render "f.asm" (questionAfter 9999)
            (.badStatement 10000 1 "invalid instruction name: ?"))
          "f.asm" (questionAfter 9999) s.toSpot := by
  refine ⟨assemble_questionAfter 9999, (render_questionAfter 9999 _).trans (by decide), ?_⟩
  intro s hs hpoints
  have hlt : 10000 < 10000 := (hs.pointsAt_iff_of_place? rfl).mp hpoints
  exact absurd hlt (by decide)

/-! ### Errors about labels -/

/-- A site refers to a name. -/
def Site.Refers (s : Site) (name : String) : Prop :=
  s.role = .operand ∧ s.token.text = "@" ++ name

theorem StopsAt.defines (h : StopsAt source s (.duplicateLabel line name)) :
    s.line = line ∧ s.Defines name := by
  obtain ⟨_, -, -, hwrong⟩ := h
  cases hwrong with
  | duplicate htext _ _ => exact ⟨rfl, rfl, htext⟩

theorem StopsAt.refers (h : StopsAt source s (.undefinedLabel line name)) :
    s.line = line ∧ s.Refers name := by
  obtain ⟨_, -, -, hwrong⟩ := h
  cases hwrong with
  | undefined htext _ => exact ⟨rfl, rfl, htext⟩

/-- The tokens of a line, labels and all. -/
theorem Line.tokens_ofTokens (number : Nat) (tokens : List Token) :
    (ofTokens number tokens).labels.map Label.token ++ (ofTokens number tokens).body = tokens := by
  have hspots : (ofTokens number tokens).spots.map Spot.token =
      (tokens.map (⟨number, ·⟩)).map Spot.token := congrArg _ spots_ofTokens
  simpa [spots, Function.comp_def] using hspots

/-- **An operand has a token before it** on its line. -/
theorem one_lt_column_of_mem_operands (h : s ∈ operands source) : 1 < s.token.column := by
  obtain ⟨line, hline, hs⟩ := List.mem_flatMap.mp h
  obtain ⟨⟨l, number⟩, -, rfl⟩ := List.mem_map.mp hline
  obtain ⟨t, ht, rfl⟩ :
      ∃ t ∈ (Line.ofTokens number (Token.ofLine l)).body.tail, _ = s := List.mem_map.mp hs
  have htokens := Line.tokens_ofTokens number (Token.ofLine l)
  generalize (Line.ofTokens number (Token.ofLine l)).body = body at ht htokens
  obtain _ | ⟨head, rest⟩ := body
  · cases ht
  · have hhead : head ∈ Token.ofLine l := by
      rw [← htokens]
      simp
    have hpairwise : (Token.ofLine l).Pairwise fun t t' => t.column < t'.column :=
      Token.pairwise_ofLine
    rw [← htokens] at hpairwise
    have hlt : head.column < t.column :=
      (List.pairwise_cons.mp (List.pairwise_append.mp hpairwise).2.1).1 t ht
    exact Nat.lt_of_le_of_lt (Token.mem_ofLine_iff.mp hhead).column_le hlt

theorem Site.Refers.one_lt_column (h : s.Refers name) (hs : StopsAt source s e) :
    1 < s.token.column := by
  obtain ⟨before, hsites, -⟩ := hs
  have hmem : s ∈ outline source ++ operands source := hsites.subset (by simp)
  rcases List.mem_append.mp hmem with hmem | hmem
  · exact absurd h.1 (role_ne_operand_of_mem_outline s hmem)
  · exact one_lt_column_of_mem_operands hmem

/-- An error about a label. -/
def IsAboutLabel (e : Error) (line : Nat) (name : String) : Prop :=
  e = .duplicateLabel line name ∨ e = .undefinedLabel line name

theorem StopsAt.line_of_label (h : StopsAt source s e) (he : IsAboutLabel e line name) :
    s.line = line := by
  rcases he with rfl | rfl
  · exact h.defines.1
  · exact h.refers.1

/-- The first column is shown, and the caret misses by the columns before the token as well. -/
theorem StopsAt.misses_iff_of_label (h : StopsAt source s e) (he : IsAboutLabel e line name) :
    Misses (render file source e) file source s.toSpot column gap ↔
      column = 1 ∧ gap = ((toString line).length - 4) + (s.token.column - 1) := by
  rcases he with rfl | rfl
  · obtain ⟨rfl, -⟩ := h.defines
    exact misses_render_iff h.standsIn rfl le_rfl h.one_le_column
  · obtain ⟨rfl, -⟩ := h.refers
    exact misses_render_iff h.standsIn rfl le_rfl h.one_le_column

theorem StopsAt.pointsAt_iff_of_label (h : StopsAt source s e) (he : IsAboutLabel e line name) :
    PointsAt (render file source e) file source s.toSpot ↔ s.token.column = 1 ∧ line < 10000 := by
  rw [PointsAt, h.misses_iff_of_label he, ← length_digits_sub_eq_zero_iff]
  omega

/-- **Where the caret is for an error about a label**: in the first column, and so to the left of
the label by the characters before it on its line, and by the digits that the number of the line
has beyond four. It is below a definition that begins its line, and below no reference. -/
theorem misses_of_label (h : assemble source = .error e) (he : IsAboutLabel e line name)
    (file : String) :
    ∃ s, (∀ s', StopsAt source s' e ↔ s' = s) ∧ s.line = line ∧
      (e = .duplicateLabel line name → s.Defines name) ∧
      (e = .undefinedLabel line name → s.Refers name ∧ 1 < s.token.column) ∧
      (∀ column gap, Misses (render file source e) file source s.toSpot column gap ↔
        column = 1 ∧ gap = ((toString line).length - 4) + (s.token.column - 1)) ∧
      (PointsAt (render file source e) file source s.toSpot ↔
        s.token.column = 1 ∧ line < 10000) := by
  obtain ⟨s, hs⟩ := exists_stopsAt h
  refine ⟨s, hs.iff_eq, hs.line_of_label he, ?_, ?_, fun _ _ => hs.misses_iff_of_label he,
    hs.pointsAt_iff_of_label he⟩
  · rintro rfl
    exact hs.defines.2
  · rintro rfl
    exact ⟨hs.refers.2, hs.refers.2.one_lt_column hs⟩

/-- The second definition of a label is behind that of another one. -/
theorem misses_of_label_duplicate :
    assemble "a:\n b: a:" = .error (.duplicateLabel 2 "a") ∧
      ∃ s, (∀ s', StopsAt "a:\n b: a:" s' (.duplicateLabel 2 "a") ↔ s' = s) ∧ s.line = 2 ∧
        s.Defines "a" ∧
        Misses (render "x.asm" "a:\n b: a:" (.duplicateLabel 2 "a")) "x.asm" "a:\n b: a:" s.toSpot
          1 (s.token.column - 1) := by
  have h : assemble "a:\n b: a:" = .error (.duplicateLabel 2 "a") := by rfl
  obtain ⟨s, hs, hline, hdefines, -, hmisses, -⟩ := misses_of_label h (Or.inl rfl) "x.asm"
  exact ⟨h, s, hs, hline, hdefines rfl, (hmisses _ _).mpr ⟨rfl, (Nat.zero_add _).symm⟩⟩

/-- **The caret is not below the reference**: it is in the first column. -/
theorem caret_before_reference :
    assemble "PUSH @nowhere" = .error (.undefinedLabel 1 "nowhere") ∧
      render "x.asm" "PUSH @nowhere" (.undefinedLabel 1 "nowhere") =
        "error: undefined label: nowhere\n --> x.asm:1:1\n" ++
          "     |\n   1 | PUSH @nowhere\n     | ^\n" ∧
      ∀ s, StopsAt "PUSH @nowhere" s (.undefinedLabel 1 "nowhere") →
        ¬PointsAt (render "x.asm" "PUSH @nowhere" (.undefinedLabel 1 "nowhere")) "x.asm"
          "PUSH @nowhere" s.toSpot := by
  refine ⟨by rfl, by decide, fun s hs hpoints => ?_⟩
  have hfirst : s.token.column = 1 := ((hs.pointsAt_iff_of_label (Or.inr rfl)).mp hpoints).1
  have hlater : 1 < s.token.column := hs.refers.2.one_lt_column hs
  omega

end Assembly

end StackMachine
