import StackMachine.Proofs.Assembly.Correspondence
import StackMachine.Proofs.Program.Text

/-!
# Layout is of no account

What the assembler makes of a source text depends on the tokens of its lines alone, lines
without tokens left out: two texts that have the same tokens, but for the case of letters in
the heads of statements, are assembled to the same program, or both are refused. So nobody has
to look at indentation, at commas and blanks, at comments, at blank lines, at the endings of
lines, or at the case of mnemonics.

* `StackMachine.Text.LaysOut` – the ways to write lines of tokens down;
* `StackMachine.Assembly.layoutIrrelevant` – no way to write lines down is assembled in another
  way than the others.

Blank lines are the one thing that the correspondence of lines does not cover, for it goes
line by line. They take up no room and define nothing, so the first pass does not notice that
they are gone (`StackMachine.Assembly.place_filter`); only the numbers of the lines behind
them change, and these get into the messages of errors and nowhere else.
-/

namespace StackMachine

/-! ### Ways to write tokens down -/

namespace Text

variable {c : Char} {w line text : List Char} {tokens : List String} {lines : List (List String)}

/-- **The ways to write the tokens of a line down**: separators in any number in front of the
tokens and behind them, at least one between two of them, and a comment at the end. -/
inductive LaysOutLine : List String → List Char → Prop
  | nothing : LaysOutLine [] []
  | separator {tokens : List String} {c : Char} {line : List Char} : isSeparator c = true →
      c ≠ '\n' → LaysOutLine tokens line → LaysOutLine tokens (c :: line)
  | comment {comment : List Char} : '\n' ∉ comment → LaysOutLine [] ('#' :: comment)
  | token {t : String} {tokens : List String} {line : List Char} :
      Token.IsWord t.toList → (∀ c ∈ line.head?, isSeparator c = true ∨ c = '#') →
      LaysOutLine tokens line → LaysOutLine (t :: tokens) (t.toList ++ line)

/-- **The ways to write lines down**, blank ones included: with a line feed between two of them,
or a carriage return and a line feed. -/
inductive LaysOut : List (List String) → List Char → Prop
  | last {tokens : List String} {line : List Char} : LaysOutLine tokens line →
      LaysOut [tokens] line
  | lineFeed {tokens : List String} {lines : List (List String)} {line text : List Char} :
      LaysOutLine tokens line → LaysOut lines text →
      LaysOut (tokens :: lines) (line ++ '\n' :: text)
  | returnAndLineFeed {tokens : List String} {lines : List (List String)}
      {line text : List Char} : LaysOutLine tokens line → LaysOut lines text →
      LaysOut (tokens :: lines) (line ++ '\r' :: '\n' :: text)

/-- Tokens that were written on a line are the pieces of it. -/
theorem LaysOutLine.chunks (h : LaysOutLine tokens line) :
    '\n' ∉ line ∧ (chunks line).map String.ofList = tokens := by
  induction h with
  | nothing => exact ⟨List.not_mem_nil, rfl⟩
  | separator hc hline _ ih =>
    rw [chunks_separator hc]
    exact ⟨by simp [hline.symm, ih.1], ih.2⟩
  | comment hcomment => exact ⟨by simpa using hcomment, rfl⟩
  | token hw hnext _ ih =>
    have hfeed : '\n' ∉ _ := fun h => absurd (hw.isSeparator _ h) (by decide)
    rw [chunks_word hw hnext, List.map_cons, String.ofList_toList, ih.2]
    exact ⟨fun h => (List.mem_append.mp h).elim hfeed ih.1, rfl⟩

/-- One character more in front of a line, which is the beginning of a token or continues the
first one to the left. -/
theorem LaysOutLine.exists_cons (hc : isSeparator c = false) (hcomment : c ≠ '#')
    (h : LaysOutLine tokens line) : ∃ tokens', LaysOutLine tokens' (c :: line) := by
  have hword : Token.IsWord [c] := ⟨by simp, by simpa using hc, by simpa using hcomment⟩
  -- A token of one character, when no token begins right behind it.
  have hsingle (hnext : ∀ d ∈ line.head?, isSeparator d = true ∨ d = '#') :
      LaysOutLine (String.ofList [c] :: tokens) (c :: line) := by
    have htoken := LaysOutLine.token (t := String.ofList [c])
      (by rwa [String.toList_ofList]) hnext h
    rwa [String.toList_ofList] at htoken
  cases h with
  | nothing => exact ⟨_, hsingle (by simp)⟩
  | separator hd => exact ⟨_, hsingle (by simpa using Or.inl hd)⟩
  | comment => exact ⟨_, hsingle (by simp)⟩
  | @token t tokens line hw hnext hline =>
    have hlonger : (String.ofList (c :: t.toList)).toList = c :: t.toList := String.toList_ofList
    have htoken := LaysOutLine.token (t := String.ofList (c :: t.toList))
      (by rw [hlonger]; exact hw.cons ⟨hc, hcomment⟩) hnext hline
    rw [hlonger] at htoken
    exact ⟨_, htoken⟩

/-- **Every line is a way to write tokens down.** -/
theorem exists_laysOutLine (h : '\n' ∉ line) : ∃ tokens, LaysOutLine tokens line := by
  induction line with
  | nil => exact ⟨_, .nothing⟩
  | cons c line ih =>
    have hfeed : c ≠ '\n' := fun hc => h (by simp [hc])
    have hline : '\n' ∉ line := fun hmem => h (List.mem_cons_of_mem c hmem)
    by_cases hcomment : c = '#'
    · subst hcomment
      exact ⟨_, .comment hline⟩
    · obtain ⟨tokens, htokens⟩ := ih hline
      by_cases hc : isSeparator c = true
      · exact ⟨_, .separator hc hfeed htokens⟩
      · exact htokens.exists_cons (Bool.eq_false_iff.mpr hc) hcomment

/-- Lines that were written in a text are the pieces of its lines. -/
theorem LaysOut.chunks (h : LaysOut lines text) :
    (text.splitOn '\n').map (fun line => (Text.chunks line).map String.ofList) = lines := by
  induction h with
  | last hline =>
    obtain ⟨hfeed, hchunks⟩ := hline.chunks
    rw [List.splitOn_eq_singleton hfeed, List.map_singleton, hchunks]
  | @lineFeed tokens lines line text hline _ ih =>
    obtain ⟨hfeed, hchunks⟩ := hline.chunks
    rw [List.splitOn_append_cons_self_of_not_mem hfeed, List.map_cons, hchunks, ih]
  | @returnAndLineFeed tokens lines line text hline _ ih =>
    obtain ⟨hfeed, hchunks⟩ := hline.chunks
    -- The carriage return separates, so that it makes no piece.
    have hreturn : Text.chunks (line ++ ['\r']) = Text.chunks line := by
      rw [← chunks_dropReturn (line ++ ['\r']), dropReturn, if_pos (by simp),
        List.dropLast_concat]
    have hfeed' : '\n' ∉ line ++ ['\r'] := by simpa using hfeed
    rw [List.append_cons, List.splitOn_append_cons_self_of_not_mem hfeed', List.map_cons, hreturn,
      hchunks, ih]

/-- One character more in front of a text. -/
theorem LaysOut.exists_cons (hc : c ≠ '\n') (h : LaysOut lines text) :
    ∃ lines', LaysOut lines' (c :: text) := by
  have hfirst {tokens line} (hline : LaysOutLine tokens line) :
      ∃ tokens', LaysOutLine tokens' (c :: line) :=
    exists_laysOutLine (by simp [hc.symm, hline.chunks.1])
  cases h with
  | last hline => exact (hfirst hline).imp' _ fun _ => .last
  | lineFeed hline htext => exact (hfirst hline).imp' _ fun _ h => .lineFeed h htext
  | returnAndLineFeed hline htext =>
    exact (hfirst hline).imp' _ fun _ h => .returnAndLineFeed h htext

/-- **Every text is a way to write lines down**, and there is one choice of lines only. -/
theorem existsUnique_laysOut (text : List Char) : ∃! lines, LaysOut lines text := by
  refine existsUnique_of_exists_of_unique ?_ fun _ _ h h' => h.chunks.symm.trans h'.chunks
  induction text with
  | nil => exact ⟨_, .last .nothing⟩
  | cons c text ih =>
    obtain ⟨lines, hlines⟩ := ih
    by_cases hc : c = '\n'
    · subst hc
      exact ⟨_, .lineFeed .nothing hlines⟩
    · exact hlines.exists_cons hc

end Text

namespace Assembly

variable {source source' : String} {lines : List (List String)} {tokens tokens' : List String}
  {number address : Nat} {labels : LabelTable}

/-! ### Lines with tokens -/

/-- The lines that have tokens. -/
def stated (lines : List (List String)) : List (List String) := lines.filter (!·.isEmpty)

/-- **The lines that have tokens are those that were written down.** -/
theorem stated_tokenLines (h : Text.LaysOut lines source.toList) :
    stated (tokenLines source) = stated lines := by
  obtain ⟨ls, last, hpieces⟩ := Text.exists_splitOn_eq_concat source.toList
  rw [← h.chunks, tokenLines_of_splitOn hpieces, hpieces, List.map_append, List.map_append,
    stated, stated, List.filter_append, List.filter_append]
  -- The last piece is no line when it is empty, and has no tokens then.
  cases last <;> rfl

/-- A line without tokens. -/
def Line.isBlank (l : Line) : Bool := l.labels.isEmpty && l.body.isEmpty

theorem Line.isBlank_ofTokens (tokens : List Token) :
    (Line.ofTokens number tokens).isBlank = tokens.isEmpty := by
  cases tokens with
  | nil => rfl
  | cons t rest =>
    cases ht : Label.ofToken? t with
    | none =>
      rw [Line.ofTokens_body ht]
      rfl
    | some l =>
      rw [Line.ofTokens_label ht]
      rfl

/-- **The first pass does not notice blank lines.** -/
theorem place_filter (lines : List Line) :
    Layout.place address labels (lines.filter (!·.isBlank)) =
      Layout.place address labels lines := by
  induction lines generalizing address labels with
  | nil => rfl
  | cons line lines ih =>
    by_cases hblank : line.isBlank = true
    · rw [List.filter_cons_of_neg (by simp [hblank]), ih]
      obtain ⟨number, ls, body⟩ := line
      rw [Line.isBlank, Bool.and_eq_true, List.isEmpty_iff, List.isEmpty_iff] at hblank
      obtain ⟨rfl, rfl⟩ := hblank
      rfl
    · rw [List.filter_cons_of_pos (by simp [hblank])]
      simp only [Layout.place, ih]

/-! ### The case of heads -/

/-- **The same tokens but for the case of letters in the head** of the statement, which is the
first token that is no definition of a label. -/
inductive SameButCase : List String → List String → Prop
  | nothing : SameButCase [] []
  | definition {token : String} {tokens tokens' : List String} : IsDefinition token →
      SameButCase tokens tokens' → SameButCase (token :: tokens) (token :: tokens')
  | statement {head head' : String} {operands : List String} : ¬IsDefinition head →
      Text.SameLetters head head' → SameButCase (head :: operands) (head' :: operands)

/-- Nothing is renamed. -/
theorem SameButCase.rewrites (h : SameButCase tokens tokens') :
    Rewrites .refl tokens tokens' := by
  induction h with
  | nothing => exact .nothing
  | @definition token tokens tokens' hdefinition _ ih =>
    obtain ⟨name, hname, rfl⟩ := hdefinition
    have hlabel := Rewrites.label hname ih
    rwa [Renaming.apply_refl] at hlabel
  | @statement head head' operands hdefinition hhead =>
    have hoperands : operands.map Renaming.refl.operand = operands :=
      (List.map_congr_left fun _ _ => Renaming.operand_refl).trans (List.map_id _)
    have hstatement : Rewrites .refl (head :: operands)
        (head' :: operands.map Renaming.refl.operand) := .statement hdefinition hhead
    rwa [hoperands] at hstatement

/-- The lines of two texts with the same tokens correspond, when those without tokens are left
out. -/
theorem forall₂_sameLine
    (h : List.Forall₂ SameButCase (stated (tokenLines source)) (stated (tokenLines source'))) :
    List.Forall₂ (SameLine .refl fun _ _ => True)
      ((Line.ofSource source).filter (!·.isBlank))
      ((Line.ofSource source').filter (!·.isBlank)) := by
  have hstated (source : String) : stated (tokenLines source) =
      (((Text.lines source.toList).zipIdx 1).filter fun l => !(Token.ofLine l.1).isEmpty).map
        fun l => (Token.ofLine l.1).map Token.text := by
    have hempty (line : List Char) : ((Token.ofLine line).map Token.text).isEmpty =
        (Token.ofLine line).isEmpty := List.isEmpty_map
    rw [stated, tokenLines, ← List.zipIdx_map_fst 1 (Text.lines source.toList), List.map_map,
      List.filter_map]
    simp only [Function.comp_def, ← Token.map_text_ofLine, hempty, List.zipIdx_map_fst]
  have hlines (source : String) : (Line.ofSource source).filter (!·.isBlank) =
      (((Text.lines source.toList).zipIdx 1).filter fun l => !(Token.ofLine l.1).isEmpty).map
        fun l => Line.ofTokens l.2 (Token.ofLine l.1) := by
    rw [Line.ofSource, List.filter_map]
    simp only [Function.comp_def, Line.isBlank_ofTokens]
  rw [hstated, hstated, List.forall₂_map_left_iff, List.forall₂_map_right_iff] at h
  rw [hlines, hlines, List.forall₂_map_left_iff, List.forall₂_map_right_iff]
  exact h.imp fun l l' hl => hl.rewrites.sameLine trivial

/-! ### What is assembled -/

/-- **Layout is of no account** for two source texts. -/
structure LayoutIrrelevant (source source' : String) : Prop where
  /-- When they have the same tokens on their lines, but for the case of letters in heads and for
  lines without tokens, then both are assembled to the same program or both are refused, and for
  reasons of the same kind. -/
  tokens : List.Forall₂ SameButCase (stated (tokenLines source)) (stated (tokenLines source')) →
    Except.Agree (SameKind .refl fun _ _ => True) Eq (assemble source) (assemble source')
  /-- So it is when the same lines of tokens were written down in different ways. -/
  laidOut : ∀ lines lines', Text.LaysOut lines source.toList → Text.LaysOut lines' source'.toList →
    List.Forall₂ SameButCase (stated lines) (stated lines') →
    Except.Agree (SameKind .refl fun _ _ => True) Eq (assemble source) (assemble source')
  /-- Every source text was written down in one of these ways, and as these lines only. -/
  written : ∃! lines, Text.LaysOut lines source.toList

theorem agree_of_sameButCase
    (h : List.Forall₂ SameButCase (stated (tokenLines source)) (stated (tokenLines source'))) :
    Except.Agree (SameKind .refl fun _ _ => True) Eq (assemble source) (assemble source') := by
  have hagree := agree_passes (forall₂_sameLine h)
  rwa [place_filter, place_filter] at hagree

/-- **No two source texts are assembled in different ways because of their layout.** -/
theorem layoutIrrelevant (source source' : String) : LayoutIrrelevant source source' where
  tokens := agree_of_sameButCase
  laidOut lines lines' hlines hlines' h := by
    rw [← stated_tokenLines hlines, ← stated_tokenLines hlines'] at h
    exact agree_of_sameButCase h
  written := Text.existsUnique_laysOut source.toList

-- Commas, tabs, comments, blank lines, endings of lines and the case of heads.
example : (assemble "\tpush @a # jump\r\n\r\n,a:\tjmp\r\n\t.Word,7").toOption =
    (assemble "PUSH @a\na: JMP\n.word 7\n").toOption := by decide +kernel

end Assembly

end StackMachine
