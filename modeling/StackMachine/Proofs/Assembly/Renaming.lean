import Mathlib.Data.List.TakeWhile
import StackMachine.Proofs.Assembly.Correspondence
import StackMachine.Proofs.Program.Text

/-!
# Names of labels are only names

In a source text the labels get other names, different ones for different labels: in the
definitions in front of the statements and in the references among the operands. Nothing else
of the text is touched. Then the text is assembled to the same program, or it is refused for the
same reason on the same line; and it does not matter whether a new name looks like a mnemonic,
or is the same as another one but for the case of letters.

The text is changed in place, by a scanner that goes the way of the assembler's scanner and
writes down all that it reads, tokens in their new form and everything else as it is. The one
thing to know about it is that it cannot go out of step: a new name is made of characters that
neither separate nor begin a comment, so the tokens of the new text are the tokens that were
written (`StackMachine.Assembly.Renaming.tokenLines_source`), and a line stays a line.

* `StackMachine.Assembly.Renaming.source` – a source text with the new names in it;
* `StackMachine.Assembly.Renaming.invisible` – nobody notices.
-/

namespace StackMachine

namespace Assembly

/-! ### Tokens with new names -/

/-- The name that a token defines, if it is the definition of a label. -/
def definedName? (text : String) : Option String := (Label.ofToken? ⟨text, 1⟩).map Label.name

theorem definedName?_eq_some_iff {text name : String} :
    definedName? text = some name ↔ name ≠ "" ∧ text = name ++ ":" := by
  rw [definedName?, Option.map_eq_some_iff]
  simp only [Label.ofToken?_eq_some_iff]
  constructor
  · rintro ⟨l, ⟨hne, htext, -⟩, rfl⟩
    exact ⟨hne, htext⟩
  · rintro ⟨hne, htext⟩
    exact ⟨⟨name, 1⟩, ⟨hne, htext, rfl⟩, rfl⟩

theorem definedName?_eq_none_iff {text : String} :
    definedName? text = none ↔ ¬IsDefinition text := by
  rw [definedName?, Option.map_eq_none_iff, Label.ofToken?_eq_none_iff]

namespace Renaming

variable {r : Renaming} {front : Bool} {text : String} {c : Char}
  {w l pending rest : List Char} {s s' : String}

/-- A token with the new name in it. The name that a definition has is a label's in front of the
statement only, and that of a reference only behind its head. -/
def token (r : Renaming) (front : Bool) (text : String) : String :=
  if front then
    match definedName? text with
    | some name => r.apply name ++ ":"
    | none => text
  else r.operand text

/-- Whether a token may be followed by the definition of a label. -/
def staysInFront (front : Bool) (text : String) : Bool := front && (definedName? text).isSome

/-- The tokens of a line with the new names in them, from a place in front of the statement on or
from one behind its head. -/
def tokens (r : Renaming) : Bool → List String → List String
  | _, [] => []
  | front, text :: rest => r.token front text :: tokens r (staysInFront front text) rest

theorem tokens_false (texts : List String) : r.tokens false texts = texts.map r.operand := by
  induction texts with
  | nil => rfl
  | cons text texts ih => exact congrArg _ ih

/-- **The new tokens are the old ones, rewritten.** -/
theorem rewrites_tokens (texts : List String) : Rewrites r texts (r.tokens true texts) := by
  induction texts with
  | nil => exact .nothing
  | cons text texts ih =>
    cases hname : definedName? text with
    | none =>
      have htokens : r.tokens true (text :: texts) = text :: texts.map r.operand := by
        rw [tokens, token, if_pos rfl, staysInFront, hname, ← tokens_false]
        rfl
      rw [htokens]
      exact .statement (definedName?_eq_none_iff.mp hname) rfl
    | some name =>
      have htokens : r.tokens true (text :: texts) =
          (r.apply name ++ ":") :: r.tokens true texts := by
        rw [tokens, token, if_pos rfl, staysInFront, hname]
        rfl
      obtain ⟨hne, rfl⟩ := definedName?_eq_some_iff.mp hname
      rw [htokens]
      exact .label hne ih

/-! ### The characters of new names -/

/-- The characters of names neither separate nor begin a comment. -/
theorem isSeparator_of_isNameChar (h : IsNameChar c) : Text.isSeparator c = false ∧ c ≠ '#' := by
  have hc : ((65 ≤ c.toNat ∧ c.toNat ≤ 90 ∨ 97 ≤ c.toNat ∧ c.toNat ≤ 122) ∨ c.toNat = 95) ∨
      48 ≤ c.toNat ∧ c.toNat ≤ 57 := by
    rcases h with (h | h | rfl) | h
    · exact .inl (.inl (.inl h))
    · exact .inl (.inl (.inr h))
    · exact .inl (.inr rfl)
    · exact .inr h
  exact isSeparator_of_toNat (by omega) (by omega)

theorem mem_apply (h : c ∈ (r.apply text).toList) : c ∈ text.toList ∨ IsNameChar c := by
  by_cases hname : IsName text
  · obtain ⟨d, ds, htext, hd, hds⟩ := isName_apply_iff (r := r).mpr hname
    rw [htext] at h
    exact Or.inr ((List.mem_cons.mp h).elim (fun hc => hc ▸ Or.inl hd) (hds c))
  · rw [apply_of_not_isName hname] at h
    exact Or.inl h

theorem mem_operand (h : c ∈ (r.operand text).toList) : c ∈ text.toList ∨ IsNameChar c := by
  obtain ⟨name, rfl, hoperand⟩ | ⟨-, hoperand⟩ := r.operand_cases text
  · rw [hoperand, String.toList_append, List.mem_append] at h
    rw [String.toList_append, List.mem_append, or_assoc]
    exact h.imp id mem_apply
  · rw [hoperand] at h
    exact Or.inl h

/-- **Only characters of names are new** in a token. -/
theorem mem_token (h : c ∈ (r.token front text).toList) : c ∈ text.toList ∨ IsNameChar c := by
  rw [token] at h
  cases front with
  | false => exact mem_operand h
  | true =>
    rw [if_pos rfl] at h
    cases hname : definedName? text with
    | none =>
      rw [hname] at h
      exact Or.inl h
    | some name =>
      obtain ⟨-, rfl⟩ := definedName?_eq_some_iff.mp hname
      rw [hname] at h
      simp only [String.toList_append, List.mem_append] at h ⊢
      rw [or_right_comm]
      exact h.imp mem_apply id

theorem token_empty : r.token front "" = "" := by
  cases front <;> rfl

theorem token_ne_empty (h : text ≠ "") : r.token front text ≠ "" := by
  rw [token]
  cases front with
  | false =>
    rw [if_neg Bool.false_ne_true]
    obtain ⟨name, rfl, hoperand⟩ | ⟨-, hoperand⟩ := r.operand_cases text
    · simp [hoperand]
    · rwa [hoperand]
  | true =>
    rw [if_pos rfl]
    cases definedName? text with
    | none => exact h
    | some name => simp

/-- **What a token can be becomes what a token can be.** -/
theorem isWord_token (h : Token.IsWord w) :
    Token.IsWord (r.token front (String.ofList w)).toList := by
  have hmem : ∀ c ∈ (r.token front (String.ofList w)).toList,
      Text.isSeparator c = false ∧ c ≠ '#' := by
    intro c hc
    rcases mem_token hc with hc | hc
    · rw [String.toList_ofList] at hc
      exact ⟨h.isSeparator c hc, h.ne_comment c hc⟩
    · exact isSeparator_of_isNameChar hc
  refine ⟨fun hnil => ?_, fun c hc => (hmem c hc).1, fun c hc => (hmem c hc).2⟩
  refine token_ne_empty (fun hempty => h.ne_nil ?_) (String.toList_eq_nil_iff.mp hnil)
  exact String.ofList_eq_empty_iff.mp hempty

/-! ### Lines with new names -/

/-- **Changes code in place.** The characters of the token that the scanner is in the middle of
are pending, last one first. -/
def scan (r : Renaming) (front : Bool) (pending : List Char) : List Char → List Char
  | [] => (r.token front (String.ofList pending.reverse)).toList
  | c :: rest =>
    if !Text.isSeparator c then scan r front (c :: pending) rest
    else if pending.isEmpty then c :: scan r front [] rest
    else
      (r.token front (String.ofList pending.reverse)).toList ++
        c :: scan r (staysInFront front (String.ofList pending.reverse)) [] rest

/-- A line with the new names in it, and with its comment. -/
def line (r : Renaming) (l : List Char) : List Char :=
  r.scan true [] (Text.dropComment l) ++ l.dropWhile (· != '#')

/-- **A source text with the new names in it.** -/
def source (r : Renaming) (s : String) : String :=
  String.ofList (['\n'].intercalate ((s.toList.splitOn '\n').map r.line))

/-- **What holds of the characters of names and of the code** holds of the new code. -/
theorem forall_mem_scan {P : Char → Prop} (hname : ∀ c, IsNameChar c → P c)
    (hpending : ∀ c ∈ pending, P c) (hrest : ∀ c ∈ rest, P c) :
    ∀ c ∈ r.scan front pending rest, P c := by
  have htoken {front : Bool} {pending : List Char} (hpending : ∀ c ∈ pending, P c) :
      ∀ c ∈ (r.token front (String.ofList pending.reverse)).toList, P c := by
    intro c hc
    have hmem := mem_token hc
    rw [String.toList_ofList, List.mem_reverse] at hmem
    exact hmem.elim (hpending c) (hname c)
  have hnil : ∀ c ∈ ([] : List Char), P c := fun c hc => nomatch hc
  induction rest generalizing front pending with
  | nil => exact htoken hpending
  | cons d rest ih =>
    obtain ⟨hd, hrest⟩ := List.forall_mem_cons.mp hrest
    rw [scan]
    split
    · exact ih (List.forall_mem_cons.mpr ⟨hd, hpending⟩) hrest
    · split
      · exact List.forall_mem_cons.mpr ⟨hd, ih hnil hrest⟩
      · exact List.forall_mem_append.mpr
          ⟨htoken hpending, List.forall_mem_cons.mpr ⟨hd, ih hnil hrest⟩⟩

/-- A token is written as the new token. -/
theorem chunks_token (front : Bool) (hw : Token.IsWord w)
    (hl : ∀ c ∈ l.head?, Text.isSeparator c = true ∨ c = '#') :
    (Text.chunks ((r.token front (String.ofList w)).toList ++ l)).map String.ofList =
      r.token front (String.ofList w) :: (Text.chunks l).map String.ofList := by
  rw [Text.chunks_word (isWord_token hw) hl, List.map_cons, String.ofList_toList]

/-- What is pending is a token, if there is anything. -/
theorem isWord_reverse (hpending : ∀ c ∈ pending, Text.isSeparator c = false ∧ c ≠ '#')
    (hne : pending ≠ []) : Token.IsWord pending.reverse :=
  ⟨by simpa using hne, fun c hc => (hpending c (List.mem_reverse.mp hc)).1,
    fun c hc => (hpending c (List.mem_reverse.mp hc)).2⟩

/-- **The tokens that the scanner writes** are the new ones. -/
theorem chunks_scan (hpending : ∀ c ∈ pending, Text.isSeparator c = false ∧ c ≠ '#')
    (hrest : '#' ∉ rest) :
    (Text.chunks (r.scan front pending rest)).map String.ofList =
      r.tokens front ((Text.chunks (pending.reverse ++ rest)).map String.ofList) := by
  induction rest generalizing front pending with
  | nil =>
    by_cases hne : pending = []
    · subst hne
      rw [scan, List.reverse_nil, String.ofList_nil, token_empty]
      rfl
    · have hw := isWord_reverse hpending hne
      have htoken := chunks_token (r := r) (l := []) front hw (by simp)
      rw [List.append_nil] at htoken
      rw [scan, htoken, Text.chunks_word hw (by simp)]
      rfl
  | cons c rest ih =>
    have hc : c ≠ '#' := fun hc => hrest (by simp [hc])
    have hrest' : '#' ∉ rest := fun h => hrest (List.mem_cons_of_mem c h)
    rw [scan]
    by_cases hsep : Text.isSeparator c = true
    · -- The token ends here, if there is one, and what is behind it is scanned anew.
      have hbehind (front : Bool) : (Text.chunks (r.scan front [] rest)).map String.ofList =
          r.tokens front ((Text.chunks rest).map String.ofList) := ih (by simp) hrest'
      rw [if_neg (by simp [hsep])]
      by_cases hne : pending = []
      · subst hne
        rw [List.isEmpty_nil, if_pos rfl, List.reverse_nil, List.nil_append,
          Text.chunks_separator hsep, Text.chunks_separator hsep, hbehind]
      · have hw := isWord_reverse hpending hne
        have hnext (l : List Char) : ∀ d ∈ (c :: l).head?, Text.isSeparator d = true ∨ d = '#' := by
          rintro d ⟨⟩
          exact Or.inl hsep
        rw [if_neg (by simpa using hne), chunks_token _ hw (hnext _), Text.chunks_word hw (hnext _),
          Text.chunks_separator hsep, Text.chunks_separator hsep, hbehind]
        rfl
    · have hpending' : ∀ d ∈ c :: pending, Text.isSeparator d = false ∧ d ≠ '#' :=
        List.forall_mem_cons.mpr ⟨⟨Bool.eq_false_iff.mpr hsep, hc⟩, hpending⟩
      rw [if_pos (by simp [hsep]), ih hpending' hrest', List.reverse_cons, List.append_assoc]
      rfl

theorem scan_ne_nil (h : pending ≠ [] ∨ rest ≠ []) : r.scan front pending rest ≠ [] := by
  induction rest generalizing front pending with
  | nil =>
    have hne : pending ≠ [] := h.resolve_right (fun h => h rfl)
    rw [scan, ne_eq, String.toList_eq_nil_iff]
    exact token_ne_empty (by simpa using hne)
  | cons c rest ih =>
    rw [scan]
    split
    · exact ih (Or.inl (List.cons_ne_nil _ _))
    · split <;> simp

theorem hash_not_mem_dropComment : '#' ∉ Text.dropComment l := by
  intro h
  simpa using List.mem_takeWhile_imp h

/-- The comment begins where it began. -/
theorem dropComment_line : Text.dropComment (r.line l) = r.scan true [] (Text.dropComment l) := by
  have hcode : ∀ c ∈ r.scan true [] (Text.dropComment l), (c != '#') = true := by
    refine forall_mem_scan (fun c hc => ?_) (by simp) fun c => List.mem_takeWhile_imp
    rw [bne_iff_ne]
    exact (isSeparator_of_isNameChar hc).2
  have hcomment : (l.dropWhile (· != '#')).takeWhile (· != '#') = [] := by
    have hhead := List.head?_dropWhile_not (· != '#') l
    cases hrest : l.dropWhile (· != '#') with
    | nil => rfl
    | cons c rest =>
      rw [hrest, List.head?_cons] at hhead
      exact List.takeWhile_cons_of_neg (by simpa using hhead)
  rw [Text.dropComment, line, List.takeWhile_append_of_pos hcode, hcomment, List.append_nil]

/-- **The tokens of a line** are the new ones. -/
theorem chunks_line : (Text.chunks (r.line l)).map String.ofList =
    r.tokens true ((Text.chunks l).map String.ofList) := by
  have hcode (l : List Char) : Text.chunks (Text.dropComment l) = Text.chunks l := by
    rw [Text.chunks, Text.dropComment, Text.dropComment, List.takeWhile_idem]
    rfl
  rw [← hcode, dropComment_line, chunks_scan (by simp) hash_not_mem_dropComment, ← hcode l]
  rfl

theorem isEmpty_line : (r.line l).isEmpty = l.isEmpty := by
  cases l with
  | nil =>
    rw [line, Text.dropComment, List.takeWhile_nil, scan, List.reverse_nil, String.ofList_nil,
      token_empty]
    rfl
  | cons c l =>
    by_cases hc : c = '#'
    · subst hc
      rw [line, List.dropWhile_cons_of_neg (by simp)]
      simp
    · have hne : r.scan true [] (Text.dropComment (c :: l)) ≠ [] := by
        rw [Text.dropComment_cons hc]
        exact scan_ne_nil (Or.inr (List.cons_ne_nil _ _))
      simp [line, hne]

/-- A line stays a line. -/
theorem newline_not_mem_line (h : '\n' ∉ l) : '\n' ∉ r.line l := by
  have hcode : ∀ c ∈ r.scan true [] (Text.dropComment l), c ≠ '\n' := by
    refine forall_mem_scan (fun c hc => ?_) (by simp) fun c hc => ?_
    · rintro rfl
      exact absurd (isSeparator_of_isNameChar hc).1 (by decide)
    · rintro rfl
      exact h ((List.takeWhile_sublist _).mem hc)
  rw [line, List.mem_append, not_or]
  exact ⟨fun hmem => hcode _ hmem rfl, fun hmem => h ((List.dropWhile_sublist _).mem hmem)⟩

/-- **The tokens of the new text are the new tokens**, line by line. -/
theorem tokenLines_source (s : String) :
    tokenLines (r.source s) = (tokenLines s).map (r.tokens true) := by
  obtain ⟨ls, last, hpieces⟩ := Text.exists_splitOn_eq_concat s.toList
  have hsource : (r.source s).toList.splitOn '\n' = ls.map r.line ++ [r.line last] := by
    rw [source, String.toList_ofList, List.splitOn_intercalate, hpieces, List.map_append]
    · rfl
    · refine List.forall_mem_map.mpr fun l hl => newline_not_mem_line ?_
      exact Text.newline_not_mem_of_mem_splitOn hl
    · simp
  rw [tokenLines_of_splitOn hsource, tokenLines_of_splitOn hpieces, isEmpty_line, List.map_map]
  simp only [List.map_append, List.map_map, Function.comp_def, chunks_line]
  split <;> simp [chunks_line]

end Renaming

/-! ### What is assembled -/

/-- Lines that were rewritten one by one correspond, each to the line with its number. -/
theorem agree_of_rewrites {r : Renaming} {source source' : String}
    (h : List.Forall₂ (Rewrites r) (tokenLines source) (tokenLines source')) :
    Except.Agree (SameKind r Eq) Eq (assemble source) (assemble source') := by
  refine agree_passes ?_
  rw [tokenLines, tokenLines, List.forall₂_map_left_iff, List.forall₂_map_right_iff] at h
  rw [Line.ofSource, Line.ofSource, List.forall₂_map_left_iff, List.forall₂_map_right_iff]
  generalize Text.lines source.toList = ls at h ⊢
  generalize Text.lines source'.toList = ls' at h ⊢
  generalize (1 : Nat) = number
  induction h generalizing number with
  | nil => exact .nil
  | cons hline _ ih =>
    rw [List.zipIdx_cons, List.zipIdx_cons]
    refine .cons ?_ (ih (number + 1))
    rw [← Token.map_text_ofLine, ← Token.map_text_ofLine] at hline
    exact hline.sameLine rfl

namespace Renaming

/-- **A renaming of labels is invisible** in a source text. -/
structure Invisible (r : Renaming) (s : String) : Prop where
  /-- Changing the text in place changes its tokens, line by line: a definition in front of the
  statement gets its new name, and so does a reference among the operands. -/
  tokens : tokenLines (r.source s) = (tokenLines s).map (r.tokens true)
  /-- The new text is assembled to the same program, or both are refused, on the same line and for
  reasons of the same kind. -/
  inPlace : Except.Agree (SameKind r Eq) Eq (assemble s) (assemble (r.source s))
  /-- So is every text with the new tokens on its lines, whatever stands between them. -/
  elsewhere : ∀ s', tokenLines s' = (tokenLines s).map (r.tokens true) →
    Except.Agree (SameKind r Eq) Eq (assemble s) (assemble s')

/-- **Names of labels are only names**: no renaming is visible in any source text. -/
theorem invisible (r : Renaming) (s : String) : r.Invisible s := by
  have helsewhere : ∀ s', tokenLines s' = (tokenLines s).map (r.tokens true) →
      Except.Agree (SameKind r Eq) Eq (assemble s) (assemble s') := by
    intro s' hs'
    refine agree_of_rewrites ?_
    rw [hs', List.forall₂_map_right_iff, List.forall₂_same]
    exact fun texts _ => rewrites_tokens texts
  exact ⟨tokenLines_source s, helsewhere _ (tokenLines_source s), helsewhere⟩

-- Two labels change their names, one of which is the mnemonic of the statement that it marks.
example :
    let loop : {name : String // IsName name} := ⟨"loop", isLabelName_iff.mp rfl⟩
    let halt : {name : String // IsName name} := ⟨"halt", isLabelName_iff.mp rfl⟩
    (Renaming.mk (Equiv.swap loop halt) (Equiv.swap loop halt).injective).source
        "loop: a: PUSH,@loop # @loop\nhalt: halt\n.word @b" =
      "halt: a: PUSH,@halt # @loop\nloop: halt\n.word @b" := by
  decide +kernel

end Renaming

end Assembly

end StackMachine
