import StackMachine.Proofs.Assembly.Grammar
import StackMachine.Proofs.Assembly.Meaning
import StackMachine.Proofs.Text.Lines

/-!
# Source texts that correspond

What of a source text does the assembler look at? Two texts are assembled side by side here,
line by line, and the lines may differ in everything that is of no account:

| part of a line | what may differ |
|---|---|
| its number | anything the two texts have agreed on |
| columns | everything |
| names of labels | one text has other names, different ones for different ones |
| heads | the case of letters |
| operands | the names in references, as they do in definitions |

Both passes go the same way on lines that correspond: they succeed with the same words, or
they fail with errors of the same kind on lines that correspond
(`StackMachine.Assembly.agree_passes`). There is one lemma for each step of the passes, which
says that the step takes things that correspond to things that correspond, and these lemmas
are put together the way the steps are.

The one place where names meet is the table of labels. A renaming may not join two names, and
then looking up a name in a table is looking up its new name in the renamed table
(`StackMachine.Assembly.Renaming.lookup_table`). Texts that are no names are renamed too, to
themselves, so that nobody has to know whether a text is a name before it is looked up.
-/

namespace StackMachine

namespace Assembly

/-! ### Renamings -/

/-- **A renaming of labels**: every name gets a name, and different names get different
ones. -/
structure Renaming where
  rename : {name : String // IsName name} → {name : String // IsName name}
  injective : Function.Injective rename

namespace Renaming

variable {r : Renaming} {name text text' : String} {k : Nat} {labels : LabelTable}

/-- The renaming that changes nothing. -/
def refl : Renaming := ⟨id, Function.injective_id⟩

/-- What a text becomes: a name gets its new name, and any other text stays. -/
def apply (r : Renaming) (text : String) : String :=
  if h : isLabelName text = true then r.rename ⟨text, isLabelName_iff.mp h⟩ else text

theorem apply_of_isName (h : IsName text) : r.apply text = r.rename ⟨text, h⟩ := by
  rw [apply, dif_pos (isLabelName_iff.mpr h)]

theorem apply_of_not_isName (h : ¬IsName text) : r.apply text = text := by
  rw [apply, dif_neg (isLabelName_iff.not.mpr h)]

@[simp] theorem apply_refl : refl.apply text = text := by
  by_cases h : IsName text
  · exact apply_of_isName h
  · exact apply_of_not_isName h

/-- **Names become names**, and nothing else does. -/
theorem isName_apply_iff : IsName (r.apply text) ↔ IsName text := by
  by_cases h : IsName text
  · rw [apply_of_isName h]
    exact iff_of_true (r.rename ⟨text, h⟩).2 h
  · rw [apply_of_not_isName h]

/-- **Different texts become different texts**, names or not. -/
theorem apply_inj : r.apply text = r.apply text' ↔ text = text' := by
  refine ⟨fun h => ?_, fun h => h ▸ rfl⟩
  have hname : IsName text ↔ IsName text' := by
    rw [← isName_apply_iff (r := r), h, isName_apply_iff]
  by_cases ht : IsName text
  · have ht' := hname.mp ht
    rw [apply_of_isName ht, apply_of_isName ht'] at h
    exact congrArg Subtype.val (r.injective (Subtype.ext h))
  · rwa [apply_of_not_isName ht, apply_of_not_isName (hname.not.mp ht)] at h

theorem apply_ne_empty (h : text ≠ "") : r.apply text ≠ "" := by
  by_cases ht : IsName text
  · exact (isName_apply_iff.mpr ht).ne_empty
  · rwa [apply_of_not_isName ht]

/-- A table of labels with their new names. -/
def table (r : Renaming) (labels : LabelTable) : LabelTable :=
  labels.map fun entry => (r.apply entry.1, entry.2)

/-- **A new name is found in the renamed table** where the name was in the table. -/
theorem lookup_table : (r.table labels).lookup (r.apply name) = labels.lookup name := by
  induction labels with
  | nil => rfl
  | cons entry labels ih =>
    have hname : (r.apply name == r.apply entry.1) = (name == entry.1) := by
      rw [Bool.eq_iff_iff, beq_iff_eq, beq_iff_eq, apply_inj]
    rw [List.lookup_cons, ← ih, ← hname]
    exact List.lookup_cons

/-- An operand with the new name in it, if it is a reference. -/
def operand (r : Renaming) (text : String) : String :=
  match text.toList with
  | '@' :: name => "@" ++ r.apply (String.ofList name)
  | _ => text

theorem operand_reference (name : String) : r.operand ("@" ++ name) = "@" ++ r.apply name := by
  have htext : ("@" ++ name).toList = '@' :: name.toList := by simp
  rw [operand, htext]
  change "@" ++ r.apply (String.ofList name.toList) = _
  rw [String.ofList_toList]

theorem operand_of_not_reference (h : ∀ name, text ≠ "@" ++ name) : r.operand text = text := by
  rw [operand]
  split
  · exact absurd (eq_reference_of_toList ‹_›) (h _)
  · rfl

/-- **An operand is a reference or stays as it is.** -/
theorem operand_cases (r : Renaming) (text : String) :
    (∃ name, text = "@" ++ name ∧ r.operand text = "@" ++ r.apply name) ∨
      (∀ name, text ≠ "@" ++ name) ∧ r.operand text = text := by
  by_cases h : ∃ name, text = "@" ++ name
  · obtain ⟨name, rfl⟩ := h
    exact Or.inl ⟨name, rfl, operand_reference name⟩
  · have hno : ∀ name, text ≠ "@" ++ name := fun name htext => h ⟨name, htext⟩
    exact Or.inr ⟨hno, operand_of_not_reference hno⟩

@[simp] theorem operand_refl : refl.operand text = text := by
  obtain ⟨name, rfl, h⟩ | ⟨-, h⟩ := refl.operand_cases text
  · rw [h, apply_refl]
  · exact h

end Renaming

/-! ### What corresponds -/

/-- **Errors of the same kind** in two source texts, on lines that correspond: they name the
same label in both texts, or the same token. The head of a statement may be quoted in another
case. -/
inductive SameKind (r : Renaming) (N : Nat → Nat → Prop) : Error → Error → Prop
  | malformedToken {line line' column column' : Nat} {explanation : String} : N line line' →
      SameKind r N (.malformedToken line column explanation)
        (.malformedToken line' column' explanation)
  | badStatement {line line' column column' : Nat} {explanation explanation' : String} :
      N line line' → SameKind r N (.badStatement line column explanation)
        (.badStatement line' column' explanation')
  | duplicateLabel {line line' : Nat} {label : String} : N line line' →
      SameKind r N (.duplicateLabel line label) (.duplicateLabel line' (r.apply label))
  | undefinedLabel {line line' : Nat} {label : String} : N line line' →
      SameKind r N (.undefinedLabel line label) (.undefinedLabel line' (r.apply label))

/-- **Tokens behind a head**: those of the one text are those of the other, with the new names
in references. -/
abbrev SameOperands (r : Renaming) (ts ts' : List Token) : Prop :=
  List.Forall₂ (fun t t' => t'.text = r.operand t.text) ts ts'

/-- **Statements that correspond**, if there are any: their heads are the same but for the case
of letters. -/
inductive SameBody (r : Renaming) : List Token → List Token → Prop
  | nil : SameBody r [] []
  | cons {t t' : Token} {ts ts' : List Token} : Text.SameLetters t.text t'.text →
      SameOperands r ts ts' → SameBody r (t :: ts) (t' :: ts')

/-- **Lines that correspond.** -/
structure SameLine (r : Renaming) (N : Nat → Nat → Prop) (l l' : Line) : Prop where
  number : N l.number l'.number
  labels : List.Forall₂ (fun d d' => d'.name = r.apply d.name) l.labels l'.labels
  body : SameBody r l.body l'.body

/-- **Statements that were read and correspond.** -/
structure SameStatement (r : Renaming) (N : Nat → Nat → Prop) (s s' : Statement) : Prop where
  line : N s.line s'.line
  head : s.head = s'.head
  operands : SameOperands r s.operands s'.operands

/-- **Layouts that correspond**: the same addresses, under the new names. -/
structure SameLayout (r : Renaming) (N : Nat → Nat → Prop) (l l' : Layout) : Prop where
  labels : l'.labels = r.table l.labels
  statements : List.Forall₂ (SameStatement r N) l.statements l'.statements
  size : l.size = l'.size

variable {r : Renaming} {N : Nat → Nat → Prop} {number number' address : Nat}
  {labels : LabelTable} {t t' : Token} {ts ts' : List Token} {line line' : Line}
  {lines lines' : List Line} {s s' : Statement} {layout layout' : Layout}

/-! ### The first pass -/

theorem agree_define {d d' : Label} (hname : d'.name = r.apply d.name)
    (hnumber : N number number') :
    Except.Agree (SameKind r N) (fun a b => b = r.table a) (labels.define number address d)
      ((r.table labels).define number' address d') := by
  unfold LabelTable.define
  rw [hname, Renaming.lookup_table]
  by_cases h : IsName d.name
  · have hlabel := isLabelName_iff.mpr h
    have hlabel' := isLabelName_iff.mpr ((Renaming.isName_apply_iff (r := r)).mpr h)
    simp only [hlabel, hlabel', Bool.not_true, Bool.false_eq_true, if_false]
    cases labels.lookup d.name with
    | none => exact .ok rfl
    | some k => exact .error (.duplicateLabel hnumber)
  · -- What is no name is not renamed.
    rw [Renaming.apply_of_not_isName h]
    have hlabel := Bool.eq_false_iff.mpr (isLabelName_iff.not.mpr h)
    simp only [hlabel, Bool.not_false, if_true]
    exact .error (.malformedToken hnumber)

theorem agree_defineAll {ds ds' : List Label}
    (hnames : List.Forall₂ (fun d d' => d'.name = r.apply d.name) ds ds')
    (hnumber : N number number') :
    Except.Agree (SameKind r N) (fun a b => b = r.table a) (labels.defineAll number address ds)
      ((r.table labels).defineAll number' address ds') := by
  induction hnames generalizing labels with
  | nil => exact .ok rfl
  | cons hname _ ih =>
    refine (agree_define hname hnumber).bind fun labels₁ _ h => ?_
    rw [h]
    exact ih

/-- The case of letters makes no difference to a head. -/
theorem ofText?_eq_of_sameLetters {a b : String} (h : Text.SameLetters a b) :
    Head.ofText? a = Head.ofText? b := by
  refine Option.ext fun head => ?_
  rw [Head.ofText?_eq_some_iff, Head.ofText?_eq_some_iff, Text.SameLetters, h]
  rfl

theorem agree_statement? (h : SameLine r N line line') :
    Except.Agree (SameKind r N) (Option.Rel (SameStatement r N)) line.statement?
      line'.statement? := by
  obtain ⟨number, _, body⟩ := line
  obtain ⟨number', _, body'⟩ := line'
  obtain ⟨hnumber, -, hbody⟩ := h
  cases hbody with
  | nil => exact .ok .none
  | @cons t t' ts ts' hhead hoperands =>
    change Except.Agree _ _ ((Statement.ofTokens number t ts).map some)
      ((Statement.ofTokens number' t' ts').map some)
    unfold Statement.ofTokens
    rw [ofText?_eq_of_sameLetters hhead]
    cases Head.ofText? t'.text with
    | none => exact .error (.badStatement hnumber)
    | some head =>
      simp only [hoperands.length_eq]
      by_cases hlength : ts'.length = head.arity
      · simp only [hlength, if_true]
        exact .ok (.some ⟨hnumber, rfl, hoperands⟩)
      · simp only [hlength, if_false]
        exact .error (.badStatement hnumber)

/-- **The first pass goes the same way** on lines that correspond. -/
theorem agree_place (h : List.Forall₂ (SameLine r N) lines lines') :
    Except.Agree (SameKind r N) (SameLayout r N) (Layout.place address labels lines)
      (Layout.place address (r.table labels) lines') := by
  induction h generalizing address labels with
  | nil => exact .ok ⟨rfl, .nil, rfl⟩
  | cons hline _ ih =>
    rw [Layout.place, Layout.place]
    refine (agree_defineAll hline.labels hline.number).bind fun labels₁ _ hlabels => ?_
    rw [hlabels]
    refine (agree_statement? hline).bind fun s? s?' hs => ?_
    cases hs with
    | none => exact ih
    | some hs =>
      dsimp only
      rw [← hs.head]
      exact ih.bind fun layout layout' h => .ok ⟨h.labels, .cons hs h.statements, h.size⟩

/-! ### The second pass -/

theorem resolve_reference_eq {name : String} (ht : t.text = "@" ++ name) :
    resolve labels number t = match labels.lookup name with
      | some k => .ok (Int64.ofNat k)
      | none => .error (.undefinedLabel number name) := by
  have htext : t.text.toList = '@' :: name.toList := by simp [ht]
  cases h : labels.lookup name <;> simp [resolve, htext, h]

theorem resolve_numeral_eq (ht : ∀ name, t.text ≠ "@" ++ name) :
    resolve labels number t = match Numeral.word? t.text with
      | some w => .ok w
      | none =>
        .error (.malformedToken number t.column ("invalid integer `" ++ t.text ++ "`")) := by
  unfold resolve
  split
  · exact absurd (eq_reference_of_toList ‹_›) (ht _)
  · rfl

/-- **An operand has the same value** in a table with the new names. -/
theorem agree_resolve (ht : t'.text = r.operand t.text) (hnumber : N number number') :
    Except.Agree (SameKind r N) Eq (resolve labels number t)
      (resolve (r.table labels) number' t') := by
  obtain ⟨name, hname, hoperand⟩ | ⟨hno, hoperand⟩ := r.operand_cases t.text
  · rw [resolve_reference_eq hname, resolve_reference_eq (ht.trans hoperand),
      Renaming.lookup_table]
    cases labels.lookup name with
    | none => exact .error (.undefinedLabel hnumber)
    | some k => exact .ok rfl
  · rw [hoperand] at ht
    rw [resolve_numeral_eq hno, resolve_numeral_eq (ht ▸ hno), ht]
    cases Numeral.word? t.text with
    | none => exact .error (.malformedToken hnumber)
    | some w => exact .ok rfl

theorem agree_statement_emit (h : SameStatement r N s s') :
    Except.Agree (SameKind r N) Eq (s.emit labels) (s'.emit (r.table labels)) := by
  rw [Statement.emit, Statement.emit, h.head]
  refine (List.agree_mapM h.operands fun t t' ht => agree_resolve ht h.line).bind
    fun values values' hvalues => .ok ?_
  rw [List.forall₂_eq_eq_eq] at hvalues
  rw [hvalues]

/-- **The second pass goes the same way** on layouts that correspond. -/
theorem agree_emit (h : SameLayout r N layout layout') :
    Except.Agree (SameKind r N) Eq layout.emit layout'.emit := by
  rw [Layout.emit, Layout.emit, h.labels]
  refine (List.agree_mapM h.statements fun s s' hs => agree_statement_emit hs).bind
    fun words words' hwords => .ok ?_
  rw [List.forall₂_eq_eq_eq] at hwords
  rw [hwords]

/-- **Both passes go the same way** on lines that correspond: they put down the same words, or
they fail alike. -/
theorem agree_passes (h : List.Forall₂ (SameLine r N) lines lines') :
    Except.Agree (SameKind r N) Eq (Layout.place 0 [] lines >>= Layout.emit)
      (Layout.place 0 [] lines' >>= Layout.emit) :=
  (agree_place h).bind fun _ _ => agree_emit

/-! ### From the texts of tokens -/

/-- The lines of a text, as the texts of their tokens, are found between its line feeds. -/
theorem tokenLines_of_splitOn {source : String} {ls : List (List Char)} {last : List Char}
    (hpieces : source.toList.splitOn '\n' = ls ++ [last]) :
    tokenLines source = (ls ++ if last.isEmpty then [] else [last]).map
      fun line => (Text.chunks line).map String.ofList := by
  rw [tokenLines, Text.lines_of_splitOn hpieces, List.map_append, List.map_append, List.map_map]
  simp only [Function.comp_def, Text.chunks_dropReturn]

/-- **The text of a definition**: a colon with something in front of it. -/
def IsDefinition (text : String) : Prop := ∃ name, name ≠ "" ∧ text = name ++ ":"

theorem Label.ofToken?_eq_none_iff : Label.ofToken? t = none ↔ ¬IsDefinition t.text := by
  rw [Option.eq_none_iff_forall_ne_some, IsDefinition, not_exists]
  simp only [ne_eq, Label.ofToken?_eq_some_iff]
  constructor
  · rintro h name ⟨hname, htext⟩
    exact h ⟨name, t.column⟩ ⟨hname, htext, rfl⟩
  · rintro h l ⟨hname, htext, -⟩
    exact h l.name ⟨hname, htext⟩

/-- What is a definition in another case of letters is a definition. -/
theorem IsDefinition.of_sameLetters {text text' : String} (hdefinition : IsDefinition text')
    (h : Text.SameLetters text text') : IsDefinition text := by
  obtain ⟨name, hname, rfl⟩ := hdefinition
  rw [Text.SameLetters, String.toList_append, List.map_append] at h
  obtain ⟨front, last, hsplit, hfront, hlast⟩ := List.map_eq_append_iff.mp h
  obtain ⟨c, rfl, hc⟩ := List.map_eq_singleton_iff.mp hlast
  obtain rfl : c = ':' := Char.eq_of_toLower_eq hc (by decide)
  refine ⟨String.ofList front, fun hempty => ?_, ?_⟩
  · rw [String.ofList_eq_empty_iff] at hempty
    subst hempty
    exact hname (String.toList_eq_nil_iff.mp (List.map_eq_nil_iff.mp hfront.symm))
  · rw [← String.toList_inj, hsplit]
    simp

/-- **What may be done to a line**, token by token: a definition in front gets its new name, the
head of the statement another case of letters, and a reference among the operands its new
name. -/
inductive Rewrites (r : Renaming) : List String → List String → Prop
  | nothing : Rewrites r [] []
  | label {name : String} {tokens tokens' : List String} : name ≠ "" →
      Rewrites r tokens tokens' →
      Rewrites r ((name ++ ":") :: tokens) ((r.apply name ++ ":") :: tokens')
  | statement {head head' : String} {operands : List String} :
      ¬IsDefinition head → Text.SameLetters head head' →
      Rewrites r (head :: operands) (head' :: operands.map r.operand)

/-- **A line that was rewritten corresponds to the line that it was.** -/
theorem Rewrites.sameLine (h : Rewrites r (ts.map Token.text) (ts'.map Token.text))
    (hnumber : N number number') :
    SameLine r N (Line.ofTokens number ts) (Line.ofTokens number' ts') := by
  generalize htokens : ts.map Token.text = tokens at h
  generalize htokens' : ts'.map Token.text = tokens' at h
  induction h generalizing ts ts' with
  | nothing =>
    rw [List.map_eq_nil_iff.mp htokens, List.map_eq_nil_iff.mp htokens']
    exact ⟨hnumber, .nil, .nil⟩
  | @label name tokens tokens' hname _ ih =>
    obtain ⟨t, rest, rfl, ht, hrest⟩ := List.map_eq_cons_iff.mp htokens
    obtain ⟨t', rest', rfl, ht', hrest'⟩ := List.map_eq_cons_iff.mp htokens'
    have hlabel := Label.ofToken?_eq_some_iff (t := t) (l := ⟨_, _⟩).mpr ⟨hname, ht, rfl⟩
    have hlabel' := Label.ofToken?_eq_some_iff (t := t') (l := ⟨_, _⟩).mpr
      ⟨Renaming.apply_ne_empty hname, ht', rfl⟩
    have hline := ih hrest hrest'
    rw [Line.ofTokens_label hlabel, Line.ofTokens_label hlabel']
    exact ⟨hline.number, .cons rfl hline.labels, hline.body⟩
  | @statement head head' operands hdefinition hhead =>
    obtain ⟨t, rest, rfl, rfl, hrest⟩ := List.map_eq_cons_iff.mp htokens
    obtain ⟨t', rest', rfl, rfl, hrest'⟩ := List.map_eq_cons_iff.mp htokens'
    have hdefinition' : ¬IsDefinition t'.text := fun h => hdefinition (h.of_sameLetters hhead)
    rw [Line.ofTokens_body (Label.ofToken?_eq_none_iff.mpr hdefinition),
      Line.ofTokens_body (Label.ofToken?_eq_none_iff.mpr hdefinition')]
    refine ⟨hnumber, .nil, .cons hhead ?_⟩
    have hoperands : (rest.map fun t => r.operand t.text) = rest'.map Token.text := by
      rw [hrest', ← hrest, List.map_map]
      rfl
    rw [← List.forall₂_eq_eq_eq, List.forall₂_map_left_iff, List.forall₂_map_right_iff]
      at hoperands
    exact hoperands.imp fun t t' ht => ht.symm

end Assembly

end StackMachine
