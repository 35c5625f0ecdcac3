import StackMachine.Proofs.Assembly.Defects
import StackMachine.Proofs.Assembly.Meaning

/-!
# What the assembler finds

The assembler names what is first wrong with a source text
(`StackMachine.Assembly.firstFinding`). Each step of the two passes is the check of one token,
or puts checks together, and what the steps hand on is the table of labels: it knows the
names that the tokens checked so far define (`StackMachine.Assembly.Known`), and that is all
that the check of a token has to know of the tokens before it.

A statement is checked twice, its head by the first pass and its operands by the second one,
so the second pass goes through the lines again, and this time nothing is defined.
-/

namespace StackMachine

namespace Assembly

variable {earlier sites : List Site} {labels labels' : LabelTable} {address number : Nat}
  {line : Line} {lines : List Line} {layout : Layout} {name source : String} {t : Token}
  {e : Error}

/-! ### The names that are known -/

/-- **A table knows the names that sites define**, and no others. -/
def Known (labels : LabelTable) (sites : List Site) : Prop :=
  ∀ name, (∃ k, labels.lookup name = some k) ↔ ∃ s ∈ sites, s.Defines name

theorem known_nil : Known [] [] := by simp [Known]

theorem defines_definition_iff {l : Label} :
    Site.Defines ⟨⟨number, l.token⟩, .definition⟩ name ↔ name = l.name := by
  rw [Site.Defines, Label.token, String.append_left_inj, and_iff_right rfl, eq_comm]

theorem Known.define {l : Label} (h : Known labels earlier)
    (hl : labels.define number address l = .ok labels') :
    Known labels' (earlier ++ [⟨⟨number, l.token⟩, .definition⟩]) := by
  intro name
  simp only [LabelTable.lookup_of_define hl, List.mem_append, List.mem_singleton, or_and_right,
    exists_or, exists_eq_left, exists_and_left, exists_eq, and_true, h name,
    defines_definition_iff]
  exact or_comm

/-- Sites that define nothing make no name known. -/
theorem Known.append (h : Known labels earlier) (hsites : ∀ s ∈ sites, ¬∃ name, s.Defines name) :
    Known labels (earlier ++ sites) := by
  intro name
  rw [h name]
  constructor
  · rintro ⟨s, hs, hname⟩
    exact ⟨s, List.mem_append_left _ hs, hname⟩
  · rintro ⟨s, hs, hname⟩
    rcases List.mem_append.mp hs with hs | hs
    · exact ⟨s, hs, hname⟩
    · exact absurd ⟨name, hname⟩ (hsites s hs)

theorem not_defines_head : ∀ s ∈ line.head, ¬∃ name, s.Defines name := by
  rw [Line.head]
  split <;> simp [Site.Defines]

theorem not_defines_operands (ts : List Token) :
    ∀ s ∈ ts.map fun t => (⟨⟨number, t⟩, .operand⟩ : Site), ¬∃ name, s.Defines name := by
  simp [Site.Defines]

/-! ### The first pass -/

/-- **A definition is checked**: its name, and then whether it was defined before. -/
theorem checks_define {l : Label} (h : Known labels earlier) :
    Checks earlier [⟨⟨number, l.token⟩, .definition⟩] (labels.define number address l) := by
  refine .single fun e => ?_
  rw [wrong_definition_iff, ← isLabelName_iff, ← h l.name, ← Option.isSome_iff_exists,
    LabelTable.define]
  cases isLabelName l.name with
  | false => simp [eq_comm (a := e)]
  | true => cases labels.lookup l.name <;> simp [eq_comm (a := e)]

theorem checks_defineAll {ls : List Label} (h : Known labels earlier) :
    Checks earlier (ls.map fun l => ⟨⟨number, l.token⟩, .definition⟩)
      (labels.defineAll number address ls) := by
  induction ls generalizing earlier labels with
  | nil => exact .ok labels
  | cons l ls ih => exact (checks_define h).bind fun labels₁ hl => ih (h.define hl)

theorem Known.defineAll {ls : List Label} (h : Known labels earlier)
    (hls : labels.defineAll number address ls = .ok labels') :
    Known labels' (earlier ++ ls.map fun l => ⟨⟨number, l.token⟩, .definition⟩) := by
  induction ls generalizing earlier labels with
  | nil =>
    cases hls
    simpa using h
  | cons l ls ih =>
    obtain ⟨labels₁, hl, hls⟩ := LabelTable.defineAll_cons_eq_ok_iff.mp hls
    rw [List.map_cons, List.append_cons]
    exact ih (h.define hl) hls

theorem message_unknownMnemonic (text : String) :
    (Error.unknownMnemonic text).message = "invalid instruction name: " ++ text := rfl

theorem message_operandCount (text : String) (expected actual : Nat) :
    (Error.operandCount text expected actual).message =
      text ++ " expects " ++ toString expected ++ " operand(s), got " ++ toString actual := rfl

/-- **The head of a statement is checked**: its name, and then the number of operands. -/
theorem checks_statement? : Checks earlier line.head line.statement? := by
  obtain ⟨number, names, _ | ⟨t, rest⟩⟩ := line
  · exact .ok none
  · refine .single fun e => ?_
    change (Statement.ofTokens number t rest).map some = .error e ↔ _
    rw [Except.map_eq_error_iff, wrong_head_iff, Statement.ofTokens, message_unknownMnemonic]
    simp only [← Head.ofText?_eq_some_iff, message_operandCount]
    cases Head.ofText? t.text with
    | none => simp [eq_comm (a := e)]
    | some h =>
      by_cases hcount : rest.length = h.arity
      · simp [hcount]
      · simp [hcount, eq_comm (a := e)]

/-- The first pass, from a line on. -/
theorem checks_place (h : Known labels earlier) :
    Checks earlier (lines.flatMap Line.outline) (Layout.place address labels lines) := by
  -- On the lines, with the table and the sites that it knows the names of growing together.
  induction lines generalizing earlier labels address with
  | nil => exact .ok _
  | cons line rest ih =>
    rw [List.flatMap_cons, Line.outline, List.append_assoc]
    refine (checks_defineAll h).bind fun labels' hdef => checks_statement?.bind fun s? hs => ?_
    have hknown : Known labels' (earlier ++ line.definitions ++ line.head) :=
      (h.defineAll hdef).append not_defines_head
    cases s? with
    | none => exact ih hknown
    | some s => exact (ih hknown).bind_ok _

/-- **The first pass knows the names that the outline defines.** -/
theorem Placed.known (hp : Placed address labels lines layout) (h : Known labels earlier) :
    Known layout.labels (earlier ++ lines.flatMap Line.outline) := by
  induction hp generalizing earlier with
  | nil => simpa using h
  | blank hdef hs _ ih | statement hdef hs _ ih =>
    rw [List.flatMap_cons, Line.outline, ← List.append_assoc, ← List.append_assoc]
    exact ih ((h.defineAll hdef).append not_defines_head)

/-! ### The second pass -/

/-- **An operand is checked**: whether the name that it refers to is defined, or else whether
it is the numeral of a word. -/
theorem checks_resolve (h : Known labels earlier) :
    Checks earlier [⟨⟨number, t⟩, .operand⟩] (resolve labels number t) := by
  refine .single fun e => ?_
  unfold resolve
  split
  case h_1 cs hcs =>
    have htext := eq_reference_of_toList hcs
    have hnew : (∀ s ∈ earlier, ¬s.Defines (String.ofList cs)) ↔
        ¬∃ k, labels.lookup (String.ofList cs) = some k := by
      rw [h]
      simp
    rw [wrong_reference_iff htext, hnew]
    cases labels.lookup (String.ofList cs) <;> simp [eq_comm (a := e)]
  case h_2 hcs =>
    have htext (name : String) : t.text ≠ "@" ++ name := by
      intro heq
      rw [heq, String.toList_append] at hcs
      exact hcs _ rfl
    rw [wrong_numeral_iff htext, ← Numeral.word?_eq_none_iff]
    cases Numeral.word? t.text <;> simp [eq_comm (a := e)]

theorem checks_operands {ts : List Token} (h : Known labels earlier) :
    Checks earlier (ts.map fun t => ⟨⟨number, t⟩, .operand⟩) (ts.mapM (resolve labels number)) := by
  induction ts generalizing earlier with
  | nil => exact .ok []
  | cons t ts ih =>
    rw [List.mapM_cons]
    exact (checks_resolve h).bind fun w _ =>
      (ih (h.append (not_defines_operands [t]))).bind_ok _

/-- A line without a statement has no operands. -/
theorem Line.operands_of_blank (h : line.statement? = .ok none) : line.operands = [] := by
  obtain ⟨number, names, _ | ⟨t, rest⟩⟩ := line
  · rfl
  · obtain ⟨_, _, _, ⟨⟩⟩ := Line.statement?_eq_ok_iff.mp h

/-- The operands of a statement are those of its line. -/
theorem Line.operands_of_statement {s : Statement} (h : line.statement? = .ok (some s)) :
    line.operands = s.operands.map fun t => ⟨⟨s.line, t⟩, .operand⟩ := by
  obtain ⟨number, names, _ | ⟨t, rest⟩⟩ := line
  · cases h
  · obtain ⟨_, _, _, ⟨⟩⟩ := Line.statement?_eq_ok_iff.mp h
    rfl

/-- The second pass, from a line on that the first pass has read. -/
theorem Placed.checks_emit (hp : Placed address labels lines layout) {table : LabelTable}
    (h : Known table earlier) :
    Checks earlier (lines.flatMap Line.operands)
      (layout.statements.mapM (Statement.emit table)) := by
  -- On the walk of the first pass; now the sites grow, and the table stays as it is.
  induction hp generalizing earlier with
  | nil => exact .ok []
  | blank _ hs _ ih =>
    rw [List.flatMap_cons, Line.operands_of_blank hs]
    exact ih h
  | statement _ hs _ ih =>
    rw [List.flatMap_cons, Line.operands_of_statement hs, List.mapM_cons, Statement.emit]
    exact ((checks_operands h).bind_ok _).bind fun words _ =>
      (ih (h.append (not_defines_operands _))).bind_ok _

/-! ### Both passes -/

/-- **Both passes**: all the outlines are checked before any operand is. -/
theorem checks_assemble : Checks [] (outline source ++ operands source) (assemble source) := by
  refine (checks_place known_nil).bind fun layout hlayout => ?_
  have hp := Layout.place_eq_ok_iff.mp hlayout
  have hknown := hp.known known_nil
  exact (hp.checks_emit hknown).bind_ok _

/-- **What the assembler finds in a source text** is what is first wrong with it: the first
thing with the outline, or, when nothing is wrong with that, the first thing with the
operands.

So a name that is defined twice is reported at its second definition, a name that is defined
anywhere is never reported as undefined, and what is wrong with an operand never hides what is
wrong with the outline, on later lines either. -/
structure FirstFinding (source : String) : Prop where
  apart : IsApart source (Line.ofSource source)
  rejected : ∀ e, assemble source = .error e ↔
    FirstWrong [] (outline source) e ∨
      Clean [] (outline source) ∧ FirstWrong (outline source) (operands source) e
  duplicate : ∀ line name, assemble source = .error (.duplicateLabel line name) →
    ∃ first second rest,
      (outline source).filter (·.Defines name) = first :: second :: rest ∧ second.line = line
  undefined : ∀ line name, assemble source = .error (.undefinedLabel line name) →
    ∀ s ∈ outline source, ¬s.Defines name
  outline_first : ¬Clean [] (outline source) →
    ∃ e, FirstWrong [] (outline source) e ∧ assemble source = .error e

theorem assemble_eq_error_iff :
    assemble source = .error e ↔
      FirstWrong [] (outline source) e ∨
        Clean [] (outline source) ∧ FirstWrong (outline source) (operands source) e := by
  rw [checks_assemble e, firstWrong_append_iff, List.nil_append]

/-- The sites of an outline are no operands. -/
theorem role_ne_operand_of_mem_outline : ∀ s ∈ outline source, s.role ≠ .operand := by
  intro s hs
  obtain ⟨line, -, hs⟩ := List.mem_flatMap.mp hs
  rcases List.mem_append.mp hs with hs | hs
  · obtain ⟨_, -, rfl⟩ := List.mem_map.mp hs
    rintro ⟨⟩
  · rw [Line.head] at hs
    split at hs
    · cases hs
    · obtain rfl := List.mem_singleton.mp hs
      rintro ⟨⟩

/-- The sites of operands are operands. -/
theorem role_eq_operand_of_mem_operands : ∀ s ∈ operands source, s.role = .operand := by
  intro s hs
  obtain ⟨line, -, hs⟩ := List.mem_flatMap.mp hs
  obtain ⟨_, -, rfl⟩ := List.mem_map.mp hs
  rfl

/-- **A name that is reported to be defined twice** is reported on the line of its second
definition. -/
theorem line_of_duplicateLabel (h : assemble source = .error (.duplicateLabel number name)) :
    ∃ first second rest,
      (outline source).filter (·.Defines name) = first :: second :: rest ∧
        second.line = number := by
  rcases assemble_eq_error_iff.mp h with ⟨before, s, after, hsites, hclean, hwrong⟩ |
    ⟨-, before, s, after, hsites, -, hwrong⟩
  · rw [List.nil_append] at hwrong
    cases hwrong with
    | @duplicate _ t _ htext _ hdefined =>
      have hs : decide (Site.Defines ⟨⟨number, t⟩, .definition⟩ name) = true :=
        decide_eq_true ⟨rfl, htext⟩
      obtain ⟨s', hs', hdefines⟩ := hdefined
      simp only [hsites, List.filter_append, List.filter_cons, hs, if_true]
      -- Before the definition that is reported there is one, and no more than one.
      rcases hfilter : before.filter (·.Defines name) with _ | ⟨first, _ | ⟨second, rest⟩⟩
      · have hmem : s' ∈ before.filter (·.Defines name) :=
          List.mem_filter.mpr ⟨hs', decide_eq_true hdefines⟩
        rw [hfilter] at hmem
        cases hmem
      · rw [hfilter]
        exact ⟨first, ⟨⟨number, t⟩, .definition⟩, _, rfl, rfl⟩
      · exact absurd hfilter hclean.filter_defines
  · have hmem : s ∈ operands source := by simp [hsites]
    have hrole := role_eq_operand_of_mem_operands s hmem
    cases hwrong
    cases hrole

/-- **A name that is reported as undefined** is defined nowhere. -/
theorem not_defines_of_undefinedLabel
    (h : assemble source = .error (.undefinedLabel number name)) :
    ∀ s ∈ outline source, ¬s.Defines name := by
  rcases assemble_eq_error_iff.mp h with ⟨before, s, after, hsites, -, hwrong⟩ |
    ⟨-, before, s, after, -, -, hwrong⟩
  · have hmem : s ∈ outline source := by simp [hsites]
    have hrole := role_ne_operand_of_mem_outline s hmem
    cases hwrong
    exact absurd rfl hrole
  · cases hwrong with
    | undefined _ hno => exact fun s hs => hno s (List.mem_append_left _ hs)

/-- **The assembler finds what is first wrong.** -/
theorem firstFinding (source : String) : FirstFinding source where
  apart := isApart_ofSource
  rejected _ := assemble_eq_error_iff
  duplicate _ _ := line_of_duplicateLabel
  undefined _ _ := not_defines_of_undefinedLabel
  outline_first h := by
    rw [clean_iff, not_forall_not] at h
    obtain ⟨e, he⟩ := h
    exact ⟨e, he, assemble_eq_error_iff.mpr (Or.inl he)⟩

-- Three things are wrong here, and the operand comes last.
example : assemble "PUSH 1x\nstart: POP 1\nstart:" =
    .error (.badStatement 2 8 "POP expects 0 operand(s), got 1") := by rfl

end Assembly

end StackMachine
