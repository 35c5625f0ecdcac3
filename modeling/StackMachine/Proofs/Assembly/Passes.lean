import StackMachine.Proofs.Assembly.Layout
import StackMachine.Proofs.Program.Basic

/-!
# The two passes agree

The first pass counts words that it does not have yet, and the second pass puts words
down without counting them. `StackMachine.Assembly.Emitted` is the second pass line by
line: the words that the lines become, when the labels have the addresses that the
first pass gave them. Cut at any line, the words of a program are the words of the lines
before and those of the line and of what follows, and the first of these two parts is as
long as the first pass had counted. What is claimed of the passes is read off this.

* `StackMachine.Assembly.Placed.emit_eq_ok_iff` – the second pass, line by line;
* `StackMachine.Assembly.PassesAgree` – what the addresses mean in the program.
-/

namespace StackMachine

namespace Assembly

variable {labels : LabelTable} {lines before after : List Line} {line : Line} {s : Statement}
  {words : List Word}

/-! ### The second pass, line by line -/

/-- The words that a line becomes; a line without a statement becomes none. -/
def Line.emit (labels : LabelTable) (l : Line) : Except Error (List Word) := do
  match ← l.statement? with
  | none => return []
  | some s => s.emit labels

theorem Line.emit_of_blank (h : line.statement? = .ok none) : line.emit labels = .ok [] := by
  rw [Line.emit, h]
  rfl

theorem Line.emit_of_statement (h : line.statement? = .ok (some s)) :
    line.emit labels = s.emit labels := by
  rw [Line.emit, h]
  rfl

/-- **A line becomes as many words as the first pass has counted.** -/
theorem Line.length_emit (h : line.emit labels = .ok words) : words.length = line.size := by
  cases hs : line.statement? with
  | error e =>
    rw [Line.emit, hs] at h
    cases h
  | ok s? =>
    cases s? with
    | none =>
      rw [Line.emit_of_blank hs] at h
      cases h
      exact (Line.size_of_blank hs).symm
    | some s =>
      rw [Line.emit_of_statement hs] at h
      rw [Line.size_of_statement hs]
      exact Statement.length_emit (Line.length_operands hs) h

/-- **The lines become the words**, one line after the other. -/
def Emitted (labels : LabelTable) : List Line → List Word → Prop
  | [], words => words = []
  | line :: rest, words =>
    ∃ first others, line.emit labels = .ok first ∧ Emitted labels rest others ∧
      words = first ++ others

namespace Emitted

/-- **The words are cut where the lines are cut.** -/
theorem append_iff :
    Emitted labels (before ++ after) words ↔
      ∃ earlier later, Emitted labels before earlier ∧ Emitted labels after later ∧
        words = earlier ++ later := by
  induction before generalizing words with
  | nil =>
    constructor
    · exact fun h => ⟨[], words, rfl, h, rfl⟩
    · rintro ⟨_, later, rfl, h, rfl⟩
      exact h
  | cons line before ih =>
    constructor
    · rintro ⟨first, others, hfirst, hothers, rfl⟩
      obtain ⟨earlier, later, hearlier, hlater, rfl⟩ := ih.mp hothers
      exact ⟨first ++ earlier, later, ⟨first, earlier, hfirst, hearlier, rfl⟩, hlater,
        (List.append_assoc _ _ _).symm⟩
    · rintro ⟨_, later, ⟨first, earlier, hfirst, hearlier, rfl⟩, hlater, rfl⟩
      exact ⟨first, earlier ++ later, hfirst, ih.mpr ⟨earlier, later, hearlier, hlater, rfl⟩,
        List.append_assoc _ _ _⟩

theorem length_eq (h : Emitted labels lines words) :
    words.length = (lines.map Line.size).sum := by
  induction lines generalizing words with
  | nil =>
    rw [show words = [] from h]
    rfl
  | cons line rest ih =>
    obtain ⟨first, others, hfirst, hothers, rfl⟩ := h
    rw [List.length_append, Line.length_emit hfirst, ih hothers, List.map_cons, List.sum_cons]

/-- Lines without statements become no words. -/
theorem eq_nil_of_blank (h : Emitted labels lines words)
    (hblank : ∀ l ∈ lines, l.statement? = .ok none) : words = [] := by
  induction lines generalizing words with
  | nil => exact h
  | cons line rest ih =>
    obtain ⟨first, others, hfirst, hothers, rfl⟩ := h
    rw [Line.emit_of_blank (hblank line (by simp))] at hfirst
    cases hfirst
    exact ih hothers fun l hl => hblank l (by simp [hl])

end Emitted

/-- The statements of a layout become the words that the lines become, whatever
addresses the labels have. -/
theorem Placed.mapM_emit_iff {address : Nat} {labels' : LabelTable} {layout : Layout}
    (h : Placed address labels' lines layout) :
    (∃ parts, layout.statements.mapM (Statement.emit labels) = .ok parts ∧
      words = parts.flatten) ↔ Emitted labels lines words := by
  induction h generalizing words with
  | nil =>
    constructor
    · rintro ⟨parts, hparts, rfl⟩
      rw [List.mapM_nil_eq_ok_iff.mp hparts]
      rfl
    · intro h
      exact ⟨[], rfl, h⟩
  | blank _ hs _ ih =>
    -- The line is no statement of the layout, and becomes no words.
    rw [ih]
    constructor
    · exact fun h => ⟨[], words, Line.emit_of_blank hs, h, rfl⟩
    · rintro ⟨first, others, hfirst, hothers, rfl⟩
      rw [Line.emit_of_blank hs] at hfirst
      cases hfirst
      exact hothers
  | statement _ hs _ ih =>
    constructor
    · rintro ⟨parts, hparts, rfl⟩
      obtain ⟨first, others, hfirst, hothers, rfl⟩ := List.mapM_cons_eq_ok_iff.mp hparts
      refine ⟨first, others.flatten, ?_, ih.mp ⟨others, hothers, rfl⟩, List.flatten_cons⟩
      rw [Line.emit_of_statement hs, hfirst]
    · rintro ⟨first, others, hfirst, hothers, rfl⟩
      obtain ⟨parts, hparts, rfl⟩ := ih.mpr hothers
      rw [Line.emit_of_statement hs] at hfirst
      exact ⟨first :: parts, List.mapM_cons_eq_ok_iff.mpr ⟨first, parts, hfirst, hparts, rfl⟩,
        List.flatten_cons.symm⟩

/-- **The second pass is the second pass line by line.** -/
theorem Placed.emit_eq_ok_iff {address : Nat} {layout : Layout} {p : Program}
    (h : Placed address labels lines layout) :
    layout.emit = .ok p ↔ Emitted layout.labels lines p.toList := by
  rw [← h.mapM_emit_iff, Layout.emit, Except.bind_eq_ok_iff]
  refine exists_congr fun parts => and_congr_right fun _ => ?_
  rw [eq_comm (a := p.toList), ← Program.ofList_eq_iff]
  exact ⟨fun hp => by cases hp; rfl, fun hp => by rw [← hp]; rfl⟩

/-! ### What the addresses mean -/

/-- **An address marks the place between two parts of the source** in the program: it is
the number of words that the lines of the first part became, and the address of the
first word of the first statement of the second part, or the end of the program when
there is none. -/
structure Marks (labels : LabelTable) (p : Program) (before after : List Line)
    (address : Nat) : Prop where
  /-- The words of the lines before. -/
  counted : ∃ earlier later, Emitted labels before earlier ∧ Emitted labels after later ∧
    p.toList = earlier ++ later ∧ earlier.length = address
  /-- The word at the address. -/
  first : ∀ skipped line rest s, after = skipped ++ line :: rest →
    (∀ l ∈ skipped, l.statement? = .ok none) → line.statement? = .ok (some s) →
    ∃ w ws, s.emit labels = .ok (w :: ws) ∧ p.get? address = some w
  /-- No statement follows. -/
  atEnd : (∀ l ∈ after, l.statement? = .ok none) → address = p.size

/-- **The passes agree on every address** in a source text with these lines. -/
structure PassesAgree (lines : List Line) (layout : Layout) (p : Program) : Prop where
  /-- The first pass ends where the program ends. -/
  size : layout.size = p.size
  /-- A label has the address of its definition. -/
  label : ∀ before line after, lines = before ++ line :: after → ∀ l ∈ line.labels,
    ∃ address, layout.labels.lookup l.name = some address ∧
      Marks layout.labels p before (line :: after) address
  /-- A reference becomes the address of the label, at the place of the operand. -/
  reference : ∀ before line after s, lines = before ++ line :: after →
    line.statement? = .ok (some s) → ∀ (j : Nat) (t : Token) (name : List Char),
    s.operands[j]? = some t → t.text.toList = '@' :: name →
    ∃ address start, layout.labels.lookup (String.ofList name) = some address ∧
      DefinedAt (String.ofList name) address 0 lines ∧
      Marks layout.labels p before (line :: after) start ∧
      p.get? (start + s.head.opcodes.length + j) = some (Int64.ofNat address) ∧
      (p.size ≤ Int64.maxValue.toInt → (Int64.ofNat address).toInt = address)

/-- **Any cut of the source is marked by the number of words before it.** -/
theorem Emitted.marks {p : Program} (h : Emitted labels (before ++ after) p.toList) :
    Marks labels p before after (before.map Line.size).sum := by
  obtain ⟨earlier, later, hearlier, hlater, hp⟩ := append_iff.mp h
  rw [← hearlier.length_eq]
  refine ⟨⟨earlier, later, hearlier, hlater, hp, rfl⟩, ?_, ?_⟩
  · rintro skipped line rest s rfl hskipped hs
    obtain ⟨blank, others, hblank, hothers, rfl⟩ := append_iff.mp hlater
    obtain ⟨first, others, hfirst, -, rfl⟩ := hothers
    have hlen : first.length = s.head.size := by
      rw [Line.length_emit hfirst, Line.size_of_statement hs]
    have hpos := s.head.size_pos
    rw [Line.emit_of_statement hs] at hfirst
    -- A statement has a word at least, and no word comes before it.
    obtain ⟨w, ws, rfl⟩ := List.exists_cons_of_length_pos (hlen ▸ hpos)
    refine ⟨w, ws, hfirst, ?_⟩
    rw [← p.getElem?_toList, hp, hblank.eq_nil_of_blank hskipped]
    simp
  · intro hblank
    rw [← p.length_toList, hp, hlater.eq_nil_of_blank hblank, List.append_nil]

/-- A reference that has a value names a label, and the value is its address. -/
theorem resolve_reference {number : Nat} {t : Token} {name : List Char} {w : Word}
    (ht : t.text.toList = '@' :: name) (h : resolve labels number t = .ok w) :
    ∃ address, labels.lookup (String.ofList name) = some address ∧ w = Int64.ofNat address := by
  simp only [resolve, ht] at h
  cases ha : labels.lookup (String.ofList name) with
  | none =>
    rw [ha] at h
    cases h
  | some address =>
    rw [ha] at h
    cases h
    exact ⟨address, rfl, rfl⟩

/-- **The value of an operand is where the operand stands**: behind the words before the
line, the opcode and the operands before. -/
theorem Emitted.operand {p : Program} (h : Emitted labels (before ++ line :: after) p.toList)
    (hs : line.statement? = .ok (some s)) {j : Nat} {t : Token} (ht : s.operands[j]? = some t) :
    ∃ w, resolve labels s.line t = .ok w ∧
      p.get? ((before.map Line.size).sum + s.head.opcodes.length + j) = some w := by
  obtain ⟨earlier, later, hearlier, hlater, hp⟩ := append_iff.mp h
  obtain ⟨first, others, hfirst, -, rfl⟩ := hlater
  rw [Line.emit_of_statement hs] at hfirst
  obtain ⟨values, hvalues, rfl⟩ := Statement.emit_eq_ok_iff.mp hfirst
  obtain ⟨w, hw, hj⟩ := (List.mapM_eq_ok_iff.mp hvalues).exists_getElem? ht
  have hlt : j < values.length := (List.getElem?_eq_some_iff.mp hj).1
  refine ⟨w, hw, ?_⟩
  rw [← hearlier.length_eq, ← p.getElem?_toList, hp, Nat.add_assoc,
    List.getElem?_append_right (Nat.le_add_right _ _), Nat.add_sub_cancel_left,
    List.append_assoc, List.getElem?_append_right (Nat.le_add_right _ _),
    Nat.add_sub_cancel_left, List.getElem?_append_left hlt, hj]

/-- **The address of a label lies in the program or at its end.** -/
theorem DefinedAt.le_size {name : String} {address : Nat} {p : Program}
    (h : DefinedAt name address 0 lines) (hp : Emitted labels lines p.toList) :
    address ≤ p.size := by
  obtain ⟨before, line, after, rfl, -, rfl⟩ := h
  rw [← p.length_toList, hp.length_eq, List.map_append, List.sum_append, Nat.zero_add]
  exact Nat.le_add_right _ _

/-- **The two passes agree**, on every source text that is accepted. -/
theorem passesAgree_of_assemble {source : String} {p : Program} (h : assemble source = .ok p) :
    ∃ layout, Layout.ofSource source = .ok layout ∧ layout.emit = .ok p ∧
      PassesAgree (Line.ofSource source) layout p := by
  obtain ⟨layout, hlayout, hemit⟩ := Except.bind_eq_ok_iff.mp h
  have hplaced : Placed 0 [] (Line.ofSource source) layout := Layout.place_eq_ok_iff.mp hlayout
  have hwords := hplaced.emit_eq_ok_iff.mp hemit
  have hlookup : ∀ name k, layout.labels.lookup name = some k ↔
      DefinedAt name k 0 (Line.ofSource source) := by
    intro name k
    rw [hplaced.lookup_eq_some_iff]
    simp
  -- From here on nothing depends on how the lines came about.
  generalize Line.ofSource source = lines at *
  refine ⟨layout, hlayout, hemit, ?_, ?_, ?_⟩
  · rw [hplaced.size_eq, ← p.length_toList, hwords.length_eq, Nat.zero_add]
  · rintro before line after rfl l hl
    refine ⟨_, (hlookup _ _).mpr ⟨before, line, after, rfl, ⟨l, hl, rfl⟩, rfl⟩, ?_⟩
    rw [Nat.zero_add]
    exact hwords.marks
  · rintro before line after s rfl hs j t name hj ht
    obtain ⟨w, hw, hget⟩ := hwords.operand hs hj
    obtain ⟨address, haddress, rfl⟩ := resolve_reference ht hw
    have hdefined := (hlookup _ _).mp haddress
    refine ⟨address, _, haddress, hdefined, hwords.marks, hget, fun hsize => ?_⟩
    have hle := hdefined.le_size hwords
    have hmax : Int64.maxValue.toInt = 9223372036854775807 := rfl
    exact Int64.toInt_ofNat_of_lt (by omega)

/-- Two labels on a line of their own, a reference ahead with a comment behind it, a
reference back in a raw word, and a label at the end. -/
theorem passesAgree_of_assemble_forward_and_back :
    assemble "a: b:\nPUSH @c # ahead\n.word @a\nc:" = .ok (Program.ofList [257, 3, 0]) ∧
      ∃ layout, Layout.ofSource "a: b:\nPUSH @c # ahead\n.word @a\nc:" = .ok layout ∧
        layout.emit = .ok (Program.ofList [257, 3, 0]) ∧
        PassesAgree (Line.ofSource "a: b:\nPUSH @c # ahead\n.word @a\nc:") layout
          (Program.ofList [257, 3, 0]) := by
  have h : assemble "a: b:\nPUSH @c # ahead\n.word @a\nc:" =
      .ok (Program.ofList [257, 3, 0]) := by rfl
  exact ⟨h, passesAgree_of_assemble h⟩

end Assembly

end StackMachine
