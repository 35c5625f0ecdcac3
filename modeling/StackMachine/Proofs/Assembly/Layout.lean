import Mathlib.Algebra.GroupWithZero.Nat
import StackMachine.Assembly.Passes
import StackMachine.Proofs.Assembly.Statement

/-!
# Where the first pass puts things

The first pass is a walk through the lines, and `StackMachine.Assembly.Placed` has one
rule for each kind of line the walk may meet: one with a statement, which moves the
address on by the size of the statement, and one without, which does not. The size of a
statement is known from its head, so the address of a line is the number of words in
the lines before it, and everything the pass decides can be said with these numbers:

* `StackMachine.Assembly.LabelTable.exists_defineAll_iff`,
  `StackMachine.Assembly.exists_placed_cons_iff` – when it gets past a line;
* `StackMachine.Assembly.Placed.size_eq` – where the pass ends;
* `StackMachine.Assembly.Placed.lookup_eq_some_iff` – which labels it knows in the end,
  and with which addresses.

That a label is not defined twice is what makes the second of these an equivalence: a
definition never hides an earlier one.
-/

namespace StackMachine

namespace Assembly

/-- The number of words that a line takes up. -/
def Line.size (l : Line) : Nat :=
  match l.statement? with
  | .ok (some s) => s.head.size
  | _ => 0

theorem Line.size_of_blank {l : Line} (h : l.statement? = .ok none) : l.size = 0 := by
  rw [Line.size, h]

theorem Line.size_of_statement {l : Line} {s : Statement} (h : l.statement? = .ok (some s)) :
    l.size = s.head.size := by
  rw [Line.size, h]

/-! ### Labels -/

namespace LabelTable

variable {labels labels' : LabelTable} {line address k : Nat} {l : Label} {ls : List Label}
  {name : String}

theorem define_eq_ok_iff :
    labels.define line address l = .ok labels' ↔
      isLabelName l.name = true ∧ labels.lookup l.name = none ∧
        labels' = (l.name, address) :: labels := by
  unfold define
  cases hname : isLabelName l.name with
  | false => simp
  | true =>
    cases hl : labels.lookup l.name with
    | none => simp [eq_comm]
    | some k => simp

theorem defineAll_cons_eq_ok_iff :
    labels.defineAll line address (l :: ls) = .ok labels' ↔
      ∃ labels₁, labels.define line address l = .ok labels₁ ∧
        LabelTable.defineAll labels₁ line address ls = .ok labels' := by
  rw [defineAll, Except.bind_eq_ok_iff]

/-- **A definition adds one label** and takes none away. -/
theorem lookup_of_define (h : labels.define line address l = .ok labels') :
    labels'.lookup name = some k ↔ name = l.name ∧ k = address ∨ labels.lookup name = some k := by
  obtain ⟨-, hfresh, rfl⟩ := define_eq_ok_iff.mp h
  rw [List.lookup_cons]
  by_cases hname : name = l.name
  -- A name that was taken before would have been refused.
  · subst hname
    simp [hfresh, eq_comm]
  · have hne : (name == l.name) = false := beq_eq_false_iff_ne.mpr hname
    simp [hne, hname]

/-- Only names are defined. -/
theorem isLabelName_of_defineAll (h : labels.defineAll line address ls = .ok labels') :
    ∀ l ∈ ls, isLabelName l.name = true := by
  induction ls generalizing labels with
  | nil => simp
  | cons l ls ih =>
    obtain ⟨labels₁, hl, hls⟩ := defineAll_cons_eq_ok_iff.mp h
    exact List.forall_mem_cons.mpr ⟨(define_eq_ok_iff.mp hl).1, ih hls⟩

/-- **The definitions of a line add their labels**, all with one address. -/
theorem lookup_of_defineAll (h : labels.defineAll line address ls = .ok labels') :
    labels'.lookup name = some k ↔
      (∃ l ∈ ls, l.name = name) ∧ k = address ∨ labels.lookup name = some k := by
  -- On the definitions, with the table growing from one to the next.
  induction ls generalizing labels with
  | nil =>
    cases h
    simp
  | cons l ls ih =>
    obtain ⟨labels₁, hl, hls⟩ := defineAll_cons_eq_ok_iff.mp h
    have hex : (∃ m ∈ l :: ls, m.name = name) ↔ name = l.name ∨ ∃ m ∈ ls, m.name = name := by
      simp [eq_comm]
    rw [ih hls, lookup_of_define hl, hex]
    constructor
    · rintro (⟨hex, hk⟩ | ⟨hname, hk⟩ | hold)
      · exact Or.inl ⟨Or.inr hex, hk⟩
      · exact Or.inl ⟨Or.inl hname, hk⟩
      · exact Or.inr hold
    · rintro (⟨hname | hex, hk⟩ | hold)
      · exact Or.inr (Or.inl ⟨hname, hk⟩)
      · exact Or.inl ⟨hex, hk⟩
      · exact Or.inr (Or.inr hold)

/-- Names that are new to a table, each of them once. -/
def Fresh (labels : LabelTable) (names : List String) : Prop :=
  names.Nodup ∧ ∀ name ∈ names, labels.lookup name = none

theorem fresh_nil_iff {names : List String} : Fresh [] names ↔ names.Nodup :=
  and_iff_left fun _ _ => rfl

/-- The names after a new one are new to the table with that name in it. -/
theorem fresh_cons_iff {names : List String} :
    Fresh labels (name :: names) ↔
      labels.lookup name = none ∧ Fresh ((name, k) :: labels) names := by
  have hlookup : ∀ other, List.lookup other ((name, k) :: labels) = none ↔
      other ≠ name ∧ labels.lookup other = none := by
    intro other
    rw [List.lookup_cons]
    by_cases hother : other = name
    · simp [hother]
    · simp [beq_eq_false_iff_ne.mpr hother, hother]
  simp only [Fresh, List.nodup_cons, List.forall_mem_cons, hlookup]
  constructor
  · rintro ⟨⟨hmem, hnodup⟩, hname, hrest⟩
    exact ⟨hname, hnodup, fun other h => ⟨fun heq => hmem (heq ▸ h), hrest other h⟩⟩
  · rintro ⟨hname, hnodup, hrest⟩
    exact ⟨⟨fun hmem => (hrest name hmem).1 rfl, hnodup⟩, hname, fun other h => (hrest other h).2⟩

/-- **Labels can be defined** exactly when their names are new, and further names are new
to the table with them when they are new altogether. -/
theorem exists_defineAll_iff {names : List String} (line address : Nat)
    (hls : ∀ l ∈ ls, isLabelName l.name = true) :
    (∃ labels', labels.defineAll line address ls = .ok labels' ∧ Fresh labels' names) ↔
      Fresh labels (ls.map Label.name ++ names) := by
  induction ls generalizing labels with
  | nil =>
    constructor
    · rintro ⟨_, ⟨⟩, h⟩
      exact h
    · exact fun h => ⟨labels, rfl, h⟩
  | cons l ls ih =>
    obtain ⟨hl, hrest⟩ := List.forall_mem_cons.mp hls
    rw [List.map_cons, List.cons_append, fresh_cons_iff (k := address), ← ih hrest]
    constructor
    · rintro ⟨labels', hdef, hnames⟩
      obtain ⟨labels₁, hl₁, hls₁⟩ := defineAll_cons_eq_ok_iff.mp hdef
      obtain ⟨-, hfresh, rfl⟩ := define_eq_ok_iff.mp hl₁
      exact ⟨hfresh, labels', hls₁, hnames⟩
    · rintro ⟨hfresh, labels', hls₁, hnames⟩
      have hl₁ : labels.define line address l = .ok ((l.name, address) :: labels) :=
        define_eq_ok_iff.mpr ⟨hl, hfresh, rfl⟩
      exact ⟨labels', defineAll_cons_eq_ok_iff.mpr ⟨_, hl₁, hls₁⟩, hnames⟩

end LabelTable

/-- **A line defines the label**, and this is its address: the address of the first line
and the words of the lines in between. -/
def DefinedAt (name : String) (k address : Nat) (lines : List Line) : Prop :=
  ∃ before line after, lines = before ++ line :: after ∧ (∃ l ∈ line.labels, l.name = name) ∧
    k = address + (before.map Line.size).sum

section DefinedAt

variable {name : String} {k address : Nat} {line : Line} {rest : List Line}

@[simp] theorem not_definedAt_nil : ¬DefinedAt name k address [] := by
  rintro ⟨before, line, after, h, -⟩
  simp at h

/-- A label is defined on the first line or on one of the others. -/
theorem definedAt_cons_iff :
    DefinedAt name k address (line :: rest) ↔
      (∃ l ∈ line.labels, l.name = name) ∧ k = address ∨
        DefinedAt name k (address + line.size) rest := by
  constructor
  · rintro ⟨before, x, after, h, hl, hk⟩
    cases before with
    | nil =>
      cases h
      exact Or.inl ⟨hl, hk⟩
    | cons y before =>
      cases h
      refine Or.inr ⟨before, x, after, rfl, hl, ?_⟩
      rw [hk, List.map_cons, List.sum_cons, Nat.add_assoc]
  · rintro (⟨hl, hk⟩ | ⟨before, x, after, rfl, hl, hk⟩)
    · exact ⟨[], line, rest, rfl, hl, hk⟩
    · refine ⟨line :: before, x, after, rfl, hl, ?_⟩
      rw [hk, List.map_cons, List.sum_cons, Nat.add_assoc]

end DefinedAt

/-! ### The walk -/

/-- **The walk of the first pass** through lines, from an address on and with labels
defined before. -/
inductive Placed : Nat → LabelTable → List Line → Layout → Prop
  /-- There are no lines left. -/
  | nil {address : Nat} {labels : LabelTable} : Placed address labels [] ⟨labels, [], address⟩
  /-- A line without a statement. -/
  | blank {address : Nat} {labels labels' : LabelTable} {line : Line} {rest : List Line}
      {layout : Layout} : labels.defineAll line.number address line.labels = .ok labels' →
      line.statement? = .ok none → Placed address labels' rest layout →
      Placed address labels (line :: rest) layout
  /-- A line with a statement. -/
  | statement {address : Nat} {labels labels' : LabelTable} {line : Line} {rest : List Line}
      {s : Statement} {layout : Layout} :
      labels.defineAll line.number address line.labels = .ok labels' →
      line.statement? = .ok (some s) → Placed (address + s.head.size) labels' rest layout →
      Placed address labels (line :: rest) { layout with statements := s :: layout.statements }

variable {address k : Nat} {labels : LabelTable} {lines : List Line} {layout : Layout}
  {name : String}

theorem Layout.place_eq_ok_iff :
    Layout.place address labels lines = .ok layout ↔ Placed address labels lines layout := by
  constructor
  · intro h
    induction lines generalizing address labels layout with
    | nil =>
      cases h
      exact .nil
    | cons line rest ih =>
      rw [Layout.place, Except.bind_eq_ok_iff] at h
      obtain ⟨labels', hdef, h⟩ := h
      rw [Except.bind_eq_ok_iff] at h
      obtain ⟨s?, hs, h⟩ := h
      cases s? with
      | none => exact .blank hdef hs (ih h)
      | some s =>
        obtain ⟨layout', hrest, h⟩ := Except.bind_eq_ok_iff.mp h
        cases h
        exact .statement hdef hs (ih hrest)
  · intro h
    induction h with
    | nil => rfl
    | blank hdef hs _ ih =>
      rw [Layout.place, hdef, Except.bind_eq_ok_iff]
      exact ⟨_, rfl, Except.bind_eq_ok_iff.mpr ⟨_, hs, ih⟩⟩
    | statement hdef hs _ ih =>
      rw [Layout.place, hdef, Except.bind_eq_ok_iff]
      refine ⟨_, rfl, Except.bind_eq_ok_iff.mpr ⟨_, hs, ?_⟩⟩
      exact Except.bind_eq_ok_iff.mpr ⟨_, ih, rfl⟩

/-- The walk goes through a line when its labels can be defined and it goes on from there. -/
theorem exists_placed_cons_iff {line : Line} {rest : List Line} {st : Option Statement}
    (hst : line.statement? = .ok st) :
    (∃ layout, Placed address labels (line :: rest) layout) ↔
      ∃ labels', labels.defineAll line.number address line.labels = .ok labels' ∧
        ∃ layout, Placed (address + line.size) labels' rest layout := by
  constructor
  · rintro ⟨layout, h⟩
    cases h with
    | blank hdef hs hrest =>
      rw [← Nat.add_zero address, ← Line.size_of_blank hs] at hrest
      exact ⟨_, hdef, _, hrest⟩
    | statement hdef hs hrest =>
      rw [← Line.size_of_statement hs] at hrest
      exact ⟨_, hdef, _, hrest⟩
  · rintro ⟨labels', hdef, layout, hrest⟩
    cases st with
    | none =>
      rw [Line.size_of_blank hst] at hrest
      exact ⟨_, .blank hdef hst hrest⟩
    | some s =>
      rw [Line.size_of_statement hst] at hrest
      exact ⟨_, .statement hdef hst hrest⟩

namespace Placed

/-- The walk has read every line that it has gone through. -/
theorem line_ok (h : Placed address labels lines layout) {line : Line} (hline : line ∈ lines) :
    (∀ l ∈ line.labels, isLabelName l.name = true) ∧ ∃ st, line.statement? = .ok st := by
  induction h with
  | nil => cases hline
  | blank hdef hs _ ih | statement hdef hs _ ih =>
    rcases List.mem_cons.mp hline with rfl | hline
    · exact ⟨LabelTable.isLabelName_of_defineAll hdef, _, hs⟩
    · exact ih hline

/-- **The walk ends after all the words.** -/
theorem size_eq (h : Placed address labels lines layout) :
    layout.size = address + (lines.map Line.size).sum := by
  induction h with
  | nil => rfl
  | blank _ hs _ ih =>
    rw [ih, List.map_cons, List.sum_cons, Line.size_of_blank hs, Nat.zero_add]
  | @statement _ _ _ _ _ _ layout _ hs _ ih =>
    change layout.size = _
    rw [ih, List.map_cons, List.sum_cons, Line.size_of_statement hs, Nat.add_assoc]

/-- **A label is known in the end exactly when it was known before or a line defines
it.** -/
theorem lookup_eq_some_iff (h : Placed address labels lines layout) :
    layout.labels.lookup name = some k ↔
      labels.lookup name = some k ∨ DefinedAt name k address lines := by
  induction h with
  | nil => simp
  | blank hdef hs _ ih =>
    rw [ih, LabelTable.lookup_of_defineAll hdef, definedAt_cons_iff, Line.size_of_blank hs,
      Nat.add_zero, or_comm (a := _ ∧ _), or_assoc]
  | @statement _ _ _ _ _ _ layout hdef hs _ ih =>
    change layout.labels.lookup name = some k ↔ _
    rw [ih, LabelTable.lookup_of_defineAll hdef, definedAt_cons_iff, Line.size_of_statement hs,
      or_comm (a := _ ∧ _), or_assoc]

end Placed

end Assembly

end StackMachine
