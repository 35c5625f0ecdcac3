import Mathlib.Data.List.Nodup
import StackMachine.Proofs.Assembly.Meaning
import StackMachine.Proofs.Text.Lines

/-!
# Linking

Two source texts with different labels may be put together, and so may their programs: the
first program stays as it is, and of the second one every word that was written as a
reference is **relocated**, increased by the number of words of the first. No other word
depends on where the program is.

What happens to the text at the place where the two meet is no more than an empty line. A
text that ends with a line feed, or has no characters at all, gets an empty last line by
another line feed, and a carriage return that has been the last character becomes a part
of the ending; neither makes a token.

* `StackMachine.Assembly.exists_tokenLines_append` – the lines, put together;
* `StackMachine.Assembly.MeansBy.append` – what they mean, put together;
* `StackMachine.Assembly.links_of_assemble` – **the program of two texts is the first
  program and the second one relocated**.
-/

namespace StackMachine

namespace Assembly

variable {lines lines₁ lines₂ : List (List String)} {ss ss₁ ss₂ all : List Sentence}
  {parts : List (List Word)} {words words₁ words₂ : List Word} {s : Sentence}
  {name text : String} {k : Nat} {w : Word} {line : Line}

/-- **The lines of two texts with a line feed between them** are those of the one and of the
other, with an empty line between them at most. -/
theorem exists_tokenLines_append (s₁ s₂ : String) :
    ∃ n, tokenLines (s₁ ++ "\n" ++ s₂) =
      tokenLines s₁ ++ List.replicate n [] ++ tokenLines s₂ := by
  obtain ⟨ls, last, hpieces⟩ := Text.exists_splitOn_eq_concat s₁.toList
  have hjoined : (s₁ ++ "\n" ++ s₂).toList = s₁.toList ++ '\n' :: s₂.toList := by simp
  simp only [tokenLines]
  rw [hjoined, Text.lines_append_newline hpieces, Text.lines_of_splitOn hpieces]
  cases last with
  | nil => exact ⟨1, by simp [Text.chunks_dropReturn]; rfl⟩
  | cons c cs => exact ⟨0, by simp [Text.chunks_dropReturn]⟩

/-! ### Relocation -/

/-- An operand is written as a reference. -/
def isReference (text : String) : Bool := text.toList.head? == some '@'

/-- Which of the words of a statement are references; the opcode is none. -/
def Head.references (h : Head) (operands : List String) : List Bool :=
  h.opcodes.map (fun _ => false) ++ operands.map isReference

/-- Which of the words of a line are references. -/
def Line.references (l : Line) : List Bool :=
  match l.statement? with
  | .ok (some s) => s.head.references (s.operands.map Token.text)
  | _ => []

/-- **Which of the words of a source text are references**, in order. -/
def references (source : String) : List Bool := (Line.ofSource source).flatMap Line.references

/-- The names of the labels that a source text defines. -/
def labelNames (source : String) : List String :=
  (Line.ofSource source).flatMap fun l => l.labels.map Label.name

/-- A word in a program that is `k` words further on. -/
def relocateWord (k : Nat) (reference : Bool) (w : Word) : Word :=
  if reference then w + Int64.ofNat k else w

/-- **The words of a program that is `k` words further on**: the references are increased,
and all other words are as they were. -/
def relocate (k : Nat) (references : List Bool) (words : List Word) : List Word :=
  List.zipWith (relocateWord k) references words

theorem relocate_append {r r' : List Bool} {words words' : List Word}
    (h : r.length = words.length) :
    relocate k (r ++ r') (words ++ words') = relocate k r words ++ relocate k r' words' :=
  List.zipWith_append h

/-- Opcodes are not relocated. -/
theorem relocate_opcodes (words : List Word) :
    relocate k (words.map fun _ => false) words = words := by
  induction words with
  | nil => rfl
  | cons w words ih => exact congrArg (w :: ·) ih

/-! ### Sentences in a longer text -/

/-- Which of the words that a sentence is worth are references. -/
def Sentence.references (s : Sentence) : List Bool :=
  match s.statement with
  | none => []
  | some (h, operands) => h.references operands

theorem Line.Reads.references_eq (h : line.Reads s) : line.references = s.references := by
  obtain ⟨-, -, st, hst, hs⟩ := h
  rw [Line.references, hst, Sentence.references, hs]
  cases st <;> rfl

/-- **Addresses in a longer text**: names of its first part stand for what they did, and
names of its second part come after the words of the first. -/
theorem standsFor_append_iff :
    StandsFor (ss₁ ++ ss₂) name k ↔ StandsFor ss₁ name k ∨
      ∃ k', StandsFor ss₂ name k' ∧ k = (ss₁.map Sentence.size).sum + k' := by
  induction ss₁ generalizing k with
  | nil => simp [not_standsFor_nil]
  | cons s ss₁ ih =>
    rw [List.cons_append, standsFor_cons_iff, standsFor_cons_iff, List.map_cons, List.sum_cons]
    constructor
    · rintro (⟨hname, rfl⟩ | ⟨j, hj, rfl⟩)
      · exact Or.inl (Or.inl ⟨hname, rfl⟩)
      · rcases ih.mp hj with hj | ⟨k', hk', rfl⟩
        · exact Or.inl (Or.inr ⟨j, hj, rfl⟩)
        · exact Or.inr ⟨k', hk', (Nat.add_assoc _ _ _).symm⟩
    · rintro ((⟨hname, rfl⟩ | ⟨j, hj, rfl⟩) | ⟨k', hk', rfl⟩)
      · exact Or.inl ⟨hname, rfl⟩
      · exact Or.inr ⟨j, ih.mpr (Or.inl hj), rfl⟩
      · exact Or.inr ⟨_, ih.mpr (Or.inr ⟨k', hk', rfl⟩), Nat.add_assoc _ _ _⟩

/-- **A name stands for an address in the text or at its end.** -/
theorem StandsFor.le_size (h : StandsFor all name k) : k ≤ (all.map Sentence.size).sum := by
  obtain ⟨before, s, after, rfl, -, rfl⟩ := h
  rw [List.map_append, List.sum_append]
  exact Nat.le_add_right _ _

theorem isReference_of_numeral (hw : Numeral.word? text = some w) : isReference text = false := by
  rw [isReference, beq_eq_false_iff_ne]
  intro hat
  obtain ⟨cs, hcs⟩ := List.head?_eq_some_iff.mp hat
  rw [word?_of_reference hcs] at hw
  cases hw

theorem isReference_append (name : String) : isReference ("@" ++ name) = true := by
  simp [isReference]

/-- An operand of the first part has the value that it had. -/
theorem Value.append_right (h : Value ss₁ text w) : Value (ss₁ ++ ss₂) text w := by
  cases h with
  | reference hk => exact .reference (standsFor_append_iff.mpr (Or.inl hk))
  | numeral hw => exact .numeral hw

/-- **An operand of the second part is relocated** if it is a reference, and has the value
that it had otherwise. -/
theorem Value.append_left (h : Value ss₂ text w) : Value (ss₁ ++ ss₂) text
    (relocateWord (ss₁.map Sentence.size).sum (isReference text) w) := by
  cases h with
  | @reference name k hk =>
    rw [isReference_append, relocateWord, if_pos rfl, ← Int64.ofNat_add, Nat.add_comm]
    exact .reference (standsFor_append_iff.mpr (Or.inr ⟨k, hk, rfl⟩))
  | numeral hw =>
    rw [isReference_of_numeral hw, relocateWord, if_neg Bool.false_ne_true]
    exact .numeral hw

/-- A word that is a reference is an address in the text. -/
def IsAddress (all : List Sentence) (reference : Bool) (w : Word) : Prop :=
  reference = true → ∃ k ≤ (all.map Sentence.size).sum, w = Int64.ofNat k

theorem Value.isAddress (h : Value all text w) : IsAddress all (isReference text) w := by
  intro href
  cases h with
  | @reference name k hk => exact ⟨k, hk.le_size, rfl⟩
  | numeral hw =>
    rw [isReference_of_numeral hw] at href
    cases href

/-- A sentence of the first part is worth what it was. -/
theorem Worth.append_right (h : Worth ss₁ s words) : Worth (ss₁ ++ ss₂) s words := by
  cases h with
  | nothing => exact .nothing
  | statement hvalues => exact .statement (hvalues.imp fun _ _ => Value.append_right)

/-- Operands of the second part are relocated one by one. -/
theorem Value.forall₂_append_left {operands : List String}
    (h : List.Forall₂ (Value ss₂) operands words) : List.Forall₂ (Value (ss₁ ++ ss₂)) operands
      (relocate (ss₁.map Sentence.size).sum (operands.map isReference) words) := by
  induction h with
  | nil => exact .nil
  | cons hvalue _ ih => exact .cons hvalue.append_left ih

/-- **A sentence of the second part is worth what it was, relocated.** -/
theorem Worth.append_left (h : Worth ss₂ s words) : Worth (ss₁ ++ ss₂) s
    (relocate (ss₁.map Sentence.size).sum s.references words) := by
  cases h with
  | nothing => exact .nothing
  | @statement names h operands values hvalues =>
    have hreferences : Sentence.references ⟨names, some (h, operands)⟩ =
        (h.opcodes.map fun _ => false) ++ operands.map isReference := rfl
    rw [hreferences, relocate_append (List.length_map _), relocate_opcodes]
    exact .statement (Value.forall₂_append_left hvalues)

/-- **The words of a sentence that are references are addresses.** -/
theorem Worth.isAddress (h : Worth all s words) :
    List.Forall₂ (IsAddress all) s.references words := by
  cases h with
  | nothing => exact .nil
  | @statement names h operands values hvalues =>
    have hopcodes : List.Forall₂ (IsAddress all) (h.opcodes.map fun _ => false) h.opcodes := by
      rw [List.forall₂_map_left_iff, List.forall₂_same]
      rintro w - ⟨⟩
    refine List.rel_append hopcodes ?_
    rw [List.forall₂_map_left_iff]
    exact hvalues.imp fun _ _ => Value.isAddress

/-- **The sentences of the second part are worth what they were, relocated.** -/
theorem exists_relocated (ss₁ : List Sentence) (h : List.Forall₂ (Worth ss₂) ss parts) :
    ∃ parts', List.Forall₂ (Worth (ss₁ ++ ss₂)) ss parts' ∧ parts'.flatten =
      relocate (ss₁.map Sentence.size).sum (ss.flatMap Sentence.references) parts.flatten := by
  induction h with
  | nil => exact ⟨[], .nil, rfl⟩
  | cons hworth _ ih =>
    obtain ⟨parts', hparts', hwords⟩ := ih
    refine ⟨_ :: parts', .cons hworth.append_left hparts', ?_⟩
    rw [List.flatten_cons, hwords, List.flatMap_cons, List.flatten_cons,
      relocate_append hworth.isAddress.length_eq]

/-! ### Putting texts together -/

/-- A line that says a sentence has the operands that the head asks for. -/
theorem Says.length_operands {tokens operands : List String} {h : Head} (hs : Says tokens s)
    (hst : s.statement = some (h, operands)) : operands.length = h.arity := by
  induction hs with
  | nothing => cases hst
  | label _ _ ih => exact ih hst
  | statement _ hlength =>
    cases hst
    exact hlength

theorem Worth.length_eq {tokens : List String} (hs : Says tokens s) (h : Worth all s words) :
    words.length = s.size := by
  cases h with
  | nothing => rfl
  | statement hvalues =>
    rw [List.length_append, ← hvalues.length_eq, hs.length_operands rfl]
    exact (Head.size_eq _).symm

theorem length_flatten (hsaid : List.Forall₂ Says lines ss)
    (hparts : List.Forall₂ (Worth all) ss parts) :
    parts.flatten.length = (ss.map Sentence.size).sum := by
  induction hparts generalizing lines with
  | nil => rfl
  | cons hworth _ ih =>
    obtain _ | ⟨hline, hrest⟩ := hsaid
    rw [List.flatten_cons, List.length_append, hworth.length_eq hline, ih hrest, List.map_cons,
      List.sum_cons]

/-- **A text means as many words as its sentences are worth.** -/
theorem MeansBy.length_eq (h : MeansBy lines ss words) :
    words.length = (ss.map Sentence.size).sum := by
  obtain ⟨hsaid, -, parts, hparts, rfl⟩ := h
  exact length_flatten hsaid hparts

theorem MeansBy.isAddress (h : MeansBy lines ss words) :
    List.Forall₂ (IsAddress ss) (ss.flatMap Sentence.references) words := by
  obtain ⟨-, -, parts, hparts, rfl⟩ := h
  rw [List.flatMap_def]
  exact List.rel_flatten (List.forall₂_map_left_iff.mpr (hparts.imp fun _ _ => Worth.isAddress))

theorem definedNames_append : definedNames (ss₁ ++ ss₂) = definedNames ss₁ ++ definedNames ss₂ :=
  List.flatMap_append

/-- **What two texts mean, put together**: what the first one means, and what the second one
means, relocated. -/
theorem MeansBy.append (h₁ : MeansBy lines₁ ss₁ words₁) (h₂ : MeansBy lines₂ ss₂ words₂)
    (hdisjoint : (definedNames ss₁).Disjoint (definedNames ss₂)) :
    MeansBy (lines₁ ++ lines₂) (ss₁ ++ ss₂)
      (words₁ ++ relocate words₁.length (ss₂.flatMap Sentence.references) words₂) := by
  rw [h₁.length_eq]
  obtain ⟨hsaid₁, hnodup₁, parts₁, hparts₁, rfl⟩ := h₁
  obtain ⟨hsaid₂, hnodup₂, parts₂, hparts₂, rfl⟩ := h₂
  refine ⟨List.rel_append hsaid₁ hsaid₂, ?_, ?_⟩
  · rw [definedNames_append]
    exact hnodup₁.append hnodup₂ hdisjoint
  · obtain ⟨parts, hparts, hwords⟩ := exists_relocated ss₁ hparts₂
    refine ⟨parts₁ ++ parts, ?_, ?_⟩
    · exact List.rel_append (hparts₁.imp fun _ _ => Worth.append_right) hparts
    · rw [List.flatten_append, hwords]

/-- **Empty lines at the end make no difference.** -/
theorem MeansBy.append_blank (h : MeansBy lines ss words) (n : Nat) :
    ∃ ss', definedNames ss' = definedNames ss ∧
      MeansBy (lines ++ List.replicate n []) ss' words := by
  have hnames : definedNames (List.replicate n ⟨[], none⟩) = [] := by simp [definedNames]
  have hblank : MeansBy (List.replicate n []) (List.replicate n ⟨[], none⟩) [] := by
    refine ⟨List.forall₂_replicate n .nothing, ?_, List.replicate n [], ?_, by simp⟩
    · rw [hnames]
      exact List.nodup_nil
    · exact List.forall₂_replicate n .nothing
  have hboth := h.append hblank (by simp [hnames])
  rw [relocate, List.zipWith_nil_right, List.append_nil] at hboth
  exact ⟨_, by rw [definedNames_append, hnames, List.append_nil], hboth⟩

/-! ### Programs -/

/-- **Two source texts link**: put together, with a line feed between them, they assemble to
the first program and the second one relocated. -/
structure Links (s₁ s₂ : String) (p₁ p₂ : Program) : Prop where
  /-- The program of the two texts. -/
  program : assemble (s₁ ++ "\n" ++ s₂) =
    .ok (Program.ofList (p₁.toList ++ relocate p₁.size (references s₂) p₂.toList))
  /-- Every word of the second program is a reference or not. -/
  length : (references s₂).length = p₂.size
  /-- The value of a reference is increased by the number of words of the first program, as
  long as the two fit into the range of words. -/
  increased : ∀ j w, (references s₂)[j]? = some true → p₂.get? j = some w →
    p₁.size + p₂.size ≤ Int64.maxValue.toInt →
      (relocateWord p₁.size true w).toInt = w.toInt + p₁.size

theorem labelNames_eq {source : String} (h : List.Forall₂ Says (tokenLines source) ss) :
    labelNames source = definedNames ss :=
  List.flatMap_eq_of_forall₂ (forall₂_reads_iff.mp h) fun _ _ hline => hline.labels.symm

theorem references_eq {source : String} (h : List.Forall₂ Says (tokenLines source) ss) :
    references source = ss.flatMap Sentence.references :=
  List.flatMap_eq_of_forall₂ (forall₂_reads_iff.mp h) fun _ _ hline => hline.references_eq

/-- **Source texts with different labels link.** -/
theorem links_of_assemble {s₁ s₂ : String} {p₁ p₂ : Program} (h₁ : assemble s₁ = .ok p₁)
    (h₂ : assemble s₂ = .ok p₂) (hdisjoint : (labelNames s₁).Disjoint (labelNames s₂)) :
    Links s₁ s₂ p₁ p₂ := by
  obtain ⟨ss₁, hm₁⟩ := assemble_eq_ok_iff.mp h₁
  obtain ⟨ss₂, hm₂⟩ := assemble_eq_ok_iff.mp h₂
  rw [labelNames_eq hm₁.sentences, labelNames_eq hm₂.sentences] at hdisjoint
  obtain ⟨n, hlines⟩ := exists_tokenLines_append s₁ s₂
  obtain ⟨ss₁', hnames, hm₁'⟩ := hm₁.append_blank n
  have hboth := hm₁'.append hm₂ (hnames ▸ hdisjoint)
  have haddress := hm₂.isAddress
  rw [← references_eq hm₂.sentences] at hboth haddress
  refine ⟨?_, haddress.length_eq.trans p₂.length_toList, fun j w hj hw hsize => ?_⟩
  · rw [assemble_eq_ok_iff, hlines, Program.toList_ofList, ← p₁.length_toList]
    exact ⟨_, hboth⟩
  · rw [← p₂.getElem?_toList] at hw
    obtain ⟨_, haddress, hj⟩ := haddress.exists_getElem? hj
    obtain rfl := Option.some.inj (hw.symm.trans hj)
    obtain ⟨k, hk, rfl⟩ := haddress rfl
    rw [← hm₂.length_eq, p₂.length_toList] at hk
    have hmax : Int64.maxValue.toInt = 9223372036854775807 := rfl
    rw [relocateWord, if_pos rfl, ← Int64.ofNat_add, Int64.toInt_ofNat_of_lt (by omega),
      Int64.toInt_ofNat_of_lt (by omega), Int.natCast_add]

/-- Texts that end in a comment and in a label, with references among their words and a
number that is none. -/
theorem links_of_assemble_comment_and_label :
    assemble "a: PUSH @a # back" = .ok (Program.ofList [257, 0]) ∧
      assemble "PUSH 7\nJMP\n.word @b\nb:" = .ok (Program.ofList [257, 7, 1041, 4]) ∧
      (labelNames "a: PUSH @a # back").Disjoint (labelNames "PUSH 7\nJMP\n.word @b\nb:") ∧
      Links "a: PUSH @a # back" "PUSH 7\nJMP\n.word @b\nb:" (Program.ofList [257, 0])
        (Program.ofList [257, 7, 1041, 4]) := by
  have h₁ : assemble "a: PUSH @a # back" = .ok (Program.ofList [257, 0]) := by rfl
  have h₂ : assemble "PUSH 7\nJMP\n.word @b\nb:" = .ok (Program.ofList [257, 7, 1041, 4]) := by
    rfl
  have hdisjoint :
      (labelNames "a: PUSH @a # back").Disjoint (labelNames "PUSH 7\nJMP\n.word @b\nb:") := by
    have hnames₁ : labelNames "a: PUSH @a # back" = ["a"] := by rfl
    have hnames₂ : labelNames "PUSH 7\nJMP\n.word @b\nb:" = ["b"] := by rfl
    rw [hnames₁, hnames₂]
    simp
  exact ⟨h₁, h₂, hdisjoint, links_of_assemble h₁ h₂ hdisjoint⟩

end Assembly

end StackMachine
