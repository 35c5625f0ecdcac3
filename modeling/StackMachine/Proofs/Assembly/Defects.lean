import StackMachine.Proofs.Assembly.Grammar
import StackMachine.Proofs.Assembly.Layout
import StackMachine.Proofs.Text.Runs
import StackMachine.Proofs.Text.Spelling

/-!
# What is wrong with a source text

A source text can be wrong in many places at once, and the assembler names one of them. Which
one is said here without the two passes: the tokens of a text are looked at in a fixed order,
each of them in its **role**, and the first one with which something is wrong is named. The
order is

1. the **outline** – line by line, the definitions of labels from left to right and then the
   token that the statement begins with;
2. the **operands**, line by line.

| role       | what can be wrong                                                          |
|------------|----------------------------------------------------------------------------|
| definition | no name; a name that was defined before                                    |
| head       | no mnemonic and no directive; another number of operands than it asks for  |
| operand    | a reference to a name that is not defined; neither a reference nor a word  |

So what is wrong with a token depends on the definitions before it and on nothing else
(`StackMachine.Assembly.Wrong`), and since the outline comes first, the definitions before an
operand are all there are.

A computation *checks* some tokens when its failures are what is first wrong with them
(`StackMachine.Assembly.Checks`). Checks follow one another the way computations do, and both
passes are put together from the checks of single tokens.
-/

namespace StackMachine

namespace Assembly

/-! ### Lines taken apart -/

/-- The token that defines a label. -/
def Label.token (l : Label) : Token := ⟨l.name ++ ":", l.column⟩

/-- The tokens of a line that was taken apart, from left to right. -/
def Line.spots (l : Line) : List Spot :=
  (l.labels.map Label.token ++ l.body).map (⟨l.number, ·⟩)

/-- **A text is taken apart into lines**: they are numbered from one, they have the tokens of
the text in reading order, and as many tokens as there are in front define labels. -/
structure IsApart (source : String) (lines : List Line) : Prop where
  numbers : lines.map Line.number = List.range' 1 (Text.lines source.toList).length
  tokens : Spot.InReadingOrder source (lines.flatMap Line.spots)
  labels : ∀ l ∈ lines, ∀ d ∈ l.labels, d.name ≠ ""
  body : ∀ l ∈ lines, ∀ t ∈ l.body.head?, ∀ name, name ≠ "" → t.text ≠ name ++ ":"

section IsApart

variable {number : Nat} {tokens : List Token} {l : Line} {source : String}

theorem Line.spots_ofTokens : (Line.ofTokens number tokens).spots = tokens.map (⟨number, ·⟩) := by
  induction tokens with
  | nil => rfl
  | cons t rest ih =>
    cases ht : Label.ofToken? t with
    | none =>
      rw [Line.ofTokens_body ht]
      rfl
    | some d =>
      obtain ⟨-, htext, hcolumn⟩ := Label.ofToken?_eq_some_iff.mp ht
      have htoken : d.token = t := by
        rw [Label.token, ← htext, hcolumn]
      rw [Line.ofTokens_label ht, List.map_cons, ← ih, ← htoken]
      rfl

theorem Line.name_ne_empty_ofTokens :
    ∀ d ∈ (Line.ofTokens number tokens).labels, d.name ≠ "" := by
  induction tokens with
  | nil => simp [Line.ofTokens, Line.split]
  | cons t rest ih =>
    cases ht : Label.ofToken? t with
    | none => simp [Line.ofTokens_body ht]
    | some d =>
      rw [Line.ofTokens_label ht]
      exact List.forall_mem_cons.mpr ⟨(Label.ofToken?_eq_some_iff.mp ht).1, ih⟩

theorem Line.head_ne_definition_ofTokens :
    ∀ t ∈ (Line.ofTokens number tokens).body.head?, ∀ name, name ≠ "" → t.text ≠ name ++ ":" := by
  induction tokens with
  | nil => simp [Line.ofTokens, Line.split]
  | cons t rest ih =>
    cases ht : Label.ofToken? t with
    | none =>
      rw [Line.ofTokens_body ht]
      rintro t' ⟨⟩ name hname htext
      -- Then it would have been read as the definition of a label.
      rw [Label.ofToken?_eq_some_iff (l := ⟨name, t.column⟩) |>.mpr ⟨hname, htext, rfl⟩] at ht
      cases ht
    | some d =>
      rw [Line.ofTokens_label ht]
      exact ih

/-- **The lines of a source text are that text taken apart.** -/
theorem isApart_ofSource : IsApart source (Line.ofSource source) := by
  constructor
  · rw [Line.ofSource, List.map_map]
    exact List.zipIdx_map_snd 1 _
  · have hspots : (Line.ofSource source).flatMap Line.spots = Spot.ofSource source := by
      rw [Line.ofSource, List.flatMap_map]
      simp only [Line.spots_ofTokens]
      rfl
    rw [hspots]
    exact Spot.inReadingOrder_iff.mpr rfl
  · intro l hl
    obtain ⟨_, -, rfl⟩ := List.mem_map.mp hl
    exact Line.name_ne_empty_ofTokens
  · intro l hl
    obtain ⟨_, -, rfl⟩ := List.mem_map.mp hl
    exact Line.head_ne_definition_ofTokens

end IsApart

/-! ### Tokens in their roles -/

/-- What a token of a source text is there for. -/
inductive Role
  /-- It defines a label. -/
  | definition
  /-- It begins a statement, and this many tokens follow. -/
  | head (operands : Nat)
  /-- It is an operand. -/
  | operand
  deriving DecidableEq, Repr

/-- A token of a source text in its role. -/
structure Site extends Spot where
  role : Role
  deriving DecidableEq, Repr

/-- **A site defines a name**: the name with a colon behind it. -/
def Site.Defines (s : Site) (name : String) : Prop :=
  s.role = .definition ∧ s.token.text = name ++ ":"

instance (s : Site) (name : String) : Decidable (s.Defines name) :=
  inferInstanceAs (Decidable (_ ∧ _))

namespace Line

/-- The definitions of a line, from left to right. -/
def definitions (l : Line) : List Site := l.labels.map fun d => ⟨⟨l.number, d.token⟩, .definition⟩

/-- The token that the statement of a line begins with, if there is one. -/
def head (l : Line) : List Site :=
  match l.body with
  | [] => []
  | t :: rest => [⟨⟨l.number, t⟩, .head rest.length⟩]

/-- The definitions of a line and the head of its statement. -/
def outline (l : Line) : List Site := l.definitions ++ l.head

/-- The operands of a line. -/
def operands (l : Line) : List Site := l.body.tail.map fun t => ⟨⟨l.number, t⟩, .operand⟩

end Line

/-- The outlines of all lines of a source text. -/
def outline (source : String) : List Site := (Line.ofSource source).flatMap Line.outline

/-- The operands of all lines of a source text. -/
def operands (source : String) : List Site := (Line.ofSource source).flatMap Line.operands

/-! ### What can be wrong -/

/-- **What is wrong with a site** that comes after other sites, and how it is reported. -/
inductive Wrong (earlier : List Site) : Site → Error → Prop
  | name {line : Nat} {t : Token} {name : String} : t.text = name ++ ":" → ¬IsName name →
      Wrong earlier ⟨⟨line, t⟩, .definition⟩
        (.malformedToken line t.column ("invalid label name `" ++ name ++ "`"))
  | duplicate {line : Nat} {t : Token} {name : String} : t.text = name ++ ":" → IsName name →
      (∃ s ∈ earlier, s.Defines name) →
      Wrong earlier ⟨⟨line, t⟩, .definition⟩ (.duplicateLabel line name)
  | mnemonic {line count : Nat} {t : Token} : (∀ h : Head, ¬Text.SameLetters t.text h.name) →
      Wrong earlier ⟨⟨line, t⟩, .head count⟩
        (.badStatement line t.column ("invalid instruction name: " ++ t.text))
  | count {line count : Nat} {t : Token} {h : Head} : Text.SameLetters t.text h.name →
      count ≠ h.arity →
      Wrong earlier ⟨⟨line, t⟩, .head count⟩
        (.badStatement line t.column
          (h.name ++ " expects " ++ toString h.arity ++ " operand(s), got " ++ toString count))
  | undefined {line : Nat} {t : Token} {name : String} : t.text = "@" ++ name →
      (∀ s ∈ earlier, ¬s.Defines name) →
      Wrong earlier ⟨⟨line, t⟩, .operand⟩ (.undefinedLabel line name)
  | numeral {line : Nat} {t : Token} : (∀ name, t.text ≠ "@" ++ name) →
      (¬∃ z, Numeral.Spells t.text.toList z ∧ -2 ^ 63 ≤ z ∧ z ≤ 2 ^ 63 - 1) →
      Wrong earlier ⟨⟨line, t⟩, .operand⟩
        (.malformedToken line t.column ("invalid integer `" ++ t.text ++ "`"))

section Wrong

variable {earlier : List Site} {number count : Nat} {t : Token} {e : Error}

theorem wrong_definition_iff {l : Label} :
    Wrong earlier ⟨⟨number, l.token⟩, .definition⟩ e ↔
      ¬IsName l.name ∧
          e = .malformedToken number l.column ("invalid label name `" ++ l.name ++ "`") ∨
        IsName l.name ∧ (∃ s ∈ earlier, s.Defines l.name) ∧ e = .duplicateLabel number l.name := by
  have htext {name : String} (h : l.token.text = name ++ ":") : name = l.name :=
    ((String.append_left_inj ":").mp h).symm
  constructor
  · rintro (⟨heq, hname⟩ | ⟨heq, hname, hdefined⟩)
    · obtain rfl := htext heq
      exact Or.inl ⟨hname, rfl⟩
    · obtain rfl := htext heq
      exact Or.inr ⟨hname, hdefined, rfl⟩
  · rintro (⟨hname, rfl⟩ | ⟨hname, hdefined, rfl⟩)
    · exact .name rfl hname
    · exact .duplicate rfl hname hdefined

theorem wrong_head_iff :
    Wrong earlier ⟨⟨number, t⟩, .head count⟩ e ↔
      (∀ h : Head, ¬Text.SameLetters t.text h.name) ∧
          e = .badStatement number t.column ("invalid instruction name: " ++ t.text) ∨
        ∃ h : Head, Text.SameLetters t.text h.name ∧ count ≠ h.arity ∧
          e = .badStatement number t.column
            (h.name ++ " expects " ++ toString h.arity ++ " operand(s), got " ++
              toString count) := by
  constructor
  · rintro (_ | _ | hno | ⟨hname, hcount⟩)
    · exact Or.inl ⟨hno, rfl⟩
    · exact Or.inr ⟨_, hname, hcount, rfl⟩
  · rintro (⟨hno, rfl⟩ | ⟨h, hname, hcount, rfl⟩)
    · exact .mnemonic hno
    · exact .count hname hcount

/-- What can be wrong with a reference. -/
theorem wrong_reference_iff {name : String} (htext : t.text = "@" ++ name) :
    Wrong earlier ⟨⟨number, t⟩, .operand⟩ e ↔
      (∀ s ∈ earlier, ¬s.Defines name) ∧ e = .undefinedLabel number name := by
  constructor
  · rintro (_ | _ | _ | _ | ⟨htext', hno⟩ | ⟨hno, -⟩)
    · rw [htext, String.append_right_inj] at htext'
      exact ⟨htext' ▸ hno, by rw [htext']⟩
    · exact absurd htext (hno name)
  · rintro ⟨hno, rfl⟩
    exact .undefined htext hno

/-- What can be wrong with another operand. -/
theorem wrong_numeral_iff (htext : ∀ name, t.text ≠ "@" ++ name) :
    Wrong earlier ⟨⟨number, t⟩, .operand⟩ e ↔
      (¬∃ z, Numeral.Spells t.text.toList z ∧ -2 ^ 63 ≤ z ∧ z ≤ 2 ^ 63 - 1) ∧
        e = .malformedToken number t.column ("invalid integer `" ++ t.text ++ "`") := by
  constructor
  · rintro (_ | _ | _ | _ | ⟨htext', -⟩ | ⟨-, hno⟩)
    · exact absurd htext' (htext _)
    · exact ⟨hno, rfl⟩
  · rintro ⟨hno, rfl⟩
    exact .numeral htext hno

end Wrong

/-- Nothing is wrong with sites that come after other sites. -/
def Clean (earlier sites : List Site) : Prop :=
  ∀ before s after, sites = before ++ s :: after → ∀ e, ¬Wrong (earlier ++ before) s e

/-- **What is wrong first** with sites that come after other sites. -/
def FirstWrong (earlier sites : List Site) (e : Error) : Prop :=
  ∃ before s after, sites = before ++ s :: after ∧ Clean earlier before ∧
    Wrong (earlier ++ before) s e

section FirstWrong

variable {earlier sites sites' : List Site} {s : Site} {e : Error}

theorem clean_nil : Clean earlier [] := by
  rintro before s after h
  simp at h

theorem clean_cons_iff :
    Clean earlier (s :: sites) ↔ (∀ e, ¬Wrong earlier s e) ∧ Clean (earlier ++ [s]) sites := by
  constructor
  · intro h
    refine ⟨fun e => ?_, fun before s' after hsites e => ?_⟩
    · simpa using h [] s sites rfl e
    · have hs' := h (s :: before) s' after (by rw [hsites]; rfl) e
      rwa [List.append_assoc]
  · rintro ⟨hs, hrest⟩ (_ | ⟨s', before⟩) s'' after h e
    · cases h
      simpa using hs e
    · cases h
      have hs'' := hrest before s'' after rfl e
      rwa [List.append_assoc] at hs''

theorem not_firstWrong_nil : ¬FirstWrong earlier [] e := by
  rintro ⟨before, s, after, h, -⟩
  simp at h

theorem firstWrong_cons_iff :
    FirstWrong earlier (s :: sites) e ↔
      Wrong earlier s e ∨ (∀ e, ¬Wrong earlier s e) ∧ FirstWrong (earlier ++ [s]) sites e := by
  constructor
  · rintro ⟨_ | ⟨s', before⟩, s'', after, h, hbefore, hs⟩
    · cases h
      rw [List.append_nil] at hs
      exact Or.inl hs
    · cases h
      obtain ⟨hclean, hrest⟩ := clean_cons_iff.mp hbefore
      refine Or.inr ⟨hclean, before, s'', after, rfl, hrest, ?_⟩
      rwa [List.append_assoc]
  · rintro (h | ⟨hclean, before, s', after, rfl, hrest, hs⟩)
    · exact ⟨[], s, sites, rfl, clean_nil, by rwa [List.append_nil]⟩
    · refine ⟨s :: before, s', after, rfl, clean_cons_iff.mpr ⟨hclean, hrest⟩, ?_⟩
      rwa [List.append_assoc] at hs

/-- Nothing is wrong exactly when nothing is wrong first. -/
theorem clean_iff : Clean earlier sites ↔ ∀ e, ¬FirstWrong earlier sites e := by
  induction sites generalizing earlier with
  | nil => exact iff_of_true clean_nil fun _ => not_firstWrong_nil
  | cons s sites ih =>
    rw [clean_cons_iff, ih]
    simp only [firstWrong_cons_iff, not_or, not_and]
    constructor
    · exact fun h e => ⟨h.1 e, fun _ => h.2 e⟩
    · exact fun h => ⟨fun e => (h e).1, fun e => (h e).2 fun e' => (h e').1⟩

/-- **What is wrong with sites and with others after them.** -/
theorem firstWrong_append_iff :
    FirstWrong earlier (sites ++ sites') e ↔
      FirstWrong earlier sites e ∨
        Clean earlier sites ∧ FirstWrong (earlier ++ sites) sites' e := by
  induction sites generalizing earlier with
  | nil => simp [not_firstWrong_nil, clean_nil]
  | cons s sites ih =>
    rw [List.cons_append, firstWrong_cons_iff, firstWrong_cons_iff, clean_cons_iff, ih,
      List.append_assoc, List.singleton_append]
    tauto

/-- **A name is defined once** by sites with which nothing is wrong. -/
theorem Clean.filter_defines {name : String} (h : Clean [] sites) {first second : Site}
    {rest : List Site} : sites.filter (·.Defines name) ≠ first :: second :: rest := by
  intro hfilter
  obtain ⟨before, after, rfl, -, hfirst, hafter⟩ := List.filter_eq_cons_iff.mp hfilter
  obtain ⟨between, last, rfl, -, hsecond, -⟩ := List.filter_eq_cons_iff.mp hafter
  obtain ⟨⟨line, t⟩, role⟩ := second
  obtain ⟨rfl, htext⟩ := of_decide_eq_true hsecond
  have hclean := h (before ++ first :: between) ⟨⟨line, t⟩, .definition⟩ last (by simp)
  rw [List.nil_append] at hclean
  by_cases hname : IsName name
  · exact hclean _ (.duplicate htext hname ⟨first, by simp, of_decide_eq_true hfirst⟩)
  · exact hclean _ (.name htext hname)

end FirstWrong

/-! ### Checks -/

/-- **A computation checks sites** that come after other sites: it fails exactly with what is
first wrong with them. -/
def Checks {α : Type} (earlier sites : List Site) (x : Except Error α) : Prop :=
  ∀ e, x = .error e ↔ FirstWrong earlier sites e

namespace Checks

variable {α β : Type} {earlier sites sites' : List Site} {s : Site} {x : Except Error α}
  {f : α → Except Error β}

/-- What does not fail checks nothing. -/
theorem ok (a : α) : Checks earlier [] (.ok a : Except Error α) :=
  fun _ => iff_of_false (by rintro ⟨⟩) not_firstWrong_nil

/-- The check of a single site. -/
theorem single (h : ∀ e, x = .error e ↔ Wrong earlier s e) : Checks earlier [s] x := by
  intro e
  rw [h, firstWrong_cons_iff, or_iff_left]
  exact fun h => not_firstWrong_nil h.2

/-- A check that succeeds has found nothing wrong. -/
theorem clean (h : Checks earlier sites x) : Clean earlier sites ↔ ∃ a, x = .ok a := by
  rw [clean_iff]
  simp only [← h _]
  cases x with
  | error e => simp
  | ok a => simp

/-- **Checks follow one another.** -/
theorem bind (hx : Checks earlier sites x)
    (hf : ∀ a, x = .ok a → Checks (earlier ++ sites) sites' (f a)) :
    Checks earlier (sites ++ sites') (x >>= f) := by
  intro e
  rw [Except.bind_eq_error_iff, firstWrong_append_iff, hx.clean, hx e]
  refine or_congr_right ?_
  constructor
  · rintro ⟨a, ha, he⟩
    exact ⟨⟨a, ha⟩, (hf a ha e).mp he⟩
  · rintro ⟨⟨a, ha⟩, he⟩
    exact ⟨a, ha, (hf a ha e).mpr he⟩

/-- What is done with the value of a check, and does not fail, checks nothing more. -/
theorem bind_ok (hx : Checks earlier sites x) (g : α → β) :
    Checks earlier sites (x >>= fun a => .ok (g a)) := by
  rw [← List.append_nil sites]
  exact hx.bind fun a _ => ok (g a)

end Checks

end Assembly

end StackMachine
