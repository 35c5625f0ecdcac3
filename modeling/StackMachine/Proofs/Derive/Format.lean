import Mathlib.Data.List.Forall2
import StackMachine.Proofs.Derive.Placeholder
import StackMachine.Text.Basic

/-!
# What a message refers to

The grammar of the messages that a formatter understands, with what they refer to. A message is
text in which braces come in pairs, and placeholders. A placeholder refers to one argument, and
when it has a layout, this may refer to others for its width and its precision:

| part        | spelled                                                    | refers to             |
|-------------|------------------------------------------------------------|-----------------------|
| placeholder | `{`, argument, then `:` and layout if any, blanks, `}`     | what its parts do     |
| argument    | nothing, digits, or a name                                 | itself                |
| layout      | fill, sign, `#`, `0`, width, precision, kind, all optional | what its parts do     |
| fill        | `<`, `^` or `>`, and any character before it               | nothing               |
| width       | digits, or an argument and `$`                             | the argument, if any  |
| precision   | `.` and a width, or `.*`                                   | as the width, or next |

An argument that is not spelled is the **next** one: the first placeholder without one gets the
first argument, and so on (`StackMachine.Derive.Uses`). The grammar is the one that formatters
document, with a little more room than they leave: letters beyond ASCII are not told apart, and
kinds are not looked up.

Renaming the positional placeholders of a message keeps it a message, and does to its references
what it does to their digits (`StackMachine.Derive.Format.renamed`). What was no message is none
afterwards (`StackMachine.Derive.Format.of_renamed`).
-/

namespace StackMachine

namespace Derive

/-- **A reference** to an argument. -/
inductive Reference
  /-- The argument behind the one that was referred to like this before. -/
  | next
  /-- The argument with `n` others before it. -/
  | position (n : Nat)
  /-- The argument of a name. -/
  | name (letters : List Char)
  deriving DecidableEq, Repr

namespace Format

/-! ### The grammar -/

/-- A character that a name may have. Beyond ASCII, what is no blank is taken for a letter. -/
def isLetter (c : Char) : Bool :=
  !Text.isBlank c && (c.isAlphanum || c == '_' || decide (127 < c.toNat))

/-- **A name** is made of letters, and does not begin with a digit. -/
structure IsName (name : List Char) : Prop where
  letters : ∀ c ∈ name, isLetter c = true
  head : ∃ c, name.head? = some c ∧ c.isDigit = false

/-- **The spellings of an argument.** -/
inductive Argument : List Char → Reference → Prop
  | next : Argument [] .next
  | position {digits : List Char} {n : Nat} : Numeral.Denotes 10 digits n →
      Argument digits (.position n)
  | name {letters : List Char} : IsName letters → Argument letters (.name letters)

/-- What there may be one of, or nothing. -/
def Optionally (options cs : List Char) : Prop := cs = [] ∨ ∃ c ∈ options, cs = [c]

/-- **A fill**: a side, and what to fill the other with. -/
inductive Fill : List Char → Prop
  | none : Fill []
  | side {side : Char} : side ∈ ['<', '^', '>'] → Fill [side]
  | with {c side : Char} : side ∈ ['<', '^', '>'] → Fill [c, side]

/-- **A number of characters**, as a width has one and a precision. -/
inductive Width : List Char → List Reference → Prop
  | none : Width [] []
  | number {digits : List Char} {n : Nat} : Numeral.Denotes 10 digits n → Width digits []
  | argument {cs : List Char} {r : Reference} : Argument cs r → cs ≠ [] → Width (cs ++ ['$']) [r]

/-- **A precision.** -/
inductive Precision : List Char → List Reference → Prop
  | none : Precision [] []
  | width {cs : List Char} {rs : List Reference} : Width cs rs → Precision ('.' :: cs) rs
  | next : Precision ['.', '*'] [.next]

/-- **A layout.** -/
inductive Layout : List Char → List Reference → Prop
  | mk {fill sign mark zero width precision kind : List Char} {rs ss : List Reference} :
      Fill fill → Optionally ['+', '-'] sign → Optionally ['#'] mark → Optionally ['0'] zero →
      Width width rs → Precision precision ss → (∀ c ∈ kind, isLetter c = true ∨ c = '?') →
      Layout (fill ++ (sign ++ (mark ++ (zero ++ (width ++ (precision ++ kind)))))) (rs ++ ss)

/-- **What is behind the argument** of a placeholder, up to its closing brace. -/
inductive Tail : List Char → List Reference → Prop
  | plain {blanks : List Char} : (∀ c ∈ blanks, Text.isBlank c = true) → Tail blanks []
  | layout {cs blanks : List Char} {rs : List Reference} : Layout cs rs →
      (∀ c ∈ blanks, Text.isBlank c = true) → Tail (':' :: (cs ++ blanks)) rs

end Format

/-- **A message** with all its references. -/
inductive Format : List Char → List Reference → Prop
  | nil : Format [] []
  | text {c : Char} {t : List Char} {rs : List Reference} : c ≠ '{' → c ≠ '}' → Format t rs →
      Format (c :: t) rs
  | opening {t : List Char} {rs : List Reference} : Format t rs → Format ('{' :: '{' :: t) rs
  | closing {t : List Char} {rs : List Reference} : Format t rs → Format ('}' :: '}' :: t) rs
  | placeholder {cs tail t : List Char} {r : Reference} {rs ss : List Reference} :
      Format.Argument cs r → Format.Tail tail rs → Format t ss →
      Format ('{' :: (cs ++ (tail ++ '}' :: t))) (r :: rs ++ ss)

namespace Format

variable {count n : Nat} {c : Char} {r : Reference} {rs ss : List Reference}
  {before cs digits rest s t tail w : List Char}

/-- Every reference needs a brace. -/
theorem eq_nil_of_not_mem (h : Format t rs) (hbrace : '{' ∉ t) : rs = [] := by
  induction h with
  | nil => rfl
  | text _ _ _ ih => exact ih (List.not_mem_of_not_mem_cons hbrace)
  | closing _ ih =>
    exact ih (List.not_mem_of_not_mem_cons (List.not_mem_of_not_mem_cons hbrace))
  | opening => exact absurd List.mem_cons_self hbrace
  | placeholder => exact absurd List.mem_cons_self hbrace

/-! ### Arguments -/

theorem isLetter_of_isDigit (h : c.isDigit = true) : isLetter c = true := by
  have hdigit : 48 ≤ c.toNat ∧ c.toNat ≤ 57 := Char.isDigit_iff_toNat.mp h
  have hblank : Text.isBlank c = false := by
    simp only [Text.isBlank, Text.blankRanges, List.any_cons, List.any_nil, Bool.or_eq_false_iff,
      Bool.and_eq_false_iff, decide_eq_false_iff_not, and_true]
    omega
  simp [isLetter, hblank, Char.isAlphanum, h]

theorem Argument.letters (h : Argument cs r) : ∀ c ∈ cs, isLetter c = true := by
  cases h with
  | next => simp
  | position h => exact fun c hc => isLetter_of_isDigit (h.forall_isDigit c hc)
  | name h => exact h.letters

/-- Digits refer to their value. -/
theorem Argument.eq_position (h : Argument digits r) (hvalue : Numeral.Denotes 10 digits n) :
    r = .position n := by
  cases h with
  | next => exact absurd rfl hvalue.1
  | position h =>
    have hn := Numeral.digits?_eq_some_iff_denotes.mpr h
    rw [Numeral.digits?_eq_some_iff_denotes.mpr hvalue] at hn
    rw [Option.some.inj hn]
  | name h =>
    obtain ⟨c, hhead, hc⟩ := h.head
    rw [hvalue.forall_isDigit c (List.mem_of_mem_head? hhead)] at hc
    cases hc

/-- A letter in front of digits makes a name of them. -/
theorem isName_numbered (h : ∀ c ∈ digits, c.isDigit = true) : IsName ('f' :: digits) where
  letters := List.forall_mem_cons.mpr ⟨by decide, fun c hc => isLetter_of_isDigit (h c hc)⟩
  head := ⟨'f', rfl, rfl⟩

theorem Argument.eq_name (h : Argument ('f' :: digits) r) : r = .name ('f' :: digits) := by
  cases h with
  | position h =>
    have hf := h.forall_isDigit 'f' List.mem_cons_self
    cases hf
  | name => rfl

/-! ### What renaming passes over -/

/-- **Text that renaming passes over**, whatever is behind it: at a brace in it there is a
character that is neither a brace nor a letter. -/
inductive Inert : List Char → Prop
  | nil : Inert []
  | cons {c : Char} {w : List Char} : c ≠ '{' → Inert w → Inert (c :: w)
  | brace {c : Char} {w : List Char} : c ≠ '{' → isLetter c = false → Inert w →
      Inert ('{' :: c :: w)

theorem Inert.of_not_mem (h : '{' ∉ w) : Inert w := by
  induction w with
  | nil => exact .nil
  | cons c w ih =>
    rw [List.mem_cons, not_or] at h
    exact .cons (Ne.symm h.1) (ih h.2)

theorem Inert.append (h : Inert cs) (hw : Inert w) : Inert (cs ++ w) := by
  induction h with
  | nil => exact hw
  | cons hc _ ih => exact .cons hc ih
  | brace hc hletter _ ih => exact .brace hc hletter ih

theorem Inert.rename_append (h : Inert w) (t : List Char) :
    renamePlaceholders count (w ++ t) = w ++ renamePlaceholders count t := by
  induction h with
  | nil => rfl
  | cons hc _ ih => rw [List.cons_append, renamePlaceholders_cons hc, ih, List.cons_append]
  | @brace c w hc hletter _ ih =>
    have hdigit : c.isDigit = false := by
      rw [Bool.eq_false_iff] at hletter ⊢
      exact mt isLetter_of_isDigit hletter
    rw [List.cons_append, List.cons_append, renamePlaceholders_brace (by simpa using hc),
      refersToField_cons hdigit, renamePlaceholders_cons hc, ih]
    rfl

/-- Text that renaming passes over was there before. -/
theorem Inert.exists_of_rename (h : Inert w) (ht : renamePlaceholders count t = w ++ s) :
    ∃ t', t = w ++ t' ∧ renamePlaceholders count t' = s := by
  induction h generalizing t with
  | nil => exact ⟨t, rfl, ht⟩
  | cons hc _ ih =>
    obtain ⟨u, rfl, hu⟩ := exists_of_renamePlaceholders_cons hc ht
    obtain ⟨t', rfl, ht'⟩ := ih hu
    exact ⟨t', rfl, ht'⟩
  | @brace c w hc hletter _ ih =>
    obtain ⟨u, rfl, -, hu⟩ := exists_of_renamePlaceholders_brace (by simpa using hc) ht
    split at hu
    · -- A letter would have been inserted at the brace.
      rw [(List.cons.inj hu).1] at hletter
      cases hletter
    · obtain ⟨v, rfl, hv⟩ := exists_of_renamePlaceholders_cons hc hu.symm
      obtain ⟨t', rfl, ht'⟩ := ih hv
      exact ⟨t', rfl, ht'⟩

/-! ### No braces but in a fill -/

theorem brace_not_mem (h : ∀ c ∈ w, c ≠ '{') : '{' ∉ w := fun hmem => h _ hmem rfl

theorem ne_brace_of_isLetter (h : isLetter c = true) : c ≠ '{' := by
  rintro rfl
  revert h
  decide

theorem ne_brace_of_isBlank (h : Text.isBlank c = true) : c ≠ '{' := by
  rintro rfl
  revert h
  decide

theorem Argument.inert (h : Argument cs r) : Inert cs :=
  .of_not_mem (brace_not_mem fun c hc => ne_brace_of_isLetter (h.letters c hc))

theorem Optionally.inert {options : List Char} (h : Optionally options cs)
    (hoptions : '{' ∉ options) : Inert cs := by
  rcases h with rfl | ⟨c, hc, rfl⟩
  · exact .nil
  · exact .cons (fun hbrace => hoptions (hbrace ▸ hc)) .nil

theorem Fill.inert (h : Fill cs) : Inert cs := by
  have hside {side : Char} (h : side ∈ ['<', '^', '>']) : side ≠ '{' ∧ isLetter side = false := by
    simp only [List.mem_cons, List.not_mem_nil, or_false] at h
    rcases h with rfl | rfl | rfl <;> decide
  cases h with
  | none => exact .nil
  | side h => exact .cons (hside h).1 .nil
  | @«with» c side h =>
    by_cases hc : c = '{'
    · exact hc ▸ .brace (hside h).1 (hside h).2 .nil
    · exact .cons hc (.cons (hside h).1 .nil)

theorem Width.inert (h : Width cs rs) : Inert cs := by
  cases h with
  | none => exact .nil
  | number h => exact Argument.inert (.position h)
  | argument h => exact h.inert.append (.cons (by decide) .nil)

theorem Precision.inert (h : Precision cs rs) : Inert cs := by
  cases h with
  | none => exact .nil
  | width h => exact .cons (by decide) h.inert
  | next => exact .cons (by decide) (.cons (by decide) .nil)

theorem Layout.inert (h : Layout cs rs) : Inert cs := by
  obtain ⟨hfill, hsign, hmark, hzero, hwidth, hprecision, hkind⟩ := h
  have hkind : Inert _ := .of_not_mem (brace_not_mem fun c hc => by
    rcases hkind c hc with h | rfl
    · exact ne_brace_of_isLetter h
    · decide)
  exact hfill.inert.append <| (hsign.inert (by decide)).append <|
    (hmark.inert (by decide)).append <| (hzero.inert (by decide)).append <|
    hwidth.inert.append <| hprecision.inert.append hkind

theorem Tail.inert (h : Tail tail rs) : Inert tail := by
  have hblanks {blanks : List Char} (h : ∀ c ∈ blanks, Text.isBlank c = true) : Inert blanks :=
    .of_not_mem (brace_not_mem fun c hc => ne_brace_of_isBlank (h c hc))
  cases h with
  | plain h => exact hblanks h
  | layout hlayout h => exact .cons (by decide) (hlayout.inert.append (hblanks h))

/-- An argument ends where something begins that is no letter, and no brace either. -/
theorem Tail.stop (h : Tail tail rs) (t : List Char) :
    ∀ c, (tail ++ '}' :: t).head? = some c → isLetter c = false ∧ c ≠ '{' := by
  intro c hc
  cases h with
  | layout =>
    cases hc
    decide
  | plain h =>
    cases tail with
    | nil =>
      cases hc
      decide
    | cons d tail =>
      cases hc
      have hblank := h c List.mem_cons_self
      exact ⟨by simp [isLetter, hblank], ne_brace_of_isBlank hblank⟩

/-- The brace of a placeholder has no partner. -/
theorem Argument.head?_ne (h : Argument cs r) (htail : Tail tail rs) (t : List Char) :
    (cs ++ (tail ++ '}' :: t)).head? ≠ some '{' := by
  intro hhead
  cases cs with
  | nil => exact (htail.stop t '{' hhead).2 rfl
  | cons c cs => exact ne_brace_of_isLetter (h.letters c List.mem_cons_self) (Option.some.inj hhead)

/-! ### What renaming does to the references -/

/-- No letter ends a position. -/
theorem isLetter_of_endsPosition (h : EndsPosition rest) :
    ∀ c, rest.head? = some c → isLetter c = false := by
  intro c hc
  rcases h.head_eq hc with rfl | rfl <;> decide

/-- Two words that end where no letter follows are the same word. -/
theorem eq_and_eq_of_append_eq {word word' rest' : List Char}
    (hword : ∀ c ∈ word, isLetter c = true) (hword' : ∀ c ∈ word', isLetter c = true)
    (hrest : ∀ c, rest.head? = some c → isLetter c = false)
    (hrest' : ∀ c, rest'.head? = some c → isLetter c = false)
    (h : word ++ rest = word' ++ rest') : word = word' ∧ rest = rest' := by
  obtain ⟨htake, hdrop⟩ := takeWhile_append_of_stop hword hrest
  obtain ⟨htake', hdrop'⟩ := takeWhile_append_of_stop hword' hrest'
  exact ⟨htake.symm.trans (h ▸ htake'), hdrop.symm.trans (h ▸ hdrop')⟩

/-- **What renaming makes of a reference**: nothing, or of a reference by position one by name,
when it is spelled at one of the places where a letter belongs. -/
inductive Renamed (count : Nat) (text : List Char) : Reference → Reference → Prop
  | same (r : Reference) : Renamed count text r r
  | position {i n : Nat} {digits : List Char} : RefersAt text i digits n → n < count →
      Renamed count text (.position n) (.name ('f' :: digits))

/-- **Renaming changes the argument of a placeholder**, and nothing behind it. -/
theorem Argument.rename (h : Argument cs r) (htail : Tail tail rs) (t : List Char)
    (hopens : endsUnpaired before = false) : ∃ cs' r',
      renamePlaceholders count ('{' :: (cs ++ (tail ++ '}' :: t))) =
        '{' :: (cs' ++ (tail ++ '}' :: renamePlaceholders count t)) ∧
      Argument cs' r' ∧ Renamed count (before ++ '{' :: (cs ++ (tail ++ '}' :: t))) r r' := by
  have htext : renamePlaceholders count (tail ++ '}' :: t) =
      tail ++ '}' :: renamePlaceholders count t := by
    rw [htail.inert.rename_append, renamePlaceholders_cons (by decide)]
  cases hfield : refersToField count (cs ++ (tail ++ '}' :: t)) with
  | true =>
    obtain ⟨digits, rest, n, hdigits, hrest, hvalue, hlt⟩ := refersToField_iff.mp hfield
    have hletters : ∀ c ∈ digits, isLetter c = true := fun c hc =>
      isLetter_of_isDigit (hvalue.forall_isDigit c hc)
    obtain ⟨rfl, rfl⟩ := eq_and_eq_of_append_eq h.letters hletters
      (fun c hc => (htail.stop t c hc).1) (isLetter_of_endsPosition hrest) hdigits
    obtain rfl := h.eq_position hvalue
    refine ⟨'f' :: cs, .name ('f' :: cs), ?_, .name (isName_numbered hvalue.forall_isDigit),
      .position (refersAt_append hopens hrest hvalue) hlt⟩
    rw [renamePlaceholders_reference hvalue hlt hrest, htext]
    rfl
  | false =>
    refine ⟨cs, r, ?_, h, .same r⟩
    rw [renamePlaceholders_brace (h.head?_ne htail t), if_neg (by simp [hfield]), List.nil_append,
      h.inert.rename_append, htext]

/-- What becomes a placeholder was one, with an argument that was renamed. -/
theorem Argument.exists_of_rename (h : Argument cs r) (htail : Tail tail rs)
    (ht : renamePlaceholders count t = '{' :: (cs ++ (tail ++ '}' :: s)))
    (hopens : endsUnpaired before = false) : ∃ cs' r' t',
      t = '{' :: (cs' ++ (tail ++ '}' :: t')) ∧ renamePlaceholders count t' = s ∧
      Argument cs' r' ∧ Renamed count (before ++ t) r' r := by
  have hbehind {u : List Char} (hu : renamePlaceholders count u = tail ++ '}' :: s) :
      ∃ t', u = tail ++ '}' :: t' ∧ renamePlaceholders count t' = s := by
    obtain ⟨v, rfl, hv⟩ := htail.inert.exists_of_rename hu
    obtain ⟨t', rfl, ht'⟩ := exists_of_renamePlaceholders_cons (by decide) hv
    exact ⟨t', rfl, ht'⟩
  obtain ⟨u, rfl, -, hu⟩ := exists_of_renamePlaceholders_brace (h.head?_ne htail s) ht
  cases hfield : refersToField count u with
  | true =>
    obtain ⟨digits, rest, n, rfl, hrest, hvalue, hlt⟩ := refersToField_iff.mp hfield
    have hbrace : '{' ∉ digits := fun hmem => by cases hvalue.forall_isDigit _ hmem
    have hrest' : EndsPosition (renamePlaceholders count rest) := by
      rwa [EndsPosition, head?_renamePlaceholders]
    rw [hfield, if_pos rfl, renamePlaceholders_append hbrace] at hu
    obtain ⟨rfl, hv⟩ := eq_and_eq_of_append_eq h.letters
      (isName_numbered hvalue.forall_isDigit).letters (fun c hc => (htail.stop s c hc).1)
      (isLetter_of_endsPosition hrest') hu
    obtain ⟨t', rfl, ht'⟩ := hbehind hv.symm
    obtain rfl := h.eq_name
    exact ⟨digits, .position n, t', rfl, ht', .position hvalue,
      .position (refersAt_append hopens hrest hvalue) hlt⟩
  | false =>
    rw [hfield, if_neg Bool.false_ne_true, List.nil_append] at hu
    obtain ⟨v, rfl, hv⟩ := h.inert.exists_of_rename hu.symm
    obtain ⟨t', rfl, ht'⟩ := hbehind hv
    exact ⟨cs, r, t', rfl, ht', h, .same r⟩

/-- A closing brace puts an end to what a placeholder began. -/
theorem append_placeholder (before cs tail t : List Char) :
    before ++ '{' :: (cs ++ tail) ++ ['}'] ++ t = before ++ '{' :: (cs ++ (tail ++ '}' :: t)) := by
  simp

/-- The references of a placeholder but the first are what they were. -/
theorem forall₂_renamed_cons {text : List Char} {r r' : Reference} {us : List Reference}
    (h : Renamed count text r r') (rs : List Reference)
    (hss : List.Forall₂ (Renamed count text) ss us) :
    List.Forall₂ (Renamed count text) (r :: rs ++ ss) (r' :: rs ++ us) :=
  .cons h (List.rel_append (List.forall₂_same.mpr fun r _ => .same r) hss)

/-- **A message stays one**, and its references are renamed. -/
theorem renamed (count : Nat) (h : Format t rs) (hopens : endsUnpaired before = false) :
    ∃ ss, Format (renamePlaceholders count t) ss ∧
      List.Forall₂ (Renamed count (before ++ t)) rs ss := by
  induction h generalizing before with
  | nil => exact ⟨[], .nil, .nil⟩
  | @text c t rs hopen hclose _ ih =>
    obtain ⟨ss, hss, hrs⟩ := ih (endsUnpaired_concat_of_ne before hopen)
    rw [← List.append_cons] at hrs
    rw [renamePlaceholders_cons hopen]
    exact ⟨ss, .text hopen hclose hss, hrs⟩
  | @opening t rs _ ih =>
    obtain ⟨ss, hss, hrs⟩ := ih (endsUnpaired_escape hopens)
    rw [← List.append_cons, ← List.append_cons] at hrs
    rw [renamePlaceholders_escape]
    exact ⟨ss, .opening hss, hrs⟩
  | @closing t rs _ ih =>
    obtain ⟨ss, hss, hrs⟩ := ih (endsUnpaired_concat (before ++ ['}']) '}')
    rw [← List.append_cons, ← List.append_cons] at hrs
    rw [renamePlaceholders_cons (by decide), renamePlaceholders_cons (by decide)]
    exact ⟨ss, .closing hss, hrs⟩
  | @placeholder cs tail t r rs ss hargument htail _ ih =>
    obtain ⟨us, hus, hss⟩ := ih (endsUnpaired_concat (before ++ '{' :: (cs ++ tail)) '}')
    rw [append_placeholder] at hss
    obtain ⟨cs', r', htext, hargument', hr⟩ := hargument.rename htail t hopens
    rw [htext]
    exact ⟨_, .placeholder hargument' htail hus, forall₂_renamed_cons hr rs hss⟩

/-- **What becomes a message was one**, and its references were renamed. -/
theorem of_renamed (h : Format s ss) (hs : renamePlaceholders count t = s)
    (hopens : endsUnpaired before = false) :
    ∃ rs, Format t rs ∧ List.Forall₂ (Renamed count (before ++ t)) rs ss := by
  induction h generalizing before t with
  | nil =>
    have hhead := head?_renamePlaceholders count t
    rw [hs, eq_comm, List.head?_nil, List.head?_eq_none_iff] at hhead
    exact ⟨[], hhead ▸ .nil, .nil⟩
  | @text c s ss hopen hclose _ ih =>
    obtain ⟨t, rfl, ht⟩ := exists_of_renamePlaceholders_cons hopen hs
    obtain ⟨rs, hrs, hss⟩ := ih ht (endsUnpaired_concat_of_ne before hopen)
    rw [← List.append_cons] at hss
    exact ⟨rs, .text hopen hclose hrs, hss⟩
  | @opening s ss _ ih =>
    obtain ⟨t, rfl, ht⟩ := exists_of_renamePlaceholders_escape hs
    obtain ⟨rs, hrs, hss⟩ := ih ht (endsUnpaired_escape hopens)
    rw [← List.append_cons, ← List.append_cons] at hss
    exact ⟨rs, .opening hrs, hss⟩
  | @closing s ss _ ih =>
    obtain ⟨u, rfl, hu⟩ := exists_of_renamePlaceholders_cons (by decide) hs
    obtain ⟨t, rfl, ht⟩ := exists_of_renamePlaceholders_cons (by decide) hu
    obtain ⟨rs, hrs, hss⟩ := ih ht (endsUnpaired_concat (before ++ ['}']) '}')
    rw [← List.append_cons, ← List.append_cons] at hss
    exact ⟨rs, .closing hrs, hss⟩
  | @placeholder cs tail s r rs ss hargument htail _ ih =>
    obtain ⟨cs', r', t, rfl, ht, hargument', hr⟩ := hargument.exists_of_rename htail hs hopens
    obtain ⟨us, hus, hss⟩ := ih ht (endsUnpaired_concat (before ++ '{' :: (cs' ++ tail)) '}')
    rw [append_placeholder] at hss
    exact ⟨_, .placeholder hargument' htail hus, forall₂_renamed_cons hr rs hss⟩

end Format

end Derive

end StackMachine
