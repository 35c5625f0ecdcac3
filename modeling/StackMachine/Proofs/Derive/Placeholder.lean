import StackMachine.Derive.Expansion
import StackMachine.Proofs.Text.Spelling

/-!
# Where a placeholder is renamed

Renaming the positional placeholders of a message inserts letters and does nothing else. The
places where it does can be said of the message alone, without a word about how it is
rewritten: there is a brace that opens a placeholder, the position of a field in digits, and
then the placeholder ends or its format begins (`StackMachine.Derive.RefersAt`). Which braces
open a placeholder is found by reading from the left and putting every two braces that stand
side by side together; what a brace without a partner opens is a placeholder.

* `StackMachine.Derive.onlyInserts` – a letter is inserted at these places and at no other, so
  that doing it twice is doing it once, and with no fields nothing is done;
* `StackMachine.Derive.names_binding_iff` – what comes out at these places.

The second is not what one would hope for. Whether there is a field at the position is asked of
the *value* of the digits, but the letter is put before the digits as they are *spelled*, and
the fields are called by their number. So a spelling with a superfluous zero gets a name that
nothing has.
-/

namespace StackMachine

namespace Derive

variable {count i position : Nat} {before rest text digits : List Char} {c : Char}

/-! ### References by position -/

/-- Whether a text, read from the left, ends with a brace that has no partner yet. -/
def endsUnpaired (text : List Char) : Bool :=
  text.foldl (fun unpaired c => c == '{' && !unpaired) false

/-- **What ends the position** in a placeholder: the end of the placeholder, or its format. -/
def EndsPosition (rest : List Char) : Prop := rest.head? = some '}' ∨ rest.head? = some ':'

/-- **A reference by position**: at a place of a text is a brace, and it is not the second one of
a pair; behind it are digits with a value, and then the placeholder ends or its format begins. -/
structure RefersAt (text : List Char) (i : Nat) (digits : List Char) (position : Nat) : Prop where
  opens : endsUnpaired (text.take i) = false
  reads : ∃ rest, text.drop i = '{' :: (digits ++ rest) ∧ EndsPosition rest
  value : Numeral.Denotes 10 digits position

/-- **A place where a letter belongs**: a reference by position to one of `count` fields. -/
def RenamesAt (count : Nat) (text : List Char) (i : Nat) : Prop :=
  ∃ digits position, RefersAt text i digits position ∧ position < count

@[simp] theorem endsUnpaired_concat (text : List Char) (c : Char) :
    endsUnpaired (text ++ [c]) = (c == '{' && !endsUnpaired text) := by
  rw [endsUnpaired, List.foldl_append]
  rfl

theorem endsUnpaired_concat_of_ne (before : List Char) (hc : c ≠ '{') :
    endsUnpaired (before ++ [c]) = false := by
  rw [endsUnpaired_concat, beq_eq_false_iff_ne.mpr hc, Bool.false_and]

theorem endsUnpaired_escape (h : endsUnpaired before = false) :
    endsUnpaired (before ++ ['{'] ++ ['{']) = false := by
  rw [endsUnpaired_concat, endsUnpaired_concat, h]
  rfl

/-- Characters of a kind, up to one that is not, are all of them. -/
theorem takeWhile_append_of_stop {p : Char → Bool} {word : List Char}
    (hword : ∀ c ∈ word, p c = true) (hrest : ∀ c, rest.head? = some c → p c = false) :
    (word ++ rest).takeWhile p = word ∧ (word ++ rest).dropWhile p = rest := by
  rw [List.takeWhile_append_of_pos hword, List.dropWhile_append_of_pos hword]
  cases rest with
  | nil => simp
  | cons c rest => simp [hrest c rfl]

theorem EndsPosition.head_eq (h : EndsPosition rest) (hc : rest.head? = some c) :
    c = '}' ∨ c = ':' := by
  rw [EndsPosition, hc, Option.some_inj, Option.some_inj] at h
  exact h

/-- No digit ends a position. -/
theorem EndsPosition.isDigit (h : EndsPosition rest) :
    ∀ c, rest.head? = some c → c.isDigit = false := by
  intro c hc
  rcases h.head_eq hc with rfl | rfl <;> rfl

/-- **A text refers to a field** when it begins with the position of one. -/
theorem refersToField_iff : refersToField count text = true ↔
    ∃ digits rest position, text = digits ++ rest ∧
      EndsPosition rest ∧ Numeral.Denotes 10 digits position ∧ position < count := by
  constructor
  · intro h
    rw [refersToField] at h
    split at h
    case h_1 position hposition =>
      simp only [Bool.and_eq_true, decide_eq_true_eq, Bool.or_eq_true, beq_iff_eq] at h
      exact ⟨_, _, position, List.takeWhile_append_dropWhile.symm, h.2,
        Numeral.digits?_eq_some_iff_denotes.mp hposition, h.1⟩
    case h_2 => cases h
  · rintro ⟨digits, rest, position, rfl, hrest, hvalue, hlt⟩
    obtain ⟨htake, hdrop⟩ := takeWhile_append_of_stop hvalue.forall_isDigit hrest.isDigit
    rw [refersToField, htake, hdrop, Numeral.digits?_eq_some_iff_denotes.mpr hvalue]
    simpa [hlt, EndsPosition] using hrest

/-- No text refers to a field when it does not begin with a digit. -/
theorem refersToField_cons (hc : c.isDigit = false) : refersToField count (c :: text) = false := by
  rw [Bool.eq_false_iff]
  intro h
  obtain ⟨digits, rest, position, htext, -, hvalue, -⟩ := refersToField_iff.mp h
  obtain ⟨d, ds, rfl⟩ := List.exists_cons_of_ne_nil hvalue.1
  have hd := hvalue.forall_isDigit d List.mem_cons_self
  rw [← (List.cons.inj htext).1, hc] at hd
  cases hd

/-! ### The places where a letter is inserted -/

theorem renamePlaceholders_escape (count : Nat) (text : List Char) :
    renamePlaceholders count ('{' :: '{' :: text) =
      '{' :: '{' :: renamePlaceholders count text := by
  rw [renamePlaceholders]

/-- A brace without a partner. -/
theorem renamePlaceholders_brace (h : text.head? ≠ some '{') :
    renamePlaceholders count ('{' :: text) = '{' ::
      ((if refersToField count text then ['f'] else []) ++ renamePlaceholders count text) := by
  rw [renamePlaceholders]
  · split <;> rfl
  · rintro rest rfl
    exact h rfl

theorem renamePlaceholders_cons (hc : c ≠ '{') :
    renamePlaceholders count (c :: text) = c :: renamePlaceholders count text := by
  rw [renamePlaceholders]
  · exact fun rest h => absurd h hc
  · exact hc

/-- A reference between what is before it and what is behind it. -/
theorem refersAt_append (hopens : endsUnpaired before = false)
    (hrest : EndsPosition rest) (hvalue : Numeral.Denotes 10 digits position) :
    RefersAt (before ++ '{' :: (digits ++ rest)) before.length digits position := by
  refine ⟨?_, ⟨rest, List.drop_left, hrest⟩, hvalue⟩
  rwa [List.take_left]

/-- Whether a letter belongs to a place depends on what is before it and what is behind it. -/
theorem renamesAt_append_iff : RenamesAt count (before ++ c :: rest) before.length ↔
    c = '{' ∧ endsUnpaired before = false ∧ refersToField count rest = true := by
  rw [refersToField_iff]
  constructor
  · rintro ⟨digits, position, h, hlt⟩
    obtain ⟨tail, hreads, htail⟩ := h.reads
    have hopens := h.opens
    rw [List.take_left] at hopens
    rw [List.drop_left] at hreads
    obtain ⟨rfl, rfl⟩ := List.cons.inj hreads
    exact ⟨rfl, hopens, digits, tail, position, rfl, htail, h.value, hlt⟩
  · rintro ⟨rfl, hopens, digits, tail, position, rfl, htail, hvalue, hlt⟩
    exact ⟨digits, position, refersAt_append hopens htail hvalue, hlt⟩

theorem head?_ne_some (h : ∀ rest, text = c :: rest → False) : text.head? ≠ some c := by
  intro hhead
  obtain ⟨rest, rfl⟩ := List.head?_eq_some_iff.mp hhead
  exact h rest rfl

open Classical in
/-- **The rest of a text with a letter inserted** at every place where one belongs. -/
noncomputable def inserted (count : Nat) (before rest : List Char) : List Char :=
  (rest.zipIdx before.length).flatMap fun p =>
    p.1 :: if RenamesAt count (before ++ rest) p.2 then ['f'] else []

theorem inserted_cons (count : Nat) (before : List Char) (c : Char) (rest : List Char) :
    inserted count before (c :: rest) =
      c :: ((if c = '{' ∧ endsUnpaired before = false ∧ refersToField count rest = true then ['f']
        else []) ++ inserted count (before ++ [c]) rest) := by
  rw [inserted, inserted, List.zipIdx_cons, List.flatMap_cons]
  simp only [renamesAt_append_iff, List.length_append, List.length_singleton, List.cons_append]
  rw [List.append_cons before c rest]

/-- **Renaming inserts the letters where they belong**, whatever is before, as long as no brace is
left there that would be the partner of the first one. -/
theorem renamePlaceholders_eq_inserted
    (h : rest.head? = some '{' → endsUnpaired before = false) :
    renamePlaceholders count rest = inserted count before rest := by
  fun_induction renamePlaceholders count rest generalizing before with
  | case1 text ih =>
    -- The first brace of a pair has no digit behind it, and the second one has a partner.
    have hfirst : endsUnpaired before = false := h rfl
    rw [inserted_cons, inserted_cons, ← ih fun _ => endsUnpaired_escape hfirst]
    simp [hfirst, refersToField_cons]
  | case2 text hpair hfield ih =>
    rw [inserted_cons, ← ih fun hbrace => absurd hbrace (head?_ne_some hpair),
      if_pos ⟨rfl, h rfl, hfield⟩]
    rfl
  | case3 text hpair hfield ih =>
    rw [inserted_cons, ← ih fun hbrace => absurd hbrace (head?_ne_some hpair),
      if_neg fun hplace => hfield hplace.2.2]
    rfl
  | case4 c text _ hbrace ih =>
    rw [inserted_cons, ← ih fun _ => endsUnpaired_concat_of_ne before hbrace,
      if_neg fun hplace => hbrace hplace.1]
    rfl
  | case5 => rfl

/-! ### Renaming twice -/

/-- Nothing happens to characters that are no braces. -/
theorem renamePlaceholders_append (h : '{' ∉ before) :
    renamePlaceholders count (before ++ rest) = before ++ renamePlaceholders count rest := by
  induction before with
  | nil => rfl
  | cons c before ih =>
    rw [List.mem_cons, not_or] at h
    rw [List.cons_append, renamePlaceholders_cons (Ne.symm h.1), ih h.2, List.cons_append]

theorem head?_renamePlaceholders (count : Nat) (text : List Char) :
    (renamePlaceholders count text).head? = text.head? := by
  fun_cases renamePlaceholders count text <;> rfl

/-- A character that is no brace was there before. -/
theorem exists_of_renamePlaceholders_cons (hc : c ≠ '{')
    (h : renamePlaceholders count text = c :: rest) :
    ∃ text', text = c :: text' ∧ renamePlaceholders count text' = rest := by
  obtain ⟨text', rfl⟩ := List.head?_eq_some_iff.mp
    ((head?_renamePlaceholders count text).symm.trans (h ▸ List.head?_cons))
  rw [renamePlaceholders_cons hc] at h
  exact ⟨text', rfl, (List.cons.inj h).2⟩

/-- A brace without a partner had none before. -/
theorem exists_of_renamePlaceholders_brace (hrest : rest.head? ≠ some '{')
    (h : renamePlaceholders count text = '{' :: rest) :
    ∃ text', text = '{' :: text' ∧ text'.head? ≠ some '{' ∧
      rest = (if refersToField count text' then ['f'] else []) ++
        renamePlaceholders count text' := by
  obtain ⟨text', rfl⟩ := List.head?_eq_some_iff.mp
    ((head?_renamePlaceholders count text).symm.trans (h ▸ List.head?_cons))
  have hhead : text'.head? ≠ some '{' := by
    intro hhead
    obtain ⟨text'', rfl⟩ := List.head?_eq_some_iff.mp hhead
    rw [renamePlaceholders_escape] at h
    exact hrest ((List.cons.inj h).2 ▸ rfl)
  rw [renamePlaceholders_brace hhead] at h
  exact ⟨text', rfl, hhead, (List.cons.inj h).2.symm⟩

/-- A pair of braces was one before. -/
theorem exists_of_renamePlaceholders_escape
    (h : renamePlaceholders count text = '{' :: '{' :: rest) :
    ∃ text', text = '{' :: '{' :: text' ∧ renamePlaceholders count text' = rest := by
  obtain ⟨text', rfl⟩ := List.head?_eq_some_iff.mp
    ((head?_renamePlaceholders count text).symm.trans (h ▸ List.head?_cons))
  by_cases hhead : text'.head? = some '{'
  · obtain ⟨text'', rfl⟩ := List.head?_eq_some_iff.mp hhead
    rw [renamePlaceholders_escape] at h
    exact ⟨text'', rfl, (List.cons.inj (List.cons.inj h).2).2⟩
  · -- Otherwise the second brace is a letter, or the first one has a partner after all.
    rw [renamePlaceholders_brace hhead] at h
    have h := congrArg List.head? (List.cons.inj h).2
    split at h
    · cases h
    · exact absurd ((head?_renamePlaceholders count text').symm.trans h) hhead

/-- The digits that a text begins with are the same after renaming, and so is what ends them. -/
theorem digits_renamePlaceholders (count : Nat) (text : List Char) :
    (renamePlaceholders count text).takeWhile Char.isDigit = text.takeWhile Char.isDigit ∧
      ((renamePlaceholders count text).dropWhile Char.isDigit).head? =
        (text.dropWhile Char.isDigit).head? := by
  induction text with
  | nil => exact ⟨rfl, rfl⟩
  | cons c text ih =>
    by_cases hc : c.isDigit = true
    · have hbrace : c ≠ '{' := by
        rintro rfl
        cases hc
      simpa [renamePlaceholders_cons hbrace, hc] using ih
    · obtain ⟨rest, hrest⟩ := List.head?_eq_some_iff.mp
        ((head?_renamePlaceholders count (c :: text)).trans List.head?_cons)
      simp [hrest, hc]

theorem refersToField_renamePlaceholders (count : Nat) (text : List Char) :
    refersToField count (renamePlaceholders count text) = refersToField count text := by
  obtain ⟨htake, hdrop⟩ := digits_renamePlaceholders count text
  simp only [refersToField, htake, hdrop]

theorem renamePlaceholders_idem (count : Nat) (text : List Char) :
    renamePlaceholders count (renamePlaceholders count text) = renamePlaceholders count text := by
  fun_induction renamePlaceholders count text with
  | case1 text ih => rw [renamePlaceholders_escape, ih]
  | case2 text hpair hfield ih =>
    rw [renamePlaceholders_brace (by simp), refersToField_cons rfl,
      renamePlaceholders_cons (by simp), ih]
    rfl
  | case3 text hpair hfield ih =>
    have hhead : (renamePlaceholders count text).head? ≠ some '{' := by
      rw [head?_renamePlaceholders]
      exact head?_ne_some hpair
    rw [renamePlaceholders_brace hhead, refersToField_renamePlaceholders, if_neg hfield, ih]
    rfl
  | case4 c text _ hbrace ih => rw [renamePlaceholders_cons hbrace, ih]
  | case5 => rfl

/-- With no fields there is nothing to refer to. -/
theorem renamePlaceholders_zero (text : List Char) : renamePlaceholders 0 text = text := by
  have hfield (text : List Char) : refersToField 0 text = false := by
    rw [Bool.eq_false_iff]
    intro h
    obtain ⟨_, _, _, -, -, -, hlt⟩ := refersToField_iff.mp h
    exact Nat.not_lt_zero _ hlt
  fun_induction renamePlaceholders 0 text with
  | case1 text ih => rw [ih]
  | case2 text _ h =>
    rw [hfield] at h
    cases h
  | case3 text _ _ ih => rw [ih]
  | case4 c text _ _ ih => rw [ih]
  | case5 => rfl

/-- **Renaming only inserts.** -/
structure OnlyInserts (message : String) (count : Nat) : Prop where
  /-- Every character stays, in order, and a letter follows it exactly where one belongs. -/
  output : (renamePositional message count).toList = inserted count [] message.toList
  /-- Where a letter was inserted, none belongs any more. -/
  idempotent : renamePositional (renamePositional message count) count =
    renamePositional message count
  /-- There are no positions to rename when there are no fields. -/
  identity : renamePositional message 0 = message

/-- **Renaming only inserts letters, and only where they belong**, in every message: whatever the
braces, and however many digits there are. -/
theorem onlyInserts (message : String) (count : Nat) : OnlyInserts message count := by
  refine ⟨?_, ?_, ?_⟩
  · rw [renamePositional, String.toList_ofList]
    exact renamePlaceholders_eq_inserted fun _ => rfl
  · rw [renamePositional, renamePositional, String.toList_ofList, renamePlaceholders_idem]
  · rw [renamePositional, renamePlaceholders_zero, String.ofList_toList]

/-! ### The names that come out -/

theorem endsUnpaired_cons (hc : c ≠ '{') : endsUnpaired (c :: text) = endsUnpaired text := by
  rw [endsUnpaired, List.foldl_cons, beq_eq_false_iff_ne.mpr hc]
  rfl

/-- A brace that has no partner does not stay without one for ever: some other character
follows it. -/
theorem endsUnpaired_brace (hhead : text.head? ≠ some '{')
    (h : endsUnpaired ('{' :: text) = false) : text ≠ [] ∧ endsUnpaired text = false := by
  cases text with
  | nil => cases h
  | cons c text =>
    have hc : c ≠ '{' := fun hc => hhead (congrArg some hc)
    rw [endsUnpaired, List.foldl_cons, List.foldl_cons, beq_eq_false_iff_ne.mpr hc] at h
    rw [endsUnpaired_cons hc]
    exact ⟨List.cons_ne_nil c text, h⟩

/-- A brace is no digit, and what it ends is no reference to a field. -/
theorem refersToField_append (text rest : List Char) :
    refersToField count (text ++ '{' :: rest) = refersToField count text := by
  have hdigits : (text ++ '{' :: rest).takeWhile Char.isDigit = text.takeWhile Char.isDigit ∧
      ((text ++ '{' :: rest).dropWhile Char.isDigit).head? =
        (text.dropWhile Char.isDigit).head?.or (some '{') := by
    induction text with
    | nil => exact ⟨rfl, rfl⟩
    | cons c text ih =>
      by_cases hc : c.isDigit = true
      · simpa [hc] using ih
      · simp [hc]
  simp only [refersToField, hdigits]
  cases (text.dropWhile Char.isDigit).head? <;> rfl

/-- A brace without a partner, with another brace further on. -/
theorem renamePlaceholders_brace_append (hhead : text.head? ≠ some '{')
    (h : endsUnpaired ('{' :: text) = false) (rest : List Char) :
    renamePlaceholders count ('{' :: text ++ '{' :: rest) =
      '{' :: ((if refersToField count text then ['f'] else []) ++
        renamePlaceholders count (text ++ '{' :: rest)) := by
  have hhead : (text ++ '{' :: rest).head? ≠ some '{' := by
    rwa [List.head?_append_of_ne_nil _ (endsUnpaired_brace hhead h).1]
  rw [List.cons_append, renamePlaceholders_brace hhead, refersToField_append]

/-- **What is before a brace is renamed for itself**, unless the brace has its partner there. -/
theorem renamePlaceholders_append_brace (h : endsUnpaired before = false) (rest : List Char) :
    renamePlaceholders count (before ++ '{' :: rest) =
      renamePlaceholders count before ++ renamePlaceholders count ('{' :: rest) := by
  fun_induction renamePlaceholders count before with
  | case1 text ih =>
    rw [List.cons_append, List.cons_append, renamePlaceholders_escape, ih h]
    rfl
  | case2 text hpair hfield ih =>
    have hhead := head?_ne_some hpair
    rw [renamePlaceholders_brace_append hhead h, if_pos hfield, ih (endsUnpaired_brace hhead h).2]
    rfl
  | case3 text hpair hfield ih =>
    have hhead := head?_ne_some hpair
    rw [renamePlaceholders_brace_append hhead h, if_neg hfield, ih (endsUnpaired_brace hhead h).2]
    rfl
  | case4 c text _ hbrace ih =>
    rw [List.cons_append, renamePlaceholders_cons hbrace, ih (endsUnpaired_cons hbrace ▸ h)]
    rfl
  | case5 => rfl

/-- What a reference becomes, with what is behind it renamed for itself. -/
theorem renamePlaceholders_reference (hvalue : Numeral.Denotes 10 digits position)
    (hlt : position < count) (hrest : EndsPosition rest) :
    renamePlaceholders count ('{' :: (digits ++ rest)) =
      '{' :: 'f' :: (digits ++ renamePlaceholders count rest) := by
  have hdigits := hvalue.forall_isDigit
  have hbrace : '{' ∉ digits := fun hmem => by cases hdigits _ hmem
  have hhead : (digits ++ rest).head? ≠ some '{' := by
    rw [List.head?_append_of_ne_nil _ hvalue.1]
    exact fun h => hbrace (List.mem_of_mem_head? h)
  have hfield : refersToField count (digits ++ rest) = true :=
    refersToField_iff.mpr ⟨digits, rest, position, rfl, hrest, hvalue, hlt⟩
  rw [renamePlaceholders_brace hhead, if_pos hfield, renamePlaceholders_append hbrace]
  rfl

theorem ofList_numbered (n : Nat) :
    String.ofList ('f' :: Nat.toDigits 10 n) = "f" ++ toString n := by
  rw [← String.toList_inj, String.toList_ofList, String.toList_append, Nat.toString_eq_repr,
    Nat.toList_repr]
  rfl

/-- **A name with digits is one of a field** exactly when the digits are those of its number. -/
theorem mem_bindings_tuple_iff (h : Numeral.Denotes 10 digits position) (hlt : position < count) :
    String.ofList ('f' :: digits) ∈ (Shape.tuple count).bindings ↔ Numeral.IsPlain digits := by
  rw [Shape.bindings, List.mem_map]
  constructor
  · rintro ⟨n, -, hn⟩
    rw [← ofList_numbered, String.ofList_inj] at hn
    rw [← (List.cons.inj hn).2]
    exact Numeral.isPlain_toDigits n
  · intro hplain
    rw [h.eq_toDigits_iff.mpr hplain, ofList_numbered]
    exact ⟨position, List.mem_range.mpr hlt, rfl⟩

/-- **What comes out at a place** where a letter belongs, between what is before and what is
behind, each of them renamed for itself. -/
structure NamesAt (message : String) (count i : Nat) (digits : List Char) (position : Nat) :
    Prop where
  output : ∃ before rest, message.toList = before ++ '{' :: (digits ++ rest) ∧
    before.length = i ∧ EndsPosition rest ∧
    (renamePositional message count).toList = renamePlaceholders count before ++
      '{' :: 'f' :: (digits ++ renamePlaceholders count rest)
  /-- The letter and the digits are the name of a field if there is no superfluous zero. -/
  isBinding_iff : String.ofList ('f' :: digits) ∈ (Shape.tuple count).bindings ↔
    Numeral.IsPlain digits
  /-- The field is the one at the position. -/
  binding : Numeral.IsPlain digits →
    (Shape.tuple count).bindings[position]? = some (String.ofList ('f' :: digits))

/-- **A placeholder that is renamed names a field exactly when its digits are plain**, and then
it is the field that the digits stand for. -/
theorem names_binding_iff {message : String} (h : RefersAt message.toList i digits position)
    (hlt : position < count) : NamesAt message count i digits position := by
  obtain ⟨rest, hreads, hrest⟩ := h.reads
  have hmessage : message.toList = message.toList.take i ++ '{' :: (digits ++ rest) := by
    rw [← hreads, List.take_append_drop]
  have hlength : (message.toList.take i).length = i := by
    have hlength := congrArg List.length hreads
    rw [List.length_drop, List.length_cons] at hlength
    rw [List.length_take]
    omega
  refine ⟨⟨message.toList.take i, rest, hmessage, hlength, hrest, ?_⟩,
    mem_bindings_tuple_iff h.value hlt, fun hplain => ?_⟩
  · rw [renamePositional, String.toList_ofList]
    conv_lhs => rw [hmessage]
    rw [renamePlaceholders_append_brace h.opens, renamePlaceholders_reference h.value hlt hrest]
  · rw [Shape.bindings, h.value.eq_toDigits_iff.mpr hplain, ofList_numbered]
    simp [hlt]

/-- A reference behind a pair of braces, in a spelling that is not plain. -/
theorem refersAt_zero_one :
    RefersAt "\x7b\x7b0\x7d\x7d \x7b01:?\x7d".toList 6 ['0', '1'] 1 where
  opens := by decide
  reads := ⟨[':', '?', '}'], by decide, Or.inr rfl⟩
  value := Numeral.digits?_eq_some_iff_denotes.mp rfl

theorem names_binding_iff_zero_one :
    RefersAt "\x7b\x7b0\x7d\x7d \x7b01:?\x7d".toList 6 ['0', '1'] 1 ∧ 1 < 2 ∧
      NamesAt "\x7b\x7b0\x7d\x7d \x7b01:?\x7d" 2 6 ['0', '1'] 1 :=
  ⟨refersAt_zero_one, by decide, names_binding_iff refersAt_zero_one (by decide)⟩

/-- **A name that nothing has.** The only field of a tuple is at the position that `00` stands
for, and it is not called so. -/
theorem zero_renamed :
    RefersAt "\x7b00\x7d".toList 0 ['0', '0'] 0 ∧ renamePositional "\x7b00\x7d" 1 = "\x7bf00\x7d" ∧
      "f00" ∉ (Shape.tuple 1).bindings ∧ (Shape.tuple 1).bindings[0]? = some "f0" := by
  refine ⟨⟨by decide, ⟨['}'], by decide, Or.inl rfl⟩, ?_⟩, by decide, by decide, by decide⟩
  exact Numeral.digits?_eq_some_iff_denotes.mp rfl

end Derive

end StackMachine
