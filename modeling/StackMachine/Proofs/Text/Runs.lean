import Mathlib.Data.List.Sort
import StackMachine.Assembly.Statement
import StackMachine.Text.Basic

/-!
# Tokens as maximal runs

What the tokens of a text are, said without a scanner: the **maximal runs** of characters
that do not separate, in the lines of the text, up to their comments. A run is maximal when
a separator, or an end of the code, is on either side of it, and its column is found by
counting the characters before it. There is exactly one way to list all the runs of a text
in reading order, and it is the one that the scanner finds line by line.

* `StackMachine.Token.mem_ofLine_iff` – the tokens of a line are its maximal runs;
* `StackMachine.Spot.inReadingOrder_iff` – the tokens of a text are all of them, in order.

The scanner may be in the middle of a token, whose characters are pending. They are the
beginning of the code in which the runs are looked for, so they can be part of the first
run only, and a separator ends it: what is behind the separator has its runs for itself
(`StackMachine.Token.isRun_append_iff`), and this carries the induction.
-/

namespace StackMachine

/-! ### One line -/

namespace Token

variable {column : Nat} {code w rest line pending : List Char} {t t' : Token}

/-- **A maximal run** of characters that do not separate, in code whose first character is in
the given column. -/
def IsRun (column : Nat) (code : List Char) (t : Token) : Prop :=
  ∃ before after, code = before ++ (t.text.toList ++ after) ∧ t.column = column + before.length ∧
    t.text.toList ≠ [] ∧ (∀ c ∈ t.text.toList, Text.isSeparator c = false) ∧
    (∀ c ∈ before.getLast?, Text.isSeparator c = true) ∧
    ∀ c ∈ after.head?, Text.isSeparator c = true

theorem IsRun.column_le (h : IsRun column code t) : column ≤ t.column := by
  obtain ⟨before, after, -, hcolumn, -⟩ := h
  rw [hcolumn]
  exact Nat.le_add_right _ _

/-- The first separator is where characters end that do not separate. -/
theorem takeWhile_append_of_head? (hw : ∀ c ∈ w, Text.isSeparator c = false)
    (hrest : ∀ c ∈ rest.head?, Text.isSeparator c = true) :
    (w ++ rest).takeWhile (!Text.isSeparator ·) = w := by
  rw [List.takeWhile_append_of_pos (by simpa using hw)]
  cases rest with
  | nil => simp
  | cons c cs => simp [hrest c rfl]

/-- Characters that do not separate do not end with one that does. -/
theorem eq_nil_of_getLast? (hw : ∀ c ∈ w, Text.isSeparator c = false)
    (hlast : ∀ c ∈ w.getLast?, Text.isSeparator c = true) : w = [] := by
  rcases List.eq_nil_or_concat w with rfl | ⟨init, d, rfl⟩
  · rfl
  · have hd := hw d (by simp)
    rw [hlast d (by simp)] at hd
    cases hd

/-- Characters that do not separate are a run when a separator, or nothing, follows. -/
theorem isRun_first (hne : w ≠ []) (hw : ∀ c ∈ w, Text.isSeparator c = false)
    (hrest : ∀ c ∈ rest.head?, Text.isSeparator c = true) :
    IsRun column (w ++ rest) ⟨String.ofList w, column⟩ :=
  ⟨[], rest, by simp, rfl, by simpa using hne, by simpa using hw, by simp, hrest⟩

/-- A run behind a separator. -/
theorem IsRun.behind {c : Char} (hc : Text.isSeparator c = true)
    (h : IsRun (column + w.length + 1) rest t) : IsRun column (w ++ c :: rest) t := by
  obtain ⟨before, after, rfl, hcolumn, hne, hrun, hbefore, hafter⟩ := h
  refine ⟨w ++ c :: before, after, by simp, ?_, hne, hrun, ?_, hafter⟩
  · rw [hcolumn, List.length_append, List.length_cons]
    omega
  · intro d hd
    rw [List.getLast?_append, List.getLast?_cons] at hd
    cases hlast : before.getLast? with
    | none =>
      rw [hlast] at hd
      obtain rfl : c = d := Option.some.inj hd
      exact hc
    | some e =>
      rw [hlast] at hd
      obtain rfl : e = d := Option.some.inj hd
      exact hbefore e hlast

/-- **The runs of code that begins with characters that do not separate**: these characters
are the first run, if there are any, and the others are behind the separator. -/
theorem isRun_append_iff (hw : ∀ c ∈ w, Text.isSeparator c = false)
    (hrest : ∀ c ∈ rest.head?, Text.isSeparator c = true) :
    IsRun column (w ++ rest) t ↔
      w ≠ [] ∧ t = ⟨String.ofList w, column⟩ ∨
        ∃ c cs, rest = c :: cs ∧ IsRun (column + w.length + 1) cs t := by
  constructor
  · rintro ⟨before, after, hcode, hcolumn, hne, hrun, hbefore, hafter⟩
    have htext := takeWhile_append_of_head? hrun hafter
    rcases List.append_eq_append_iff.mp hcode with ⟨as, rfl, hrest'⟩ | ⟨bs, rfl, hcode'⟩
    · -- The run is behind the characters `w`, and a separator is between.
      right
      cases as with
      | nil =>
        rw [List.nil_append] at hrest'
        rw [← hrest', ← List.nil_append rest, takeWhile_append_of_head? (by simp) hrest] at htext
        exact absurd htext.symm hne
      | cons c cs =>
        refine ⟨c, cs ++ (t.text.toList ++ after), hrest', cs, after, rfl, ?_, hne, hrun, ?_,
          hafter⟩
        · rw [hcolumn, List.length_append, List.length_cons]
          omega
        · intro d hd
          refine hbefore d ?_
          rw [List.getLast?_append, List.getLast?_cons, Option.mem_def.mp hd]
          rfl
    · -- The run begins among the characters `w`, so it begins where they begin.
      left
      obtain rfl : before = [] :=
        eq_nil_of_getLast? (fun c hc => hw c (List.mem_append_left _ hc)) hbefore
      rw [List.nil_append] at hw ⊢
      rw [hcode', takeWhile_append_of_head? hw hrest] at htext
      refine ⟨htext ▸ hne, ?_⟩
      rw [htext, String.ofList_toList]
      exact congrArg (Token.mk t.text) hcolumn
  · rintro (⟨hne, rfl⟩ | ⟨c, cs, rfl, h⟩)
    · exact isRun_first hne hw hrest
    · exact h.behind (hrest c rfl)

/-- Characters that do not separate are one run, if there are any. -/
theorem mem_ofPending_iff :
    t ∈ ofPending (column + pending.length) pending ↔
      pending.reverse ≠ [] ∧ t = ⟨String.ofList pending.reverse, column⟩ := by
  cases pending with
  | nil => simp [ofPending]
  | cons c cs => simp [ofPending]

/-- **The scanner finds the runs** of the pending characters and the rest together. -/
theorem mem_scan_iff (pending : List Char)
    (hpending : ∀ c ∈ pending, Text.isSeparator c = false) (column : Nat) :
    t ∈ scan (column + pending.length) pending rest ↔ IsRun column (pending.reverse ++ rest) t := by
  have hreverse : ∀ c ∈ pending.reverse, Text.isSeparator c = false :=
    fun c hc => hpending c (List.mem_reverse.mp hc)
  induction rest generalizing column pending with
  | nil =>
    rw [scan, mem_ofPending_iff, isRun_append_iff hreverse (by simp)]
    simp
  | cons c rest ih =>
    by_cases hc : Text.isSeparator c = true
    · -- What is pending is a run now, and the others are behind the separator.
      have hrest := ih [] (by simp) (column + pending.length + 1) (by simp)
      rw [scan, if_pos hc, List.mem_append, mem_ofPending_iff,
        isRun_append_iff hreverse (by simpa using hc), List.length_reverse]
      simpa using or_congr_right hrest
    · have hpending' : ∀ d ∈ c :: pending, Text.isSeparator d = false :=
        List.forall_mem_cons.mpr ⟨Bool.eq_false_iff.mpr hc, hpending⟩
      have hrest := ih _ hpending' column fun d hd => hpending' d (List.mem_reverse.mp hd)
      rw [List.reverse_cons, List.append_assoc] at hrest
      rw [scan, if_neg hc]
      exact hrest

/-- **The tokens of a line are its maximal runs**, up to the comment. -/
theorem mem_ofLine_iff : t ∈ ofLine line ↔ IsRun 1 (Text.dropComment line) t :=
  mem_scan_iff [] (by simp) 1

/-- The scanner finds the runs from left to right. -/
theorem pairwise_scan (pending : List Char)
    (hpending : ∀ c ∈ pending, Text.isSeparator c = false) (column : Nat) :
    (scan (column + pending.length) pending rest).Pairwise fun t t' => t.column < t'.column := by
  have hlast (column : Nat) (pending : List Char) :
      (ofPending column pending).Pairwise fun t t' => t.column < t'.column := by
    rw [ofPending]
    split <;> simp
  induction rest generalizing column pending with
  | nil => exact hlast _ _
  | cons c rest ih =>
    by_cases hc : Text.isSeparator c = true
    · have hrest := ih [] (by simp) (column + pending.length + 1)
      rw [scan, if_pos hc, List.pairwise_append]
      refine ⟨hlast _ _, hrest, fun t ht t' ht' => ?_⟩
      obtain ⟨-, rfl⟩ := mem_ofPending_iff.mp ht
      have hle : column + pending.length + 1 ≤ t'.column :=
        ((mem_scan_iff [] (by simp) _).mp ht').column_le
      change column < t'.column
      omega
    · rw [scan, if_neg hc]
      exact ih _ (List.forall_mem_cons.mpr ⟨Bool.eq_false_iff.mpr hc, hpending⟩) column

theorem pairwise_ofLine : (ofLine line).Pairwise fun t t' => t.column < t'.column :=
  pairwise_scan [] (by simp) 1

end Token

/-! ### All lines -/

/-- A token with the number of its line, counted from one. -/
structure Spot where
  line : Nat
  token : Token
  deriving DecidableEq, Repr

namespace Spot

variable {source : String} {s s' : Spot} {spots spots' : List Spot}

/-- **A token of a text**: a maximal run in the code of the line with that number. -/
structure StandsIn (s : Spot) (source : String) : Prop where
  line_pos : 1 ≤ s.line
  line_le : s.line ≤ (Text.lines source.toList).length
  run : ∃ line, (Text.lines source.toList)[s.line - 1]? = some line ∧
    s.token.IsRun 1 (Text.dropComment line)

/-- **Reading order**: by lines, and from left to right on a line. -/
def Before (s s' : Spot) : Prop :=
  s.line < s'.line ∨ s.line = s'.line ∧ s.token.column < s'.token.column

instance : Std.Irrefl Before := ⟨fun s h => by simp [Before] at h⟩

instance : Std.Antisymm Before := ⟨fun s s' h h' => by simp only [Before] at h h'; omega⟩

/-- **All the tokens of a text**, in reading order. -/
structure InReadingOrder (source : String) (spots : List Spot) : Prop where
  mem_iff : ∀ s, s ∈ spots ↔ s.StandsIn source
  pairwise : spots.Pairwise Before

/-- There is one reading order. -/
theorem InReadingOrder.unique (h : InReadingOrder source spots)
    (h' : InReadingOrder source spots') : spots = spots' :=
  h.pairwise.eq_of_mem_iff h'.pairwise fun s => (h.mem_iff s).trans (h'.mem_iff s).symm

/-- The tokens that the scanner finds on numbered lines. -/
def ofLines (lines : List (List Char × Nat)) : List Spot :=
  lines.flatMap fun (line, number) => (Token.ofLine line).map (⟨number, ·⟩)

/-- The tokens that the scanner finds in a text. -/
def ofSource (source : String) : List Spot := ofLines ((Text.lines source.toList).zipIdx 1)

theorem mem_ofSource_iff : s ∈ ofSource source ↔ s.StandsIn source := by
  rw [ofSource, ofLines, List.mem_flatMap]
  constructor
  · rintro ⟨⟨line, number⟩, hline, hs⟩
    obtain ⟨t, ht, rfl⟩ := List.mem_map.mp hs
    obtain ⟨hpos, hget⟩ := List.mk_mem_zipIdx_iff_le_and_getElem?_sub.mp hline
    have hlt := (List.getElem?_eq_some_iff.mp hget).1
    refine ⟨hpos, ?_, line, hget, Token.mem_ofLine_iff.mp ht⟩
    change number ≤ _
    omega
  · rintro ⟨hpos, -, line, hget, hrun⟩
    refine ⟨(line, s.line), List.mk_mem_zipIdx_iff_le_and_getElem?_sub.mpr ⟨hpos, hget⟩, ?_⟩
    exact List.mem_map.mpr ⟨s.token, Token.mem_ofLine_iff.mpr hrun, rfl⟩

theorem pairwise_ofSource : (ofSource source).Pairwise Before := by
  rw [ofSource, ofLines, List.pairwise_flatMap]
  constructor
  · rintro ⟨line, number⟩ -
    rw [List.pairwise_map]
    exact Token.pairwise_ofLine.imp fun h => Or.inr ⟨rfl, h⟩
  · have hnumbers : (((Text.lines source.toList).zipIdx 1).map Prod.snd).Pairwise (· < ·) := by
      rw [List.zipIdx_map_snd]
      exact List.pairwise_lt_range'
    refine (List.pairwise_map.mp hnumbers).imp fun hlt s hs s' hs' => Or.inl ?_
    obtain ⟨_, -, rfl⟩ := List.mem_map.mp hs
    obtain ⟨_, -, rfl⟩ := List.mem_map.mp hs'
    exact hlt

/-- **No two tokens stand at one place.** -/
theorem StandsIn.eq_of_place (h : s.StandsIn source) (h' : s'.StandsIn source)
    (hline : s.line = s'.line) (hcolumn : s.token.column = s'.token.column) : s = s' := by
  obtain ⟨i, hi, rfl⟩ := List.mem_iff_getElem.mp (mem_ofSource_iff.mpr h)
  obtain ⟨j, hj, rfl⟩ := List.mem_iff_getElem.mp (mem_ofSource_iff.mpr h')
  have hpairwise : (ofSource source).Pairwise Before := pairwise_ofSource
  have hbefore := List.pairwise_iff_getElem.mp hpairwise
  rcases Nat.lt_trichotomy i j with hlt | rfl | hlt
  · have hij := hbefore i j hi hj hlt
    simp only [Before] at hij
    omega
  · rfl
  · have hji := hbefore j i hj hi hlt
    simp only [Before] at hji
    omega

/-- **The tokens of a text in reading order are those that the scanner finds** line by
line. -/
theorem inReadingOrder_iff : InReadingOrder source spots ↔ spots = ofSource source := by
  have hofSource : InReadingOrder source (ofSource source) :=
    ⟨fun _ => mem_ofSource_iff, pairwise_ofSource⟩
  constructor
  · exact fun h => h.unique hofSource
  · rintro rfl
    exact hofSource

end Spot

end StackMachine
