import Mathlib.Data.List.Forall2
import StackMachine.Assembly.Statement
import StackMachine.Program.Forms
import StackMachine.Text.Basic

/-!
# Two ways to cut a line

The assembler scans a line character by character and carries the token it is in the middle
of. A program in text form is cut at its separators into fields, all at once, and those
that are empty are dropped. Both cut a line into the same pieces, at the same columns.

The pending characters of the scanner are what makes the induction go through: they are the
beginning of the field that the scanner is in, so the fields to compare with are those of
the pending characters and the rest together.

* `StackMachine.Token.scan_eq_fields` – the two ways agree;
* `StackMachine.Text.chunks` – the texts of the pieces, with no scanner in their definition;
* `StackMachine.Program.scannersAgree` – **the tokens of a line are the fields that are visited
  on it**, with their columns and in order.
-/

namespace StackMachine

/-- The pieces of a line: what stands between separators, as long as it is not empty, up to
the comment. -/
def Text.chunks (line : List Char) : List (List Char) :=
  ((dropComment line).splitOnP isSeparator).filter (!·.isEmpty)

/-- A carriage return at the end of a line makes no piece. -/
theorem Text.chunks_dropReturn (line : List Char) : chunks (dropReturn line) = chunks line := by
  rw [dropReturn]
  split
  case isFalse => rfl
  case isTrue h =>
    obtain ⟨init, rfl⟩ := List.getLast?_eq_some_iff.mp h
    have hreturn : isSeparator '\r' = true := by decide
    rw [List.dropLast_concat, chunks, chunks, dropComment, dropComment, List.takeWhile_append]
    split
    case isFalse => rfl
    case isTrue hall =>
      -- There is no comment, so that the carriage return is a separator at the end.
      have hinit : init.takeWhile (· != '#') = init :=
        (List.takeWhile_prefix _).eq_of_length hall
      rw [hinit, show ['\r'].takeWhile (· != '#') = ['\r'] by decide,
        List.splitOnP_append_cons init [] hreturn, List.splitOnP_nil, List.filter_append]
      exact (List.append_nil _).symm

namespace Token

/-- A field as a token. -/
def ofField (f : Program.Field) : Token := ⟨f.text, f.column⟩

/-- The token of pending characters is the field that they are. -/
theorem ofPending_eq (column : Nat) (pending : List Char) (fields : List Program.Field) :
    ofPending (column + pending.length) pending ++
        (fields.filter (!·.text.isEmpty)).map ofField =
      ((⟨column, String.ofList pending.reverse⟩ :: fields).filter (!·.text.isEmpty)).map
        ofField := by
  cases pending with
  | nil => rfl
  | cons c pending =>
    rw [List.filter_cons_of_pos (by simp), ofPending, if_neg (by simp),
      Nat.add_sub_cancel_right]
    rfl

/-- **The scanner finds the fields that are not empty**, those of the pending characters and
the rest. -/
theorem scan_eq_fields (pending : List Char)
    (hpending : ∀ c ∈ pending, Text.isSeparator c = false) (column : Nat) (rest : List Char) :
    scan (column + pending.length) pending rest =
      ((Program.locate column ((pending.reverse ++ rest).splitOnP Text.isSeparator)).filter
        (!·.text.isEmpty)).map ofField := by
  have hreverse : ∀ c ∈ pending.reverse, Text.isSeparator c = false :=
    fun c hc => hpending c (List.mem_reverse.mp hc)
  induction rest generalizing column pending with
  | nil =>
    rw [List.append_nil, List.splitOnP_eq_singleton hreverse]
    exact (List.append_nil _).symm.trans (ofPending_eq column pending [])
  | cons c rest ih =>
    by_cases hc : Text.isSeparator c = true
    · -- The field ends here, and the next one begins with nothing pending.
      have hrest := ih [] (by simp) (column + pending.length + 1) (by simp)
      rw [scan, if_pos hc, List.splitOnP_append_cons_of_forall_mem hreverse c hc,
        Program.locate, ← ofPending_eq, List.length_reverse]
      exact congrArg _ hrest
    · have hpending' : ∀ d ∈ c :: pending, Text.isSeparator d = false :=
        List.forall_mem_cons.mpr ⟨Bool.eq_false_iff.mpr hc, hpending⟩
      have hrest := ih _ hpending' column fun d hd => hpending' d (List.mem_reverse.mp hd)
      rw [List.reverse_cons, List.append_assoc] at hrest
      rw [scan, if_neg hc]
      exact hrest

/-- **The tokens of a line are its fields** that are not empty. -/
theorem ofLine_eq_fields (line : List Char) :
    ofLine line = ((Program.fields line).filter (!·.text.isEmpty)).map ofField :=
  scan_eq_fields [] (by simp) 1 (Text.dropComment line)

/-- The texts of fields are what was between the separators. -/
theorem map_text_locate (column : Nat) (pieces : List (List Char)) :
    (Program.locate column pieces).map Program.Field.text = pieces.map String.ofList := by
  induction pieces generalizing column with
  | nil => rfl
  | cons piece pieces ih => rw [Program.locate, List.map_cons, List.map_cons, ih]

/-- **The tokens of a line are its pieces.** -/
theorem map_text_ofLine (line : List Char) :
    (ofLine line).map text = (Text.chunks line).map String.ofList := by
  have hempty : (fun t : String => !t.isEmpty) ∘ String.ofList =
      fun piece : List Char => !piece.isEmpty := by
    funext piece
    cases piece <;> simp [String.isEmpty_eq_false_iff]
  calc (ofLine line).map text
      = ((Program.fields line).filter (!·.text.isEmpty)).map Program.Field.text := by
        rw [ofLine_eq_fields, List.map_map]
        rfl
    _ = ((Program.fields line).map Program.Field.text).filter (!·.isEmpty) :=
        (List.filter_map (p := fun t : String => !t.isEmpty)).symm
    _ = (((Text.dropComment line).splitOnP Text.isSeparator).map String.ofList).filter
          (!·.isEmpty) := by
        rw [Program.fields, map_text_locate]
    _ = (Text.chunks line).map String.ofList := by
        rw [List.filter_map, hempty, Text.chunks]

end Token

namespace Program

/-! ### What is visited on a line -/

/-- **The fields that are visited** when a program is read off a line: those that are not
empty. -/
def visited (line : List Char) : List Field := (fields line).filter (!·.text.isEmpty)

/-- **The column of a field**: the characters of the fields before it have been passed, and a
separator behind each of them. -/
theorem getElem?_locate (column : Nat) (pieces : List (List Char)) (k : Nat) :
    (locate column pieces)[k]? = pieces[k]?.map fun piece =>
      ⟨column + ((pieces.take k).flatten.length + k), String.ofList piece⟩ := by
  induction pieces generalizing column k with
  | nil => rfl
  | cons piece pieces ih =>
    cases k with
    | zero => rfl
    | succ k =>
      have hcolumn : column + piece.length + 1 + ((pieces.take k).flatten.length + k) =
          column + (((piece :: pieces).take (k + 1)).flatten.length + (k + 1)) := by
        rw [List.take_succ_cons, List.flatten_cons, List.length_append]
        omega
      rw [locate, List.getElem?_cons_succ, List.getElem?_cons_succ, ih, hcolumn]

/-- **The two ways to cut a line agree.** -/
structure ScannersAgree (line : List Char) : Prop where
  /-- The tokens are the fields that are visited: as many, in the same order, each with the same
  text and the same column. -/
  tokens : List.Forall₂ (fun (t : Token) (f : Field) => t.text = f.text ∧ t.column = f.column)
    (Token.ofLine line) (visited line)
  /-- The fields are what the separators leave of the line before its comment, and the column
  of a field, counted from one, is found by counting the characters before it. -/
  columns : ∀ k, (fields line)[k]? =
    ((Text.dropComment line).splitOnP Text.isSeparator)[k]?.map fun piece => Field.mk
      (1 + ((((Text.dropComment line).splitOnP Text.isSeparator).take k).flatten.length + k))
      (String.ofList piece)
  /-- Whether words are read off the fields or off the tokens, they are the same words, and it
  is the same token at the same column that is refused. -/
  read : ∀ number, lineWords number line =
    (Token.ofLine line).mapM fun t => Field.word number ⟨t.column, t.text⟩

/-- **The assembler and the reader of programs scan alike**: they find the same tokens on every
line, at the same columns. -/
theorem scannersAgree (line : List Char) : ScannersAgree line where
  tokens := by
    rw [Token.ofLine_eq_fields, List.forall₂_map_left_iff, visited, List.forall₂_same]
    exact fun f _ => ⟨rfl, rfl⟩
  columns k := getElem?_locate 1 _ k
  read number := by
    rw [Token.ofLine_eq_fields, List.mapM_map]
    rfl

-- Separators at both ends, a doubled one, a wide blank and a comment.
example : Token.ofLine " ä,,PUSH\u3000@x # 7".toList =
    [⟨"ä", 2⟩, ⟨"PUSH", 5⟩, ⟨"@x", 10⟩] := by decide

end Program

end StackMachine
