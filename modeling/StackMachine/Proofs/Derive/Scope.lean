import StackMachine.Proofs.Derive.Placeholder
import StackMachine.Proofs.Pointwise

/-!
# Who writes in a derived display

The action of an arm writes to a word, and two scopes say what the word is: the pattern of
the arm, which binds the fields, and around it the head of the function, whose parameter is
the formatter. Nothing keeps the two apart. The word is the one the parameter is declared
with, in every arm; but the names of the fields are the user's, and a pattern takes them as
they are. So a field that is called as the formatter is takes its place
(`StackMachine.Derive.Arm.Captures`), and the arm writes to the field.

Read off the generated code, this happens for such fields and for no others
(`StackMachine.Derive.Item.captures_of_expand`). Fields without a name are given one that ends
in a number, which the formatter's does not.

Where the arms stand in the code, and that nothing else stands between them, is said once,
for all that is read off them (`StackMachine.Derive.Item.HasArms`).
-/

namespace StackMachine

namespace Derive

open CodeToken

namespace CodeToken

/-- The name of a word. -/
def word? : CodeToken → Option String
  | word name => some name
  | _ => none

/-- The identifier of a word. A raw word differs from the word without its prefix in how it
is read, and not in what it names. -/
def identifier (name : String) : List Char :=
  match name.toList with
  | 'r' :: '#' :: letters => letters
  | letters => letters

/-- A token after which the fields of a pattern stand. -/
def Opens (t : CodeToken) : Prop := t = mark '(' ∨ t = mark '\x7b'

instance (t : CodeToken) : Decidable t.Opens := inferInstanceAs (Decidable (_ ∨ _))

/-- The names that a pattern binds. The words before the delimiter are the constructor's. -/
def binders (pattern : List CodeToken) : List String :=
  (pattern.dropWhile fun t => !t.Opens).filterMap word?

/-- The word that an action writes to. -/
def writer? : List CodeToken → Option String
  | word name :: mark '.' :: word "write_fmt" :: _ => some name
  | word "write" :: mark '!' :: mark '(' :: word name :: mark ',' :: _ => some name
  | _ => none

/-- The type of a formatter, as a parameter is declared with it. -/
def formatterType : List CodeToken :=
  [mark ':', mark '&', word "mut"] ++ path true ["std", "fmt", "Formatter"]

/-- The parameter of a function that is a formatter. -/
def formatter? : List CodeToken → Option String
  | word name :: head =>
    if formatterType.isPrefixOf head then some name else formatter? head
  | _ :: head => formatter? head
  | [] => none

theorem filterMap_commaSeparated {α : Type} {g : CodeToken → Option α} (hg : g (mark ',') = none)
    (items : List (List CodeToken)) :
    (commaSeparated items).filterMap g = items.flatMap (List.filterMap g) := by
  induction items with
  | nil => rfl
  | cons item items ih =>
    cases items with
    | nil => simp [commaSeparated, List.intercalate]
    | cons next items =>
      rw [List.flatMap_cons, ← ih]
      simp [commaSeparated, List.intercalate, List.intersperse, hg]

theorem filterMap_word?_names (names : List String) :
    (commaSeparated (names.map fun n => [word n])).filterMap word? = names := by
  rw [filterMap_commaSeparated rfl, List.flatMap_map]
  simp [word?]

/-- The identifier of a field that is called by its number. -/
theorem identifier_numbered (n : Nat) :
    identifier ("f" ++ toString n) = 'f' :: Nat.toDigits 10 n := by
  rw [← ofList_numbered, identifier, String.toList_ofList]
  rfl

/-- A number ends no name of a single letter. -/
theorem identifier_numbered_ne (n : Nat) : identifier ("f" ++ toString n) ≠ identifier "f" := by
  rw [identifier_numbered]
  exact fun h => Nat.toDigits_ne_nil (List.cons.inj h).2

end CodeToken

namespace Shape

/-- The names that the user gave to the fields. -/
def fieldNames : Shape → List String
  | named names => names
  | _ => []

theorem mem_bindings_iff {s : Shape} {name : String} (h : identifier name = identifier "f") :
    name ∈ s.bindings ↔ name ∈ s.fieldNames := by
  cases s with
  | unit => rfl
  | named names => rfl
  | tuple count =>
    refine iff_of_false (fun hmem => ?_) List.not_mem_nil
    obtain ⟨n, -, rfl⟩ := List.mem_map.mp hmem
    exact identifier_numbered_ne n h

end Shape

theorem formatter?_signatureTokens : formatter? Item.signatureTokens = some "f" := by
  decide

namespace Arm

variable {a : Arm} {name : String}

/-- A field **captures** the writer of an arm: the pattern binds it, under the identifier that
the action writes to. -/
def Captures (a : Arm) (name : String) : Prop :=
  ∃ w, writer? a.actionTokens = some w ∧ name ∈ binders a.patternTokens ∧
    identifier name = identifier w

theorem writer?_actionTokens (a : Arm) : writer? a.actionTokens = some "f" := by
  rw [actionTokens]
  cases a.shape <;> rfl

/-- The constructor of an arm is a path, and the fields do not begin within it. -/
theorem dropWhile_constructorTokens (a : Arm) (rest : List CodeToken) :
    (a.constructorTokens ++ rest).dropWhile (fun t => !t.Opens) =
      rest.dropWhile fun t => !t.Opens := by
  rw [constructorTokens]
  cases a.variant <;> rfl

/-- What a pattern binds, with the fields between two delimiters. -/
theorem binders_delimited {opening closing : Char} (h : (mark opening).Opens)
    (names : List String) :
    binders (a.constructorTokens ++ [mark opening] ++
      commaSeparated (names.map fun n => [word n]) ++ [mark closing]) = names := by
  rw [binders, List.append_assoc, List.append_assoc, dropWhile_constructorTokens,
    List.singleton_append, List.dropWhile_cons_of_neg (by simpa using h),
    List.filterMap_cons_none rfl, List.filterMap_append, filterMap_word?_names,
    List.filterMap_cons_none rfl, List.filterMap_nil, List.append_nil]

/-- **A pattern binds the fields**, as the item lists them. -/
theorem binders_patternTokens (a : Arm) : binders a.patternTokens = a.shape.bindings := by
  rw [patternTokens]
  cases a.shape with
  | unit =>
    rw [binders, ← List.append_nil a.constructorTokens, dropWhile_constructorTokens]
    rfl
  | tuple count => exact binders_delimited (by decide) _
  | named names => exact binders_delimited (by decide) _

/-- **The fields that capture the writer** are those that the user called as the formatter. -/
theorem captures_iff : a.Captures name ↔
    name ∈ a.shape.fieldNames ∧ identifier name = identifier "f" := by
  constructor
  · rintro ⟨w, hw, hmem, hname⟩
    obtain rfl : w = "f" := Option.some.inj (hw.symm.trans a.writer?_actionTokens)
    rw [binders_patternTokens] at hmem
    exact ⟨(Shape.mem_bindings_iff hname).mp hmem, hname⟩
  · rintro ⟨hmem, hname⟩
    refine ⟨"f", a.writer?_actionTokens, ?_, hname⟩
    rw [binders_patternTokens]
    exact (Shape.mem_bindings_iff hname).mpr hmem

end Arm

namespace Item

variable {item : Item} {arms : List Arm} {code : List CodeToken}

/-- **The code has these arms**: it implements the display of the item, by a function that
matches the value against the pattern of each arm, in order, and does what the arm does. Behind
a pattern there is an arrow, and behind an action a comma. The implementation of the error is
empty. -/
def HasArms (item : Item) (code : List CodeToken) (arms : List Arm) : Prop :=
  code =
    item.implementationTokens ["std", "fmt", "Display"] ++ [mark '\x7b'] ++
      signatureTokens ++ [mark '\x7b', word "match", word "self", mark '\x7b'] ++
      arms.flatMap (fun a =>
        a.patternTokens ++ [mark '=', mark '>'] ++ a.actionTokens ++ [mark ',']) ++
      [mark '\x7d', mark '\x7d', mark '\x7d'] ++
      item.implementationTokens ["std", "error", "Error"] ++ [mark '\x7b', mark '\x7d']

/-- **The generated code has the arms that it is generated from.** -/
theorem hasArms_iff : item.HasArms code arms ↔ code = item.code arms := by
  have harrow : marks "=>" = [mark '=', mark '>'] := rfl
  have hcomma : marks "," = [mark ','] := rfl
  have hopen : marks "\x7b" = [mark '\x7b'] := rfl
  have hclose : marks "\x7d\x7d\x7d" = [mark '\x7d', mark '\x7d', mark '\x7d'] := rfl
  have hempty : marks "\x7b\x7d" = [mark '\x7b', mark '\x7d'] := rfl
  have htokens : Arm.tokens = fun a : Arm =>
      a.patternTokens ++ [mark '=', mark '>'] ++ a.actionTokens ++ [mark ','] := by
    funext a
    rw [Arm.tokens, harrow, hcomma]
  rw [HasArms, Item.code, hopen, hclose, hempty, htokens]
  simp only [List.append_assoc, List.cons_append, List.nil_append]

/-- The shapes that an item is displayed in: those of its variants, or its own. -/
def shapes (item : Item) : List Shape :=
  match item.body with
  | .enumeration variants => variants.map Variant.shape
  | .record shape => [shape]
  | .union _ => []

/-- **There is an arm for each shape**, in the order of the item. -/
theorem forall₂_arms (h : item.arms = .ok arms) :
    List.Forall₂ (fun s (a : Arm) => a.shape = s) item.shapes arms := by
  rw [Item.arms] at h
  rw [shapes]
  cases hbody : item.body with
  | enumeration variants =>
    rw [hbody] at h
    rw [List.forall₂_map_left_iff]
    refine (List.mapM_eq_ok_iff.mp h).imp fun v a ha => ?_
    obtain ⟨_, -, ha⟩ := Except.bind_eq_ok_iff.mp ha
    cases ha
    rfl
  | record shape =>
    rw [hbody] at h
    obtain ⟨_, -, h⟩ := Except.bind_eq_ok_iff.mp h
    cases h
    exact .cons rfl .nil
  | union shape =>
    rw [hbody] at h
    cases h

/-- **The display of an item writes to its formatter, but for the fields of that name.** Every
arm writes to the word that the formatter is declared with, and a field of its pattern takes
the place of the formatter exactly when the user has given it the name of the formatter. -/
theorem captures_of_expand (h : item.expand = .ok code) :
    ∃ arms, item.arms = .ok arms ∧ item.HasArms code arms ∧
      List.Forall₂ (fun (s : Shape) (a : Arm) =>
        writer? a.actionTokens = formatter? signatureTokens ∧
          ∀ name, a.Captures name ↔ name ∈ s.fieldNames ∧ identifier name = identifier "f")
        item.shapes arms := by
  obtain ⟨arms, harms, hcode⟩ := Except.bind_eq_ok_iff.mp h
  cases hcode
  refine ⟨arms, harms, hasArms_iff.mpr rfl, (forall₂_arms harms).imp fun s a hshape => ?_⟩
  subst hshape
  exact ⟨a.writer?_actionTokens.trans formatter?_signatureTokens.symm, fun _ => Arm.captures_iff⟩

/-- An enumeration with a field that is called as the formatter is. -/
def eponymous : Item where
  name := "E"
  attributes := []
  parameters := []
  constraints := []
  body := .enumeration
    [⟨"V", [⟨["error"], .arguments [literal "bad \x7bf\x7d"]⟩], .named ["f"]⟩]

theorem captures_of_expand_eponymous :
    ∃ code, eponymous.expand = .ok code ∧ ∃ arms, eponymous.arms = .ok arms ∧
      eponymous.HasArms code arms ∧ List.Forall₂ (fun (s : Shape) (a : Arm) =>
        writer? a.actionTokens = formatter? signatureTokens ∧
          ∀ name, a.Captures name ↔ name ∈ s.fieldNames ∧ identifier name = identifier "f")
        eponymous.shapes arms :=
  ⟨_, rfl, captures_of_expand rfl⟩

/-- **A display that writes to a field.** The pattern of its arm binds the word that the arm
writes to, and the formatter is out of reach. -/
theorem writer_captured :
    ∃ (a : Arm) (code : List CodeToken), eponymous.expand = .ok code ∧
      eponymous.HasArms code [a] ∧ eponymous.arms = .ok [a] ∧
      writer? a.actionTokens = some "f" ∧ binders a.patternTokens = ["f"] :=
  ⟨⟨some "V", .named ["f"], "bad \x7bf\x7d"⟩, _, rfl, hasArms_iff.mpr rfl, rfl, rfl, rfl⟩

end Item

end Derive

end StackMachine
