import StackMachine.Proofs.Derive.Scope

/-!
# What a derived display is made of

A display is derived from **parts**: the variants of an enumeration, or the structure itself.
Of the attributes of a part one counts, the first whose path is the single word `error`, and it
says the message or is a problem (`StackMachine.Derive.Says`, `StackMachine.Derive.Fails`);
attributes behind it mend nothing, and attributes of the enumeration count for nothing. Here
this is said without the search that finds the attribute.

What comes out is read off the generated code: the words of a pattern before its delimiter, the
words within it, the arguments of an action, and its text. That there is nothing else in a pattern
or an action is said by its spelling (`StackMachine.Derive.Shape.Spells`), and that there is nothing
else between the arms by `StackMachine.Derive.Item.HasArms`.

* `StackMachine.Derive.Item.expands` – a display is derived exactly when every part says its
  message; otherwise the problem is that of the first part that does not. Then there is one arm
  for each part, and it binds all the fields of the part and passes them on, each once and in
  order.
-/

namespace StackMachine

namespace Derive

open CodeToken

/-! ### The attribute that counts -/

/-- **The attribute that counts** in a list of attributes. -/
def Counts (attributes : List Attribute) (a : Attribute) : Prop :=
  ∃ before after, attributes = before ++ a :: after ∧ a.path = ["error"] ∧
    ∀ b ∈ before, b.path ≠ ["error"]

/-- **What attributes say**: the attribute that counts has a single string literal for its
arguments. -/
def Says (attributes : List Attribute) (message : String) : Prop :=
  ∃ a, Counts attributes a ∧ a.payload = .arguments [.literal message]

/-- **What is wrong with attributes** that say nothing. -/
inductive Fails (attributes : List Attribute) : Problem → Prop
  | missing : (∀ a ∈ attributes, a.path ≠ ["error"]) → Fails attributes .missing
  | withoutArguments {a : Attribute} : Counts attributes a →
      (∀ tokens, a.payload ≠ .arguments tokens) → Fails attributes .withoutArguments
  | notOneString {a : Attribute} {tokens : List CodeToken} : Counts attributes a →
      a.payload = .arguments tokens → (∀ message, tokens ≠ [.literal message]) →
      Fails attributes .notOneString

variable {attributes : List Attribute} {a : Attribute} {message : String} {problem : Problem}

theorem find?_eq_some_iff_counts :
    attributes.find? (·.path == ["error"]) = some a ↔ Counts attributes a := by
  rw [List.find?_eq_some_iff_append]
  constructor
  · rintro ⟨hpath, before, after, rfl, hbefore⟩
    exact ⟨before, after, rfl, eq_of_beq hpath, fun b hb => by simpa using hbefore b hb⟩
  · rintro ⟨before, after, rfl, hpath, hbefore⟩
    exact ⟨beq_iff_eq.mpr hpath, before, after, rfl, fun b hb => by simpa using hbefore b hb⟩

theorem Says.messageOf_eq (h : Says attributes message) :
    messageOf attributes = .ok message := by
  obtain ⟨a, ha, hpayload⟩ := h
  simp only [messageOf, find?_eq_some_iff_counts.mpr ha, hpayload]

theorem Fails.messageOf_eq (h : Fails attributes problem) :
    messageOf attributes = .error problem := by
  cases h with
  | missing h =>
    have hnone : attributes.find? (·.path == ["error"]) = none :=
      List.find?_eq_none.mpr fun a ha => by simpa using h a ha
    simp only [messageOf, hnone]
  | withoutArguments ha hpayload =>
    simp only [messageOf, find?_eq_some_iff_counts.mpr ha]
    split
    · exact absurd ‹_› (hpayload _)
    · exact absurd ‹_› (hpayload _)
    · rfl
  | notOneString ha hpayload htokens =>
    simp only [messageOf, find?_eq_some_iff_counts.mpr ha, hpayload]

/-- **Attributes say a message, or something is wrong with them.** -/
theorem says_or_fails (attributes : List Attribute) :
    (∃ message, Says attributes message) ∨ ∃ problem, Fails attributes problem := by
  cases hfind : attributes.find? (·.path == ["error"]) with
  | none =>
    refine Or.inr ⟨_, .missing fun a ha => ?_⟩
    simpa using List.find?_eq_none.mp hfind a ha
  | some a =>
    have ha := find?_eq_some_iff_counts.mp hfind
    cases hpayload : a.payload with
    | bare => exact Or.inr ⟨_, .withoutArguments ha (by simp [hpayload])⟩
    | assigned => exact Or.inr ⟨_, .withoutArguments ha (by simp [hpayload])⟩
    | arguments tokens =>
      by_cases h : ∃ message, tokens = [.literal message]
      · obtain ⟨message, rfl⟩ := h
        exact Or.inl ⟨message, a, ha, hpayload⟩
      · exact Or.inr ⟨_, .notOneString ha hpayload fun message hm => h ⟨message, hm⟩⟩

/-- **The message of attributes** is what they say. -/
theorem messageOf_eq_ok_iff : messageOf attributes = .ok message ↔ Says attributes message := by
  refine ⟨fun h => ?_, Says.messageOf_eq⟩
  rcases says_or_fails attributes with ⟨message', hmessage⟩ | ⟨problem, hfails⟩
  · cases h.symm.trans hmessage.messageOf_eq
    exact hmessage
  · cases h.symm.trans hfails.messageOf_eq

/-- **The problem with attributes** is what is wrong with them. -/
theorem messageOf_eq_error_iff :
    messageOf attributes = .error problem ↔ Fails attributes problem := by
  refine ⟨fun h => ?_, Fails.messageOf_eq⟩
  rcases says_or_fails attributes with ⟨message', hmessage⟩ | ⟨problem, hfails⟩
  · cases h.symm.trans hmessage.messageOf_eq
  · cases h.symm.trans hfails.messageOf_eq
    exact hfails

theorem Says.unique {message' : String} (h : Says attributes message)
    (h' : Says attributes message') : message = message' :=
  Except.ok.inj (h.messageOf_eq.symm.trans h'.messageOf_eq)

/-! ### Reading the code of an arm -/

namespace CodeToken

/-- The value of a string literal. -/
def literal? : CodeToken → Option String
  | literal value => some value
  | _ => none

/-- The text that an action writes. -/
def written? (action : List CodeToken) : Option String := action.findSome? literal?

/-- The arguments that an action passes on, each one with its name. -/
def passed : List CodeToken → List (String × String)
  | word name :: mark '=' :: word value :: rest => (name, value) :: passed rest
  | _ :: rest => passed rest
  | [] => []

/-- The words of a pattern that are before its fields. -/
def patternHead (pattern : List CodeToken) : List CodeToken :=
  pattern.takeWhile fun t => !t.Opens

/-- Arguments that are passed on under the names they have. -/
theorem passed_commaSeparated (names : List String) :
    passed (commaSeparated (names.map fun n => [word n, mark '=', word n]) ++ [mark ')']) =
      names.map fun n => (n, n) := by
  induction names with
  | nil => rfl
  | cons name names ih =>
    cases names with
    | nil => rfl
    | cons next names => exact congrArg ((name, name) :: ·) ih

end CodeToken

namespace Arm

/-- **A pattern begins with its constructor**, up to the fields. -/
theorem patternHead_patternTokens (a : Arm) :
    patternHead a.patternTokens = a.constructorTokens := by
  have hpath (rest : List CodeToken) :
      patternHead (a.constructorTokens ++ rest) = a.constructorTokens ++ patternHead rest := by
    rw [constructorTokens]
    cases a.variant <;> rfl
  have hfields (opening closing : Char) (h : (mark opening).Opens) (names : List CodeToken) :
      patternHead (a.constructorTokens ++ [mark opening] ++ names ++ [mark closing]) =
        a.constructorTokens := by
    rw [List.append_assoc, List.append_assoc, hpath, patternHead, List.singleton_append,
      List.takeWhile_cons_of_neg (by simpa using h), List.append_nil]
  rw [patternTokens]
  cases a.shape with
  | unit => simpa [patternHead] using hpath []
  | tuple count => exact hfields '(' ')' (by decide) _
  | named names => exact hfields '\x7b' '\x7d' (by decide) _

theorem written?_actionTokens (a : Arm) :
    written? a.actionTokens = some (a.shape.adaptMessage a.message) := by
  rw [actionTokens]
  cases a.shape <;> rfl

/-- **An action passes on the bindings of the fields**, whatever it writes. -/
theorem passed_actionTokens (a : Arm) :
    passed a.actionTokens = a.shape.bindings.map fun n => (n, n) := by
  rw [actionTokens]
  cases h : a.shape with
  | unit => rfl
  | tuple count =>
    rw [← passed_commaSeparated, argumentTokens, h]
    rfl
  | named names =>
    rw [← passed_commaSeparated, argumentTokens, h]
    rfl

end Arm

/-! ### The parts of an item -/

/-- **A part**: what an arm is for, a variant or the structure itself. -/
structure Part where
  variant : Option String
  shape : Shape
  attributes : List Attribute

/-- **What a message becomes for the fields** of a shape, and the names of the fields. Fields
without a name are called by their number. -/
inductive Shape.Renders (message : String) : Shape → List String → String → Prop
  | unit : Renders message .unit [] message
  | tuple {count : Nat} {names : List String} : names.length = count →
      (∀ n < count, names[n]? = some ("f" ++ toString n)) →
      Renders message (.tuple count) names (renamePositional message count)
  | named {names : List String} : Renders message (.named names) names message

theorem Shape.renders (message : String) (s : Shape) :
    s.Renders message s.bindings (s.adaptMessage message) := by
  cases s with
  | unit => exact .unit
  | tuple count => exact .tuple (by simp [bindings]) fun n hn => by simp [bindings, hn]
  | named names => exact .named

/-- The delimiters that the fields of a shape stand in. -/
inductive Shape.Delimits : Shape → Char → Char → Prop
  | tuple {count : Nat} : Delimits (.tuple count) '(' ')'
  | named {names : List String} : Delimits (.named names) '\x7b' '\x7d'

/-- **How an arm is spelled** for a shape, token by token. The pattern is the constructor, with
the names of the fields behind it in the delimiters of the shape. The action writes the text as it
is when the shape has no place for fields, and otherwise with an argument for each of them. -/
inductive Shape.Spells (constructor : List CodeToken) (names : List String) (text : String) :
    Shape → List CodeToken → List CodeToken → Prop
  | unit : Spells constructor names text .unit constructor
      [word "f", mark '.', word "write_fmt", mark '(', word "format_args", mark '!', mark '(',
        literal text, mark ')', mark ')']
  | fields {s : Shape} {opening closing : Char} : s.Delimits opening closing →
      Spells constructor names text s
        (constructor ++ [mark opening] ++ [mark ','].intercalate (names.map fun n => [word n]) ++
          [mark closing])
        ([word "write", mark '!', mark '(', word "f", mark ',', literal text, mark ','] ++
          [mark ','].intercalate (names.map fun n => [word n, mark '=', word n]) ++ [mark ')'])

/-- The constructor of a part: the variant of the type, or the type itself. -/
def Part.constructorTokens (p : Part) : List CodeToken :=
  match p.variant with
  | some variant => [word "Self", mark ':', mark ':', word variant]
  | none => [word "Self"]

/-- **An arm displays a part**: its pattern is the constructor of the part and binds all the
fields in order, and its action writes the message of the part and passes on all the fields, each
one under its own name. -/
structure Part.Displays (p : Part) (a : Arm) : Prop where
  head : patternHead a.patternTokens = path false ("Self" :: p.variant.toList)
  message : ∃ message names text, Says p.attributes message ∧
    p.shape.Renders message names text ∧ binders a.patternTokens = names ∧
    passed a.actionTokens = names.map (fun n => (n, n)) ∧ written? a.actionTokens = some text ∧
    p.shape.Spells p.constructorTokens names text a.patternTokens a.actionTokens

/-- **An arm is spelled** as its shape demands. -/
theorem Arm.spells (a : Arm) : a.shape.Spells a.constructorTokens a.shape.bindings
    (a.shape.adaptMessage a.message) a.patternTokens a.actionTokens := by
  rw [patternTokens, actionTokens, argumentTokens]
  cases a.shape with
  | unit => exact .unit
  | tuple count => exact .fields .tuple
  | named names => exact .fields .named

theorem Part.constructorTokens_eq (p : Part) (message : String) :
    p.constructorTokens = (⟨p.variant, p.shape, message⟩ : Arm).constructorTokens := by
  rw [Part.constructorTokens, Arm.constructorTokens]
  cases p.variant <;> rfl

/-- The arm for a part, or the problem with its attributes. -/
def Part.arm (p : Part) : Except Problem Arm := do
  return ⟨p.variant, p.shape, ← messageOf p.attributes⟩

variable {p : Part} {arm : Arm}

theorem Part.arm_eq_ok_iff : p.arm = .ok arm ↔
    ∃ message, Says p.attributes message ∧ arm = ⟨p.variant, p.shape, message⟩ := by
  rw [Part.arm, Except.bind_eq_ok_iff]
  refine exists_congr fun message => ?_
  rw [messageOf_eq_ok_iff]
  exact and_congr_right fun _ => ⟨fun h => (Except.ok.inj h).symm, fun h => h ▸ rfl⟩

theorem Part.arm_eq_error_iff : p.arm = .error problem ↔ Fails p.attributes problem := by
  rw [Part.arm, Except.bind_eq_error_iff, messageOf_eq_error_iff]
  constructor
  · rintro (h | ⟨_, -, ⟨⟩⟩)
    exact h
  · exact Or.inl

/-- **The arm that is built for a part displays it.** -/
theorem Part.displays_of_arm (h : p.arm = .ok arm) : p.Displays arm := by
  obtain ⟨message, hmessage, rfl⟩ := Part.arm_eq_ok_iff.mp h
  refine ⟨Arm.patternHead_patternTokens _, message, _, _, hmessage,
    Shape.renders message p.shape, Arm.binders_patternTokens _, Arm.passed_actionTokens _,
    Arm.written?_actionTokens _, ?_⟩
  rw [p.constructorTokens_eq message]
  exact Arm.spells _

namespace Item

variable {item : Item} {parts : List Part} {code : List CodeToken}

/-- The parts of an item. A union has none that could be displayed. -/
def parts? (item : Item) : Option (List Part) :=
  match item.body with
  | .enumeration variants => some (variants.map fun v => ⟨some v.name, v.shape, v.attributes⟩)
  | .record shape => some [⟨none, shape, item.attributes⟩]
  | .union _ => none

/-- **The arms of an item** are those of its parts. -/
theorem arms_of_parts (h : item.parts? = some parts) : item.arms = parts.mapM Part.arm := by
  rw [parts?] at h
  rw [arms]
  cases hbody : item.body with
  | enumeration variants =>
    rw [hbody] at h
    cases h
    rw [List.mapM_map]
    rfl
  | record shape =>
    rw [hbody] at h
    cases h
    rw [List.mapM_cons, List.mapM_nil, Part.arm]
    cases messageOf item.attributes <;> rfl
  | union shape =>
    rw [hbody] at h
    cases h

theorem expand_eq_ok_iff (h : item.parts? = some parts) : item.expand = .ok code ↔
    ∃ arms, List.Forall₂ (fun p arm => p.arm = .ok arm) parts arms ∧
      item.HasArms code arms := by
  rw [expand, Except.bind_eq_ok_iff, arms_of_parts h]
  refine exists_congr fun arms => ?_
  rw [List.mapM_eq_ok_iff, hasArms_iff]
  exact and_congr_right fun _ => ⟨fun h => (Except.ok.inj h).symm, fun h => h ▸ rfl⟩

theorem expand_eq_error_iff (h : item.parts? = some parts) :
    item.expand = .error problem ↔ parts.mapM Part.arm = .error problem := by
  rw [expand, Except.bind_eq_error_iff, arms_of_parts h]
  constructor
  · rintro (h | ⟨_, -, ⟨⟩⟩)
    exact h
  · exact Or.inl

theorem expand_of_no_parts (h : item.parts? = none) : item.expand = .error .unsupported := by
  rw [parts?] at h
  rw [expand, arms]
  cases hbody : item.body with
  | enumeration variants =>
    rw [hbody] at h
    cases h
  | record shape =>
    rw [hbody] at h
    cases h
  | union shape => rfl

/-- **Deriving a display**, part by part. -/
structure Expands (item : Item) : Prop where
  /-- There is nothing to derive for a union. -/
  unsupported : item.parts? = none → item.expand = .error .unsupported
  /-- A display is derived when every part says its message. -/
  succeeds_iff : ∀ parts, item.parts? = some parts →
    ((∃ code, item.expand = .ok code) ↔ ∀ p ∈ parts, ∃ message, Says p.attributes message)
  /-- Otherwise the first part that does not is the problem. -/
  fails_iff : ∀ parts, item.parts? = some parts → ∀ problem,
    (item.expand = .error problem ↔ ∃ before p after, parts = before ++ p :: after ∧
      (∀ q ∈ before, ∃ message, Says q.attributes message) ∧ Fails p.attributes problem)
  /-- The code has one arm for each part, in order. -/
  displays : ∀ parts, item.parts? = some parts → ∀ code, item.expand = .ok code →
    ∃ arms, item.HasArms code arms ∧ List.Forall₂ Part.Displays parts arms

/-- **A display is derived for what says how it is displayed**, completely, and otherwise the
first problem is found. -/
theorem expands (item : Item) : item.Expands := by
  have harm (p : Part) : (∃ arm, p.arm = .ok arm) ↔ ∃ message, Says p.attributes message := by
    simp only [Part.arm_eq_ok_iff]
    exact ⟨fun ⟨_, message, h, _⟩ => ⟨message, h⟩, fun ⟨message, h⟩ => ⟨_, message, h, rfl⟩⟩
  refine ⟨expand_of_no_parts, fun parts h => ?_, fun parts h problem => ?_,
    fun parts h code hcode => ?_⟩
  · simp only [expand_eq_ok_iff h, ← harm]
    rw [← List.exists_forall₂_iff]
    constructor
    · rintro ⟨_, arms, harms, -⟩
      exact ⟨arms, harms⟩
    · rintro ⟨arms, harms⟩
      exact ⟨_, arms, harms, hasArms_iff.mpr rfl⟩
  · rw [expand_eq_error_iff h, List.mapM_eq_error_iff]
    simp only [harm, Part.arm_eq_error_iff]
  · obtain ⟨arms, harms, hcode⟩ := (expand_eq_ok_iff h).mp hcode
    exact ⟨arms, hcode, harms.imp fun _ _ => Part.displays_of_arm⟩

/-- **What is derived has an arm for each part**, in order. -/
theorem forall₂_arm_of_expand (h : item.expand = .ok code) : ∃ parts arms,
    item.parts? = some parts ∧ item.HasArms code arms ∧
      List.Forall₂ (fun p arm => p.arm = .ok arm) parts arms := by
  cases hparts : item.parts? with
  | none =>
    rw [expand_of_no_parts hparts] at h
    cases h
  | some parts =>
    obtain ⟨arms, harms, hcode⟩ := (expand_eq_ok_iff hparts).mp h
    exact ⟨parts, arms, rfl, hcode, harms⟩

end Item

end Derive

end StackMachine
