import StackMachine.Proofs.Derive.Arms
import StackMachine.Proofs.Derive.Format

/-!
# Arguments that nothing refers to

The arm of a part passes on all the fields, and the message of the part says which of them it
wants. Nothing compares the two. An argument with a name that no placeholder refers to is an
error where messages are formatted, so a message that is silent about a field has no display,
although the head of the function allows for fields that are bound and not used.

Which arguments are unused can be said of the message as it is given, before its placeholders
are renamed: those of the fields that the message does not refer to, in one of three ways
(`StackMachine.Derive.Uses`). Only where a position is spelled with a superfluous zero it is
not so, since renaming makes a name of it that no argument has.

* `StackMachine.Derive.Item.passesAll_of_expand` – all the fields are passed on, and which of
  them are left unused.
-/

namespace StackMachine

namespace Derive

open CodeToken

variable {count k n : Nat} {message name : String} {letters text : List Char}
  {rs ss : List Reference}

/-! ### Uses -/

/-- **A text uses an argument**: it is a message, and refers to the argument by its name, by its
position, or as the next one often enough. -/
def Uses (text : String) (k : Nat) (name : String) : Prop :=
  ∃ rs, Format text.toList rs ∧
    (.name (identifier name) ∈ rs ∨ .position k ∈ rs ∨ k < rs.count .next)

namespace Format

/-- References to the next argument are not renamed, and none is added. -/
theorem count_next (h : List.Forall₂ (Renamed count text) rs ss) :
    ss.count .next = rs.count .next := by
  induction h with
  | nil => rfl
  | cons hr _ ih =>
    cases hr with
    | same r => rw [List.count_cons, List.count_cons, ih]
    | position => simpa using ih

/-- What is a reference by position afterwards was one before. -/
theorem position_mem_of_mem (h : List.Forall₂ (Renamed count text) rs ss)
    (hmem : .position n ∈ ss) : .position n ∈ rs := by
  obtain ⟨r, hr, hrenamed⟩ := h.exists_of_mem_right hmem
  cases hrenamed with
  | same => exact hr

/-- What is a reference by name before is one afterwards. -/
theorem name_mem_of_mem (h : List.Forall₂ (Renamed count text) rs ss)
    (hmem : .name letters ∈ rs) : .name letters ∈ ss := by
  obtain ⟨r, hr, hrenamed⟩ := h.flip.exists_of_mem_right hmem
  cases hrenamed with
  | same => exact hr

/-- The name of a field was there before, or comes from the position of the field. -/
theorem mem_of_numbered_mem (h : List.Forall₂ (Renamed count text) rs ss)
    (hmem : .name ('f' :: Nat.toDigits 10 n) ∈ ss) :
    .name ('f' :: Nat.toDigits 10 n) ∈ rs ∨ .position n ∈ rs := by
  obtain ⟨r, hr, hrenamed⟩ := h.exists_of_mem_right hmem
  cases hrenamed with
  | same => exact Or.inl hr
  | position hrefers =>
    have hvalue := Numeral.digits?_eq_some_iff_denotes.mpr hrefers.value
    rw [Numeral.digits?_eq_some_iff, Nat.ofDigitChars_ten_toDigits] at hvalue
    exact Or.inr (hvalue.2.2 ▸ hr)

/-- A position that is spelled plainly stays, or becomes the name of the field. -/
theorem mem_of_position_mem (h : List.Forall₂ (Renamed count text) rs ss)
    (hplain : ∀ i digits n, RefersAt text i digits n → n < count → Numeral.IsPlain digits)
    (hmem : .position n ∈ rs) :
    .name ('f' :: Nat.toDigits 10 n) ∈ ss ∨ .position n ∈ ss := by
  obtain ⟨r, hr, hrenamed⟩ := h.flip.exists_of_mem_right hmem
  cases hrenamed with
  | same => exact Or.inr hr
  | position hrefers hlt =>
    rw [hrefers.value.eq_toDigits_iff.mpr (hplain _ _ _ hrefers hlt)] at hr
    exact Or.inl hr

end Format

/-- **A text without braces uses nothing.** -/
theorem not_uses_of_not_mem {text : String} (h : '{' ∉ text.toList) : ¬Uses text k name := by
  rintro ⟨rs, hrs, huses⟩
  obtain rfl := hrs.eq_nil_of_not_mem h
  simp at huses

/-- **Renaming adds no uses.** -/
theorem uses_of_uses_renamePositional
    (h : Uses (renamePositional message count) n ("f" ++ toString n)) :
    Uses message n ("f" ++ toString n) := by
  obtain ⟨ss, hss, huses⟩ := h
  rw [renamePositional, String.toList_ofList] at hss
  have hopens : endsUnpaired [] = false := rfl
  obtain ⟨rs, hrs, hrenamed⟩ := Format.of_renamed hss rfl hopens
  refine ⟨rs, hrs, ?_⟩
  rw [identifier_numbered] at huses ⊢
  rcases huses with hname | hposition | hnext
  · rcases Format.mem_of_numbered_mem hrenamed hname with h | h
    · exact Or.inl h
    · exact Or.inr (Or.inl h)
  · exact Or.inr (Or.inl (Format.position_mem_of_mem hrenamed hposition))
  · exact Or.inr (Or.inr (Format.count_next hrenamed ▸ hnext))

/-- **Renaming loses no uses** when positions are spelled plainly. -/
theorem uses_renamePositional
    (hplain : ∀ i digits m, RefersAt message.toList i digits m → m < count →
      Numeral.IsPlain digits)
    (h : Uses message n ("f" ++ toString n)) :
    Uses (renamePositional message count) n ("f" ++ toString n) := by
  obtain ⟨rs, hrs, huses⟩ := h
  have hopens : endsUnpaired [] = false := rfl
  obtain ⟨ss, hss, hrenamed⟩ := hrs.renamed count hopens
  refine ⟨ss, by rwa [renamePositional, String.toList_ofList], ?_⟩
  rw [identifier_numbered] at huses ⊢
  rcases huses with hname | hposition | hnext
  · exact Or.inl (Format.name_mem_of_mem hrenamed hname)
  · rcases Format.mem_of_position_mem hrenamed hplain hposition with h | h
    · exact Or.inl h
    · exact Or.inr (Or.inl h)
  · exact Or.inr (Or.inr ((Format.count_next hrenamed).symm ▸ hnext))

/-! ### Arms -/

/-- **An argument that an arm leaves unused**: it is passed on in this place, and what is written
does not use it. -/
def Arm.LeavesUnused (a : Arm) (k : Nat) : Prop :=
  ∃ name value text, (passed a.actionTokens)[k]? = some (name, value) ∧
    written? a.actionTokens = some text ∧ ¬Uses text k name

namespace Part

/-- **A field that a part is silent about**: its message does not use the field. -/
def Omits (p : Part) (k : Nat) : Prop :=
  ∃ message name, Says p.attributes message ∧ p.shape.bindings[k]? = some name ∧
    ¬Uses message k name

/-- Where the message of a part refers to fields by position, there is no superfluous zero. -/
def IsPlain (p : Part) : Prop :=
  ∀ count message, p.shape = .tuple count → Says p.attributes message →
    ∀ i digits n, RefersAt message.toList i digits n → n < count → Numeral.IsPlain digits

/-- **An arm passes on all the fields of a part**, also those that nothing refers to. -/
structure PassesAll (p : Part) (a : Arm) : Prop where
  passed : passed a.actionTokens = p.shape.bindings.map fun n => (n, n)
  /-- A field that the part is silent about is passed on, and not used. -/
  leavesUnused : ∀ k, p.Omits k → a.LeavesUnused k
  /-- There are no other arguments that are not used. -/
  omits : p.IsPlain → ∀ k, a.LeavesUnused k → p.Omits k

end Part

/-- The name of a field in a tuple. -/
theorem eq_numbered (h : (Shape.tuple count).bindings[k]? = some name) :
    name = "f" ++ toString k := by
  rw [Shape.bindings, List.getElem?_map, Option.map_eq_some_iff] at h
  obtain ⟨n, hn, rfl⟩ := h
  obtain ⟨_, hn⟩ := List.getElem?_eq_some_iff.mp hn
  rw [← hn, List.getElem_range]

theorem Shape.uses_of_uses_adaptMessage (s : Shape) (hname : s.bindings[k]? = some name)
    (h : Uses (s.adaptMessage message) k name) : Uses message k name := by
  cases s with
  | unit => exact h
  | named names => exact h
  | tuple count =>
    obtain rfl := eq_numbered hname
    exact uses_of_uses_renamePositional h

namespace Part

variable {p : Part} {arm : Arm}

theorem uses_adaptMessage (hplain : p.IsPlain) (hmessage : Says p.attributes message)
    (hname : p.shape.bindings[k]? = some name) (h : Uses message k name) :
    Uses (p.shape.adaptMessage message) k name := by
  cases hshape : p.shape with
  | unit => exact h
  | named names => exact h
  | tuple count =>
    rw [hshape] at hname
    obtain rfl := eq_numbered hname
    exact uses_renamePositional (hplain count message hshape hmessage) h

theorem passesAll_of_arm (h : p.arm = .ok arm) : p.PassesAll arm := by
  obtain ⟨message, hmessage, rfl⟩ := Part.arm_eq_ok_iff.mp h
  have hpassed := Arm.passed_actionTokens ⟨p.variant, p.shape, message⟩
  have hwritten := Arm.written?_actionTokens ⟨p.variant, p.shape, message⟩
  refine ⟨hpassed, ?_, ?_⟩
  · rintro k ⟨message', name, hmessage', hname, huses⟩
    obtain rfl := hmessage.unique hmessage'
    refine ⟨name, name, _, ?_, hwritten, mt (p.shape.uses_of_uses_adaptMessage hname) huses⟩
    rw [hpassed, List.getElem?_map, hname, Option.map_some]
  · rintro hplain k ⟨name, value, text, hargument, htext, huses⟩
    rw [hpassed, List.getElem?_map, Option.map_eq_some_iff] at hargument
    obtain ⟨name', hname, h⟩ := hargument
    cases h
    cases hwritten.symm.trans htext
    exact ⟨message, name, hmessage, hname, mt (uses_adaptMessage hplain hmessage hname) huses⟩

end Part

namespace Item

variable {item : Item} {code : List CodeToken}

/-- **A derived display passes on all the fields**, and leaves those unused that the messages are
silent about. -/
theorem passesAll_of_expand (h : item.expand = .ok code) : ∃ parts arms,
    item.parts? = some parts ∧ item.HasArms code arms ∧
      List.Forall₂ Part.PassesAll parts arms := by
  obtain ⟨parts, arms, hparts, hcode, harms⟩ := forall₂_arm_of_expand h
  exact ⟨parts, arms, hparts, hcode, harms.imp fun _ _ => Part.passesAll_of_arm⟩

/-- An enumeration that is silent about its only field. -/
def reticent : Item where
  name := "E"
  attributes := []
  parameters := []
  constraints := []
  body := .enumeration [⟨"V", [⟨["error"], .arguments [literal "bad"]⟩], .named ["code"]⟩]

theorem passesAll_of_expand_reticent : ∃ code, reticent.expand = .ok code ∧ ∃ parts arms,
    reticent.parts? = some parts ∧ reticent.HasArms code arms ∧
      List.Forall₂ Part.PassesAll parts arms :=
  ⟨_, rfl, passesAll_of_expand rfl⟩

/-- **An argument that nothing refers to.** The message has no placeholder, and the field is
passed on all the same. -/
theorem code_unused :
    ∃ (a : Arm) (code : List CodeToken), reticent.expand = .ok code ∧
      reticent.HasArms code [a] ∧ passed a.actionTokens = [("code", "code")] ∧
      written? a.actionTokens = some "bad" ∧ ¬Uses "bad" 0 "code" :=
  ⟨⟨some "V", .named ["code"], "bad"⟩, _, rfl, hasArms_iff.mpr rfl, rfl, rfl,
    not_uses_of_not_mem (by decide)⟩

end Item

end Derive

end StackMachine
