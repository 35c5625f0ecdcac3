import StackMachine.Text.Numeral

/-!
# Numerals that were written

The text of an integer is a numeral, and the numeral has the value of the integer.
What a program lists is decimal, so this is about decimal digits only; the one
danger is that a run of digits might begin with the mark of a hexadecimal numeral,
and it does not, as the letter of that mark is no decimal digit.

Counts are decimal as well, but they are given by hand, and so the question is what else
could be read as one: nothing but a run of digits is, perhaps with a plus sign in front.

* `StackMachine.Numeral.word?_toString` – the text of a word is read as that word;
* `StackMachine.Numeral.count?_eq_some_iff` – what is read as a count.
-/

namespace StackMachine

namespace Numeral

/-! ### Decimal digits -/

variable {c : Char} {cs : List Char}

/-- A decimal digit lies between `0` and `9`. -/
theorem isDigit_iff : c.isDigit = true ↔ '0' ≤ c ∧ c ≤ '9' := by
  simp [Char.isDigit, Char.le_def]

theorem digit?_of_isDigit (h : c.isDigit = true) : digit? 10 c = some (c.toNat - '0'.toNat) := by
  have hc := Char.isDigit_iff_toNat.mp h
  have hlt : c.toNat - '0'.toNat < 10 := by
    have h9 : '9'.toNat = 57 := rfl
    have h0 : '0'.toNat = 48 := rfl
    omega
  rw [digit?, digitValue?, if_pos (isDigit_iff.mp h), Option.filter_some,
    if_pos (decide_eq_true hlt)]

/-- Reading decimal digits one after the other is the standard way to read them. -/
theorem foldlM_digit? (h : ∀ c ∈ cs, c.isDigit = true) (value : Nat) :
    cs.foldlM (fun value c => (digit? 10 c).map (value * 10 + ·)) value =
      some (Nat.ofDigitChars 10 cs value) := by
  induction cs generalizing value with
  | nil => simp
  | cons c cs ih =>
    have hc := digit?_of_isDigit (h c (by simp))
    have hcs : ∀ d ∈ cs, d.isDigit = true := fun d hd => h d (by simp [hd])
    rw [List.foldlM_cons, hc, Nat.ofDigitChars_cons, Nat.mul_comm 10]
    exact ih hcs _

theorem digits?_of_isDigit (h : ∀ c ∈ cs, c.isDigit = true) (hne : cs ≠ []) :
    digits? 10 cs = some (Nat.ofDigitChars 10 cs 0) := by
  rw [digits?, if_neg (by simpa using hne), foldlM_digit? h]

/-- Decimal digits are no hexadecimal numeral. -/
theorem magnitude?_of_isDigit (h : ∀ c ∈ cs, c.isDigit = true) :
    magnitude? cs = digits? 10 cs := by
  unfold magnitude?
  -- The marks are letters.
  split
  · exact absurd (h 'x' (by simp)) (by decide)
  · exact absurd (h 'X' (by simp)) (by decide)
  · rfl

/-! ### The text of an integer -/

theorem isDigit_of_mem_toDigits {n : Nat} (h : c ∈ Nat.toDigits 10 n) : c.isDigit = true :=
  Nat.isDigit_of_mem_toDigits (by decide) (by decide) h

theorem magnitude?_toDigits (n : Nat) : magnitude? (Nat.toDigits 10 n) = some n := by
  have h : ∀ c ∈ Nat.toDigits 10 n, c.isDigit = true := fun c => isDigit_of_mem_toDigits
  rw [magnitude?_of_isDigit h, digits?_of_isDigit h Nat.toDigits_ne_nil,
    Nat.ofDigitChars_ten_toDigits]

theorem toList_toString_ofNat (n : Nat) :
    (toString (Int.ofNat n)).toList = Nat.toDigits 10 n :=
  Nat.toList_repr

theorem toList_toString_negSucc (n : Nat) :
    (toString (Int.negSucc n)).toList = '-' :: Nat.toDigits 10 (n + 1) := by
  change ("-" ++ (n + 1).repr).toList = _
  simp

/-- The text of an integer is made of digits and, perhaps, a minus sign. -/
theorem mem_toString {z : Int} (h : c ∈ (toString z).toList) : c = '-' ∨ c.isDigit = true := by
  cases z with
  | ofNat n =>
    rw [toList_toString_ofNat] at h
    exact Or.inr (isDigit_of_mem_toDigits h)
  | negSucc n =>
    rw [toList_toString_negSucc, List.mem_cons] at h
    exact h.imp id isDigit_of_mem_toDigits

theorem toString_ne_nil (z : Int) : (toString z).toList ≠ [] := by
  cases z with
  | ofNat n =>
    rw [toList_toString_ofNat]
    exact Nat.toDigits_ne_nil
  | negSucc n =>
    rw [toList_toString_negSucc]
    exact List.cons_ne_nil _ _

/-- A numeral without a sign. -/
theorem integer?_of_isDigit (h : ∀ c ∈ cs, c.isDigit = true) :
    integer? cs = (magnitude? cs).map fun n => (n : Int) := by
  unfold integer?
  split
  · exact absurd (h '-' (by simp)) (by decide)
  · exact absurd (h '+' (by simp)) (by decide)
  · rfl

/-- **The text of an integer is read as that integer.** -/
theorem integer?_toString (z : Int) : integer? (toString z).toList = some z := by
  cases z with
  | ofNat n =>
    rw [toList_toString_ofNat, integer?_of_isDigit fun c => isDigit_of_mem_toDigits,
      magnitude?_toDigits]
    rfl
  | negSucc n =>
    rw [toList_toString_negSucc, integer?, magnitude?_toDigits]
    rfl

/-- **An integer is known from its text.** -/
@[simp] theorem intRepr_inj {y z : Int} : y.repr = z.repr ↔ y = z := by
  refine ⟨fun h => ?_, fun h => h ▸ rfl⟩
  have hvalue : integer? y.repr.toList = some y := integer?_toString y
  rw [h] at hvalue
  exact Option.some.inj (hvalue.symm.trans (integer?_toString z))

@[simp] theorem natRepr_inj {m n : Nat} : m.repr = n.repr ↔ m = n :=
  (intRepr_inj (y := m) (z := n)).trans Int.ofNat_inj

/-! ### Counts -/

theorem isDigit_of_digit? {d : Nat} (h : digit? 10 c = some d) : c.isDigit = true := by
  obtain ⟨hvalue, hlt⟩ := Option.filter_eq_some_iff.mp h
  have hten : d < 10 := of_decide_eq_true hlt
  rw [digitValue?] at hvalue
  split at hvalue
  · exact isDigit_iff.mpr ‹_›
  · -- The letters have values from ten on.
    split at hvalue
    · have hd := Option.some.inj hvalue
      omega
    · split at hvalue
      · have hd := Option.some.inj hvalue
        omega
      · cases hvalue

/-- **A run of decimal digits**, and nothing else, has a value. -/
theorem digits?_eq_some_iff {n : Nat} :
    digits? 10 cs = some n ↔
      cs ≠ [] ∧ (∀ c ∈ cs, c.isDigit = true) ∧ Nat.ofDigitChars 10 cs 0 = n := by
  constructor
  · intro h
    have hne : cs ≠ [] := by
      rintro rfl
      cases h
    have hdigits : ∀ c ∈ cs, c.isDigit = true := by
      rw [digits?, if_neg (by simpa using hne)] at h
      clear hne
      generalize 0 = value at h
      induction cs generalizing value with
      | nil => simp
      | cons c cs ih =>
        rw [List.foldlM_cons, Option.bind_eq_bind, Option.bind_eq_some_iff] at h
        obtain ⟨value, hc, hcs⟩ := h
        obtain ⟨d, hd, -⟩ := Option.map_eq_some_iff.mp hc
        exact List.forall_mem_cons.mpr ⟨isDigit_of_digit? hd, ih value hcs⟩
    rw [digits?_of_isDigit hdigits hne] at h
    exact ⟨hne, hdigits, Option.some.inj h⟩
  · rintro ⟨hne, hdigits, rfl⟩
    exact digits?_of_isDigit hdigits hne

/-- **How a count is written**: in decimal digits, with a plus sign in front or without, and
below `2^64`. -/
def IsCount (text : String) (n : Nat) : Prop :=
  ∃ digits, (text.toList = digits ∨ text.toList = '+' :: digits) ∧ digits ≠ [] ∧
    (∀ c ∈ digits, c.isDigit = true) ∧ Nat.ofDigitChars 10 digits 0 = n ∧ n < UInt64.size

/-- **What is read as a count** is what is written as one. -/
theorem count?_eq_some_iff {text : String} {n : Nat} : count? text = some n ↔ IsCount text n := by
  have hvalue (digits : List Char) :
      (digits? 10 digits).filter (· < UInt64.size) = some n ↔ digits ≠ [] ∧
        (∀ c ∈ digits, c.isDigit = true) ∧ Nat.ofDigitChars 10 digits 0 = n ∧ n < UInt64.size := by
    rw [Option.filter_eq_some_iff, digits?_eq_some_iff, decide_eq_true_iff]
    simp only [and_assoc]
  rw [count?, IsCount]
  rw [hvalue]
  split
  case h_1 rest hplus =>
    rw [hplus]
    constructor
    · exact fun h => ⟨rest, Or.inr rfl, h⟩
    · rintro ⟨digits, rfl | heq, h⟩
      · -- A plus sign is no digit.
        exact absurd (h.2.1 '+' List.mem_cons_self) (by decide)
      · obtain rfl := (List.cons.inj heq).2
        exact h
  case h_2 rest hplus =>
    constructor
    · exact fun h => ⟨_, Or.inl rfl, h⟩
    · rintro ⟨digits, rfl | heq, h⟩
      · exact h
      · exact absurd heq (hplus digits)

end Numeral

/-- Every word has a value in range. -/
theorem Word.ofInt?_toInt (w : Word) : Word.ofInt? w.toInt = some w := by
  rw [Word.ofInt?, if_pos ⟨Int64.minValue_le_toInt w, Int64.toInt_le w⟩, Int64.ofInt_toInt]

/-- **The text of a word is read as that word**, the smallest one included. -/
theorem Numeral.word?_toString (w : Word) : Numeral.word? (toString w.toInt) = some w := by
  rw [Numeral.word?, Numeral.integer?_toString, Option.bind_some, Word.ofInt?_toInt]

end StackMachine
