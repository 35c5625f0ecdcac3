import Mathlib.Data.List.Forall2
import Mathlib.Data.List.Induction
import Mathlib.Data.Nat.Digits.Defs
import Mathlib.Tactic.Ring
import StackMachine.Proofs.Text.Numeral

/-!
# How integers are spelled

The grammar of numerals, with no reader in it: a numeral is made of a sign, a mark and
digits, in this order, and only the digits have to be there. What it is worth is a number
in the mathematical sense, the sum of the values of its digits at their places, however many
there are; that a word has room for some of these numbers only is no matter of the grammar.

| part   | spelled                                  | stands for           |
|--------|------------------------------------------|----------------------|
| sign   | nothing, `+` or `-`                      | `n`, `n` or `-n`     |
| mark   | nothing, `0x` or `0X`                    | base 10, 16 or 16    |
| digits | `0` to `9`, and letters to `f` or `F`    | their value          |

* `StackMachine.Numeral.word?_eq_some_iff` – a text is read as a word exactly when it is a
  spelling of its value;
* `StackMachine.Numeral.readsExactly` – and so for every text, also by way of a register;
* `StackMachine.Numeral.Denotes.eq_toDigits_iff` – of the runs of digits that are worth the same,
  one has no superfluous zero, and this is how the number is written.

A reader need not compute with numbers of any size. It may read a magnitude into a
**register** of 128 bits, refuse what the register has no room for, and negate what is left:
the smallest number of the register is never met there, so that it has a negative, and no
word is missed (`StackMachine.Numeral.wordInRegister?_eq`).
-/

namespace StackMachine

namespace Numeral

variable {base n d : Nat} {c : Char} {cs : List Char} {z : Int} {text : String} {w : Word}

/-! ### The grammar -/

/-- The digits in small letters, each one in the place of its value. -/
def smallDigits : List Char := "0123456789abcdef".toList

/-- The digits in capitals. -/
def capitalDigits : List Char := "0123456789ABCDEF".toList

/-- **A digit of a base** and its value. -/
def IsDigit (base : Nat) (c : Char) (d : Nat) : Prop :=
  d < base ∧ (smallDigits[d]? = some c ∨ capitalDigits[d]? = some c)

/-- **A run of digits** and its value: the last digit counts for ones, the one before for
`base`, and so on. -/
def Denotes (base : Nat) (cs : List Char) (n : Nat) : Prop :=
  cs ≠ [] ∧ ∃ ds, List.Forall₂ (IsDigit base) cs ds ∧ n = Nat.ofDigits base ds.reverse

/-- **The spellings of a magnitude.** -/
inductive SpellsMagnitude : List Char → Nat → Prop
  | decimal {cs : List Char} {n : Nat} : Denotes 10 cs n → SpellsMagnitude cs n
  | hexadecimal {mark : Char} {cs : List Char} {n : Nat} : mark = 'x' ∨ mark = 'X' →
      Denotes 16 cs n → SpellsMagnitude ('0' :: mark :: cs) n

/-- **The spellings of an integer.** -/
inductive Spells : List Char → Int → Prop
  | unsigned {cs : List Char} {n : Nat} : SpellsMagnitude cs n → Spells cs n
  | plus {cs : List Char} {n : Nat} : SpellsMagnitude cs n → Spells ('+' :: cs) n
  | minus {cs : List Char} {n : Nat} : SpellsMagnitude cs n → Spells ('-' :: cs) (-n)

/-! ### Digits -/

/-- A range of characters of which each one is worth one more than the one before. -/
theorem getElem?_table {table : List Char} (low high first : Nat)
    (htable : ∀ n < high + 1, low ≤ n → table[n - low + first]? = some (Char.ofNat n))
    (hc : low ≤ c.toNat ∧ c.toNat ≤ high) : table[c.toNat - low + first]? = some c := by
  have h := htable c.toNat (Nat.lt_succ_of_le hc.2) hc.1
  rwa [Char.ofNat_toNat] at h

theorem digitValue?_eq_some_iff :
    digitValue? c = some d ↔ smallDigits[d]? = some c ∨ capitalDigits[d]? = some c := by
  constructor
  · intro h
    rw [digitValue?] at h
    split at h
    case isTrue hc =>
      obtain rfl := Option.some.inj h
      exact Or.inl (getElem?_table 48 57 0 (by decide) hc)
    case isFalse =>
      split at h
      case isTrue hc =>
        obtain rfl := Option.some.inj h
        exact Or.inl (getElem?_table 97 102 10 (by decide) hc)
      case isFalse =>
        obtain ⟨hc, h⟩ := Option.ite_none_right_eq_some.mp h
        obtain rfl := Option.some.inj h
        exact Or.inr (getElem?_table 65 70 10 (by decide) hc)
  · have hsmall : ∀ d < smallDigits.length, smallDigits[d]?.bind digitValue? = some d := by decide
    have hcapital : ∀ d < capitalDigits.length, capitalDigits[d]?.bind digitValue? = some d := by
      decide
    rintro (h | h)
    · have hd := hsmall d (List.getElem?_eq_some_iff.mp h).1
      rwa [h] at hd
    · have hd := hcapital d (List.getElem?_eq_some_iff.mp h).1
      rwa [h] at hd

theorem digit?_eq_some_iff : digit? base c = some d ↔ IsDigit base c d := by
  rw [digit?, Option.filter_eq_some_iff, digitValue?_eq_some_iff, decide_eq_true_iff, IsDigit,
    and_comm]

/-- **Reading digits one after the other** shifts what was read before to the left. -/
theorem foldlM_digit?_eq_some_iff {value : Nat} :
    cs.foldlM (fun value c => (digit? base c).map (value * base + ·)) value = some n ↔
      ∃ ds, List.Forall₂ (IsDigit base) cs ds ∧
        n = value * base ^ ds.length + Nat.ofDigits base ds.reverse := by
  induction cs generalizing value with
  | nil => simp [eq_comm]
  | cons c cs ih =>
    have harith (d : Nat) (ds : List Nat) :
        (value * base + d) * base ^ ds.length + Nat.ofDigits base ds.reverse =
          value * base ^ (d :: ds).length + Nat.ofDigits base (d :: ds).reverse := by
      rw [Nat.ofDigits_reverse_cons, List.length_cons]
      ring
    rw [List.foldlM_cons, Option.bind_eq_bind, Option.bind_eq_some_iff]
    simp only [Option.map_eq_some_iff, digit?_eq_some_iff, ih, List.forall₂_cons_left_iff]
    constructor
    · rintro ⟨_, ⟨d, hd, rfl⟩, ds, hds, rfl⟩
      exact ⟨d :: ds, ⟨d, ds, hd, hds, rfl⟩, harith d ds⟩
    · rintro ⟨_, ⟨d, ds, hd, hds, rfl⟩, rfl⟩
      exact ⟨_, ⟨d, hd, rfl⟩, ds, hds, (harith d ds).symm⟩

/-- **A run of digits is read as its value.** -/
theorem digits?_eq_some_iff_denotes : digits? base cs = some n ↔ Denotes base cs n := by
  rw [digits?, Denotes]
  cases cs with
  | nil => simp
  | cons c cs =>
    rw [List.isEmpty_cons, if_neg Bool.false_ne_true, foldlM_digit?_eq_some_iff]
    simp

theorem IsDigit.isDigit (h : IsDigit 10 c d) : c.isDigit = true :=
  isDigit_of_digit? (digit?_eq_some_iff.mpr h)

/-- A run of decimal digits. -/
theorem Denotes.forall_isDigit (h : Denotes 10 cs n) : ∀ c ∈ cs, c.isDigit = true := by
  obtain ⟨-, ds, hds, -⟩ := h
  induction hds with
  | nil => simp
  | cons hc _ ih => exact List.forall_mem_cons.mpr ⟨hc.isDigit, ih⟩

/-! ### Superfluous zeros -/

/-- **Digits without a superfluous zero**: they do not begin with a zero, or are nothing else. -/
def IsPlain (cs : List Char) : Prop := cs.head? = some '0' → cs = ['0']

theorem digitChar_of_isDigit (h : c.isDigit = true) : Nat.digitChar (c.toNat - '0'.toNat) = c := by
  have hdigit : 48 ≤ c.toNat ∧ c.toNat ≤ 57 := Char.isDigit_iff_toNat.mp h
  have hzero : '0'.toNat = 48 := rfl
  apply Char.toNat_inj.mp
  rw [hzero, Nat.toNat_digitChar_of_lt_ten (by omega)]
  omega

/-- The digits of a number as it is written have no superfluous zero. -/
theorem isPlain_toDigits (n : Nat) : IsPlain (Nat.toDigits 10 n) := by
  induction n using Nat.strongRecOn with
  | ind n ih =>
    intro hhead
    rcases Nat.lt_or_ge n 10 with hlt | hge
    · rw [Nat.toDigits_of_lt_base hlt] at hhead ⊢
      rw [Option.some.inj hhead]
    · rw [Nat.toDigits_of_base_le (by decide) hge] at hhead
      have hfirst : (Nat.toDigits 10 (n / 10)).head? = some '0' := by
        rwa [List.head?_append_of_ne_nil _ Nat.toDigits_ne_nil] at hhead
      -- What is before the last digit would be zero.
      have hzero : Nat.ofDigitChars 10 (Nat.toDigits 10 (n / 10)) 0 = Nat.ofDigitChars 10 ['0'] 0 :=
        congrArg (Nat.ofDigitChars 10 · 0) (ih (n / 10) (by omega) hfirst)
      rw [Nat.ofDigitChars_ten_toDigits] at hzero
      have hvalue : Nat.ofDigitChars 10 ['0'] 0 = 0 := rfl
      omega

/-- **There is one way to spell a number without superfluous zeros.** -/
theorem toDigits_ofDigitChars (hdigits : ∀ c ∈ cs, c.isDigit = true) (hne : cs ≠ [])
    (hplain : IsPlain cs) : Nat.toDigits 10 (Nat.ofDigitChars 10 cs 0) = cs := by
  induction cs using List.reverseRecOn with
  | nil => exact absurd rfl hne
  | append_singleton init c ih =>
    obtain ⟨hinit, hc⟩ := List.forall_mem_append.mp hdigits
    have hc := List.forall_mem_singleton.mp hc
    have hlt : c.toNat - '0'.toNat < 10 :=
      (digit?_eq_some_iff.mp (digit?_of_isDigit hc)).1
    rw [Nat.ofDigitChars_append, Nat.ofDigitChars_cons, Nat.ofDigitChars_nil]
    rcases eq_or_ne init [] with rfl | hne
    · rw [Nat.ofDigitChars_nil, Nat.mul_zero, Nat.zero_add, Nat.toDigits_of_lt_base hlt,
        digitChar_of_isDigit hc, List.nil_append]
    · have hhead : init.head? ≠ some '0' := by
        intro hhead
        have hlength := congrArg List.length (hplain (by rwa [List.head?_append_of_ne_nil _ hne]))
        exact hne (by simpa using hlength)
      have hvalue := ih hinit hne fun h => absurd h hhead
      have hpos : 0 < Nat.ofDigitChars 10 init 0 := by
        refine Nat.pos_of_ne_zero fun hzero => hhead ?_
        rw [← hvalue, hzero]
        rfl
      rw [← Nat.toDigits_append_toDigits (by decide) hpos hlt, hvalue,
        Nat.toDigits_of_lt_base hlt, digitChar_of_isDigit hc]

theorem Denotes.eq_toDigits_iff (h : Denotes 10 cs n) : cs = Nat.toDigits 10 n ↔ IsPlain cs := by
  obtain ⟨hne, hdigits, rfl⟩ := digits?_eq_some_iff.mp (digits?_eq_some_iff_denotes.mpr h)
  constructor
  · intro heq
    rw [heq]
    exact isPlain_toDigits _
  · exact fun hplain => (toDigits_ofDigitChars hdigits hne hplain).symm

/-! ### Magnitudes and signs -/

/-- **A magnitude is read off its spellings.** -/
theorem magnitude?_eq_some_iff : magnitude? cs = some n ↔ SpellsMagnitude cs n := by
  constructor
  · intro h
    unfold magnitude? at h
    split at h
    · exact .hexadecimal (Or.inl rfl) (digits?_eq_some_iff_denotes.mp h)
    · exact .hexadecimal (Or.inr rfl) (digits?_eq_some_iff_denotes.mp h)
    · exact .decimal (digits?_eq_some_iff_denotes.mp h)
  · rintro (h | ⟨rfl | rfl, h⟩)
    · rw [magnitude?_of_isDigit h.forall_isDigit]
      exact digits?_eq_some_iff_denotes.mpr h
    · exact digits?_eq_some_iff_denotes.mpr h
    · exact digits?_eq_some_iff_denotes.mpr h

/-- A magnitude begins with a digit, and so with no sign. -/
theorem SpellsMagnitude.exists_head (h : SpellsMagnitude cs n) :
    ∃ c rest, cs = c :: rest ∧ c.isDigit = true := by
  cases h with
  | decimal h =>
    obtain ⟨c, rest, rfl⟩ := List.exists_cons_of_ne_nil h.1
    exact ⟨c, rest, rfl, h.forall_isDigit c List.mem_cons_self⟩
  | hexadecimal => exact ⟨'0', _, rfl, rfl⟩

/-- A magnitude does not begin with what is no digit. -/
theorem SpellsMagnitude.ne_cons (h : SpellsMagnitude cs n) (hc : c.isDigit = false) :
    ¬∃ rest, cs = c :: rest := by
  obtain ⟨d, ds, rfl, hd⟩ := h.exists_head
  rintro ⟨rest, ⟨⟩⟩
  rw [hc] at hd
  cases hd

theorem integer?_minus (cs : List Char) :
    integer? ('-' :: cs) = (magnitude? cs).map fun n : Nat => -(n : Int) := by
  rw [integer?]
  cases magnitude? cs <;> rfl

theorem integer?_plus (cs : List Char) :
    integer? ('+' :: cs) = (magnitude? cs).map fun n : Nat => (n : Int) := by
  rw [integer?]
  cases magnitude? cs <;> rfl

theorem integer?_unsigned (hminus : ¬∃ rest, cs = '-' :: rest) (hplus : ¬∃ rest, cs = '+' :: rest) :
    integer? cs = (magnitude? cs).map fun n : Nat => (n : Int) := by
  unfold integer?
  split
  · exact absurd ⟨_, rfl⟩ hminus
  · exact absurd ⟨_, rfl⟩ hplus
  · cases magnitude? cs <;> rfl

/-- **An integer is read off its spellings.** -/
theorem integer?_eq_some_iff : integer? cs = some z ↔ Spells cs z := by
  constructor
  · intro h
    by_cases hminus : ∃ rest, cs = '-' :: rest
    · obtain ⟨rest, rfl⟩ := hminus
      rw [integer?_minus, Option.map_eq_some_iff] at h
      obtain ⟨n, hn, rfl⟩ := h
      exact .minus (magnitude?_eq_some_iff.mp hn)
    by_cases hplus : ∃ rest, cs = '+' :: rest
    · obtain ⟨rest, rfl⟩ := hplus
      rw [integer?_plus, Option.map_eq_some_iff] at h
      obtain ⟨n, hn, rfl⟩ := h
      exact .plus (magnitude?_eq_some_iff.mp hn)
    rw [integer?_unsigned hminus hplus, Option.map_eq_some_iff] at h
    obtain ⟨n, hn, rfl⟩ := h
    exact .unsigned (magnitude?_eq_some_iff.mp hn)
  · rintro (h | h | h)
    · rw [integer?_unsigned (h.ne_cons rfl) (h.ne_cons rfl), magnitude?_eq_some_iff.mpr h,
        Option.map_some]
    · rw [integer?_plus, magnitude?_eq_some_iff.mpr h, Option.map_some]
    · rw [integer?_minus, magnitude?_eq_some_iff.mpr h, Option.map_some]

end Numeral

/-! ### Words -/

/-- **A number is the value of a word** exactly when there is room for it. -/
theorem Word.ofInt?_eq_some_iff {z : Int} {w : Word} : Word.ofInt? z = some w ↔ w.toInt = z := by
  constructor
  · intro h
    obtain ⟨⟨hmin, hmax⟩, h⟩ := Option.ite_none_right_eq_some.mp h
    obtain rfl := Option.some.inj h
    exact Int64.toInt_ofInt_of_le hmin (Int.lt_of_le_of_lt hmax (by decide))
  · rintro rfl
    exact Word.ofInt?_toInt w

/-- The values of words. -/
theorem Word.exists_toInt_eq_iff {z : Int} :
    (∃ w : Word, w.toInt = z) ↔ -2 ^ 63 ≤ z ∧ z ≤ 2 ^ 63 - 1 := by
  constructor
  · rintro ⟨w, rfl⟩
    exact ⟨Int64.minValue_le_toInt w, Int64.toInt_le w⟩
  · rintro ⟨hmin, hmax⟩
    exact ⟨Int64.ofInt z, Int64.toInt_ofInt_of_le hmin (by omega)⟩

namespace Numeral

variable {base n : Nat} {cs : List Char} {text : String} {w : Word} {m : BitVec 128}

/-- **A text is read as a word** exactly when it is a spelling of its value. -/
theorem word?_eq_some_iff : word? text = some w ↔ Spells text.toList w.toInt := by
  rw [word?, Option.bind_eq_some_iff]
  simp only [integer?_eq_some_iff, Word.ofInt?_eq_some_iff]
  constructor
  · rintro ⟨z, hz, rfl⟩
    exact hz
  · exact fun h => ⟨_, h, rfl⟩

/-- **What is not read as a word** spells no value of a word. -/
theorem word?_eq_none_iff :
    word? text = none ↔ ¬∃ z, Spells text.toList z ∧ -2 ^ 63 ≤ z ∧ z ≤ 2 ^ 63 - 1 := by
  rw [Option.eq_none_iff_forall_ne_some]
  simp only [← Word.exists_toInt_eq_iff, ne_eq, word?_eq_some_iff]
  constructor
  · rintro h ⟨_, hz, w, rfl⟩
    exact h w hz
  · exact fun h w hw => h ⟨_, hw, w, rfl⟩

/-- The smallest word has spellings in both bases, and its negative is too large for a word. -/
example : word? "-0x8000000000000000" = some Int64.minValue ∧
    word? "-009223372036854775808" = some Int64.minValue ∧ word? "9223372036854775808" = none := by
  decide +kernel

/-! ### By way of a register -/

/-- A number in a register of 128 bits, when there is room for it. -/
def enter? (n : Nat) : Option (BitVec 128) :=
  if n < 2 ^ 127 then some (BitVec.ofNat 128 n) else none

/-- The value of a run of digits, read into a register one by one. A number that there is no
room for is refused as soon as it is met. -/
def digitsInRegister? (base : Nat) (digits : List Char) : Option (BitVec 128) :=
  if digits.isEmpty then none
  else
    digits.foldlM (fun value c => (digit? base c).bind fun d => enter? (value.toNat * base + d)) 0

/-- The value of a magnitude, read into a register. -/
def magnitudeInRegister? : List Char → Option (BitVec 128)
  | '0' :: 'x' :: digits => digitsInRegister? 16 digits
  | '0' :: 'X' :: digits => digitsInRegister? 16 digits
  | digits => digitsInRegister? 10 digits

/-- The word that a numeral stands for, when its magnitude is read into a register and negated
there. -/
def wordInRegister? (text : String) : Option Word :=
  match text.toList with
  | '-' :: rest => (magnitudeInRegister? rest).bind fun m => Word.ofInt? (-m).toInt
  | '+' :: rest => (magnitudeInRegister? rest).bind fun m => Word.ofInt? m.toInt
  | rest => (magnitudeInRegister? rest).bind fun m => Word.ofInt? m.toInt

theorem enter?_of_lt (h : n < 2 ^ 127) : enter? n = some (BitVec.ofNat 128 n) := if_pos h

theorem enter?_of_le (h : 2 ^ 127 ≤ n) : enter? n = none := if_neg (Nat.not_lt.mpr h)

/-- The value of digits is not below what was read before them. -/
theorem le_of_foldlM_digit? (hbase : 0 < base) {value : Nat}
    (h : cs.foldlM (fun value c => (digit? base c).map (value * base + ·)) value = some n) :
    value ≤ n := by
  obtain ⟨ds, -, rfl⟩ := foldlM_digit?_eq_some_iff.mp h
  exact (Nat.le_mul_of_pos_right value (Nat.pow_pos hbase)).trans (Nat.le_add_right _ _)

/-- **Reading digits into a register** is reading them and then looking for room: a number
that was too large stays too large. -/
theorem foldlM_enter? (hbase : 0 < base) {value : Nat} (hvalue : value < 2 ^ 127) :
    cs.foldlM (fun value c => (digit? base c).bind fun d => enter? (value.toNat * base + d))
        (BitVec.ofNat 128 value) =
      (cs.foldlM (fun value c => (digit? base c).map (value * base + ·)) value).bind enter? := by
  induction cs generalizing value with
  | nil => exact (if_pos hvalue).symm
  | cons c cs ih =>
    have htoNat : (BitVec.ofNat 128 value).toNat = value := by
      rw [BitVec.toNat_ofNat]
      omega
    rw [List.foldlM_cons, List.foldlM_cons, htoNat]
    cases digit? base c with
    | none => rfl
    | some d =>
      rw [Option.bind_some, Option.map_some]
      by_cases hroom : value * base + d < 2 ^ 127
      · rw [enter?_of_lt hroom]
        exact ih hroom
      · rw [enter?_of_le (Nat.not_lt.mp hroom)]
        symm
        refine Option.bind_eq_none_iff.mpr fun n hn => enter?_of_le ?_
        exact (Nat.not_lt.mp hroom).trans (le_of_foldlM_digit? hbase hn)

theorem digitsInRegister?_eq (hbase : 0 < base) :
    digitsInRegister? base cs = (digits? base cs).bind enter? := by
  rw [digitsInRegister?, digits?]
  split
  · rfl
  · exact foldlM_enter? hbase (by decide)

/-- **A magnitude is read into a register** as far as there is room for it. -/
theorem magnitudeInRegister?_eq : magnitudeInRegister? cs = (magnitude? cs).bind enter? := by
  unfold magnitudeInRegister?
  split
  case h_1 => exact digitsInRegister?_eq (Nat.succ_pos _)
  case h_2 => exact digitsInRegister?_eq (Nat.succ_pos _)
  case h_3 hsmall hcapital =>
    rw [magnitude?]
    · exact digitsInRegister?_eq (Nat.succ_pos _)
    · exact hsmall
    · exact hcapital

/-- **A magnitude in a register can be negated**: it is not negative, and the smallest number of
the register is the only one without a negative. -/
theorem negOverflow_of_enter? (h : enter? n = some m) :
    m.toInt = n ∧ m.negOverflow = false := by
  obtain ⟨hn, h⟩ := Option.ite_none_right_eq_some.mp h
  obtain rfl := Option.some.inj h
  have htoInt : (BitVec.ofNat 128 n).toInt = n := by
    rw [BitVec.toInt_eq_toNat_of_lt] <;> rw [BitVec.toNat_ofNat] <;> omega
  refine ⟨htoInt, ?_⟩
  rw [BitVec.negOverflow, htoInt, beq_eq_false_iff_ne]
  omega

/-- A number that is too large for the register is no value of a word, with either sign. -/
theorem ofInt?_eq_none {z : Int} (hn : 2 ^ 127 ≤ n) (hz : z = n ∨ z = -n) :
    Word.ofInt? z = none := by
  rw [Option.eq_none_iff_forall_ne_some]
  intro w hw
  obtain ⟨hmin, hmax⟩ := Word.exists_toInt_eq_iff.mp ⟨w, Word.ofInt?_eq_some_iff.mp hw⟩
  omega

/-- **A word is read by way of a register** as it is read without one. -/
theorem wordInRegister?_eq (text : String) : wordInRegister? text = word? text := by
  have hplus (n : Nat) :
      (enter? n).bind (fun m => Word.ofInt? m.toInt) = Word.ofInt? (n : Int) := by
    rcases Nat.lt_or_ge n (2 ^ 127) with hn | hn
    · have h := enter?_of_lt hn
      rw [h, Option.bind_some, (negOverflow_of_enter? h).1]
    · rw [enter?_of_le hn, ofInt?_eq_none hn (Or.inl rfl)]
      rfl
  have hminus (n : Nat) :
      (enter? n).bind (fun m => Word.ofInt? (-m).toInt) = Word.ofInt? (-(n : Int)) := by
    rcases Nat.lt_or_ge n (2 ^ 127) with hn | hn
    · have h := enter?_of_lt hn
      obtain ⟨htoInt, hneg⟩ := negOverflow_of_enter? h
      rw [h, Option.bind_some, BitVec.toInt_neg_of_not_negOverflow (by simp [hneg]), htoInt]
    · rw [enter?_of_le hn, ofInt?_eq_none hn (Or.inr rfl)]
      rfl
  unfold wordInRegister?
  rw [word?]
  split
  case h_1 rest h =>
    rw [h, integer?_minus, magnitudeInRegister?_eq, Option.bind_assoc, Option.bind_map]
    exact Option.bind_congr fun n _ => hminus n
  case h_2 rest h =>
    rw [h, integer?_plus, magnitudeInRegister?_eq, Option.bind_assoc, Option.bind_map]
    exact Option.bind_congr fun n _ => hplus n
  case h_3 hm hp =>
    rw [← not_exists] at hm hp
    rw [integer?_unsigned hm hp, magnitudeInRegister?_eq, Option.bind_assoc, Option.bind_map]
    exact Option.bind_congr fun n _ => hplus n

/-- **Reading a text as a word is exact.** -/
structure ReadsExactly (text : String) : Prop where
  /-- What is read are the spellings of the values of words. -/
  value : ∀ z : Int, (∃ w, word? text = some w ∧ w.toInt = z) ↔
    Spells text.toList z ∧ -2 ^ 63 ≤ z ∧ z ≤ 2 ^ 63 - 1
  /-- Nothing else is read. -/
  refused : word? text = none ↔ ¬∃ z, Spells text.toList z ∧ -2 ^ 63 ≤ z ∧ z ≤ 2 ^ 63 - 1
  /-- A register of 128 bits is enough. -/
  register : wordInRegister? text = word? text
  /-- No magnitude that was read into the register is without a negative in it. -/
  negation : ∀ cs m, magnitudeInRegister? cs = some m → m.negOverflow = false

theorem readsExactly (text : String) : ReadsExactly text := by
  refine ⟨fun z => ?_, word?_eq_none_iff, wordInRegister?_eq text, fun cs m hm => ?_⟩
  · rw [← Word.exists_toInt_eq_iff]
    constructor
    · rintro ⟨w, hw, rfl⟩
      exact ⟨word?_eq_some_iff.mp hw, w, rfl⟩
    · rintro ⟨hz, w, rfl⟩
      exact ⟨w, word?_eq_some_iff.mpr hz, rfl⟩
  · rw [magnitudeInRegister?_eq, Option.bind_eq_some_iff] at hm
    obtain ⟨n, -, hn⟩ := hm
    exact (negOverflow_of_enter? hn).2

end Numeral

end StackMachine
