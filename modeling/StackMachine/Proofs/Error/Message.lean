import StackMachine.Error
import StackMachine.Proofs.Program.Text

/-!
# Errors that are read back from their messages

What a run came to is often known from a log only, where an error is a text. Nothing is lost by
that: the text of a fault tells the kind of the fault and all that it carries, and so does the
text with which a second run is refused.

The reason is that a message is a row of words with blanks between them, and that whatever an
error carries is put down as a numeral, which is one word without any blank in it. So a message
can be cut at its blanks again, and two that are equal have the same words
(`StackMachine.Error.Worded.words_eq`). The words that are no numerals differ between any two
kinds, and a numeral has one value. For a number in decimal this is nothing new; the text of a
bit pattern, with its zeros in front and without a sign, is a numeral as well, and its value is
that of the pattern (`StackMachine.Numeral.integer?_hex`).

The other errors are left out, and have to be: they carry texts from the source, and a text may
contain anything.
-/

namespace StackMachine

/-! ### Bit patterns -/

namespace Numeral

/-- The digits of a number in base 16 are read as the number. -/
theorem foldlM_toDigits (n : Nat) :
    (Nat.toDigits 16 n).foldlM (fun value c => (digit? 16 c).map (value * 16 + ·)) 0 = some n := by
  have hdigit : ∀ d < 16, digit? 16 (Nat.digitChar d) = some d := by decide
  induction n using Nat.strongRecOn with
  | ind n ih =>
    rw [Nat.toDigits_eq_if (by decide)]
    split
    case isTrue hn => simp [hdigit n hn]
    case isFalse hn =>
      have hlast := hdigit (n % 16) (Nat.mod_lt n (by decide))
      rw [List.foldlM_append, ih (n / 16) (by omega), Option.bind_eq_bind, Option.bind_some,
        List.foldlM_cons, hlast]
      change some (n / 16 * 16 + n % 16) = some n
      rw [Nat.div_add_mod' n 16]

/-- Zeros in front change nothing. -/
theorem foldlM_leftpad (base width : Nat) (hbase : 0 < base) (cs : List Char) :
    (cs.leftpad width '0').foldlM (fun value c => (digit? base c).map (value * base + ·)) 0 =
      cs.foldlM (fun value c => (digit? base c).map (value * base + ·)) 0 := by
  have hzero : digit? base '0' = some 0 := by simp [digit?, digitValue?, hbase]
  rw [List.leftpad]
  induction width - cs.length with
  | zero => rfl
  | succ k ih =>
    rw [List.replicate_succ, List.cons_append, List.foldlM_cons, hzero]
    simpa using ih

/-- **The text of a bit pattern is a numeral**, worth what the pattern is without a sign. -/
theorem integer?_hex (w : Word) : integer? w.hex.toList = some (w.toUInt64.toNat : Int) := by
  have hdigits : digits? 16 ((Nat.toDigits 16 w.toUInt64.toNat).leftpad 4 '0') =
      some w.toUInt64.toNat := by
    rw [digits?, if_neg (by simp [List.leftpad, Nat.toDigits_ne_nil]),
      foldlM_leftpad _ _ (by decide), foldlM_toDigits]
  have hhex : w.hex.toList =
      '0' :: 'x' :: (Nat.toDigits 16 w.toUInt64.toNat).leftpad 4 '0' := by
    simp [Word.hex]
  rw [hhex, integer?_unsigned (by rintro ⟨_, ⟨⟩⟩) (by rintro ⟨_, ⟨⟩⟩), magnitude?, hdigits,
    Option.map_some]

/-- A numeral is a word without a blank. -/
theorem blank_not_mem {cs : List Char} {z : Int} (h : integer? cs = some z) : ' ' ∉ cs := by
  intro hblank
  exact absurd ((integer?_eq_some_iff.mp h).isWord.isSeparator ' ' hblank) (by decide)

end Numeral

/-- **A word is known from its bit pattern**, also when zeros are put in front of it. -/
@[simp] theorem Word.hex_inj {v w : Word} : v.hex = w.hex ↔ v = w := by
  refine ⟨fun h => ?_, fun h => h ▸ rfl⟩
  have hvalue := Numeral.integer?_hex v
  rw [h, Numeral.integer?_hex, Option.some.injEq, Int.natCast_inj, UInt64.toNat_inj] at hvalue
  rw [← v.toInt64_toUInt64, ← hvalue, Int64.toInt64_toUInt64]

/-! ### Messages in words -/

namespace Error

variable {e e' : Error} {ws ws' : List String}

/-- **The words of a message**, for the faults and the refusal to run twice. -/
inductive Worded : Error → List String → Prop
  | underflow (ip : Nat) :
    Worded (.stackUnderflow ip) ["stack", "underflow", "at", "ip", toString ip]
  | overflow (ip capacity : Nat) :
    Worded (.stackOverflow ip capacity)
      ["stack", "overflow", "at", "ip", toString ip, "(capacity", toString capacity ++ ")"]
  | zeroDivisor (ip : Nat) :
    Worded (.divisionByZero ip) ["division", "by", "zero", "at", "ip", toString ip]
  | comparison (opcode : Word) (ip : Nat) :
    Worded (.unknownComparison opcode ip)
      ["unknown", "comparison", "operator", opcode.hex, "at", "ip", toString ip]
  | pointer (target : Int) :
    Worded (.invalidPointer target) ["invalid", "instruction", "pointer", toString target]
  | budget (limit : Nat) :
    Worded (.stepLimitExceeded limit)
      ["step", "limit", "of", toString limit, "instructions", "exceeded"]
  | again : Worded .alreadyRun ["executor", "has", "already", "run"]

theorem exists_worded (h : e.isFault = true ∨ e = .alreadyRun) : ∃ ws, e.Worded ws := by
  rcases h with h | rfl
  · cases e with
    | stackUnderflow => exact ⟨_, .underflow _⟩
    | stackOverflow => exact ⟨_, .overflow _ _⟩
    | divisionByZero => exact ⟨_, .zeroDivisor _⟩
    | unknownComparison => exact ⟨_, .comparison _ _⟩
    | invalidPointer => exact ⟨_, .pointer _⟩
    | stepLimitExceeded => exact ⟨_, .budget _⟩
    | _ => cases h
  · exact ⟨_, .again⟩

/-- A message is its words, with blanks between them. -/
theorem Worded.message_eq (h : e.Worded ws) :
    e.message.toList = [' '].intercalate (ws.map String.toList) := by
  have hself (s : String) : toString s = s := rfl
  cases h <;> rw [message.eq_def] <;> simp [hself]

/-- There is no blank in a word. -/
theorem Worded.blank_not_mem (h : e.Worded ws) : ∀ w ∈ ws, ' ' ∉ w.toList := by
  have hint (z : Int) : ' ' ∉ z.repr.toList := Numeral.blank_not_mem (Numeral.integer?_toString z)
  have hnat (n : Nat) : ' ' ∉ Nat.toDigits 10 n := by
    rw [← Numeral.toList_toString_ofNat]
    exact hint n
  have hhex (w : Word) : ' ' ∉ w.hex.toList := Numeral.blank_not_mem (Numeral.integer?_hex w)
  cases h <;> simp [hnat, hint, hhex]

/-- **Messages that are equal have the same words.** -/
theorem Worded.words_eq (h : e.Worded ws) (h' : e'.Worded ws') (heq : e.message = e'.message) :
    ws = ws' := by
  have hcut {e : Error} {ws : List String} (h : e.Worded ws) :
      e.message.toList.splitOn ' ' = ws.map String.toList := by
    rw [h.message_eq]
    refine List.splitOn_intercalate ' ' (fun l hl => ?_) (by cases h <;> simp)
    obtain ⟨w, hw, rfl⟩ := List.mem_map.mp hl
    exact h.blank_not_mem w hw
  have hmap : ws.map String.toList = ws'.map String.toList := by rw [← hcut h, ← hcut h', heq]
  exact List.map_injective_iff.mpr (fun _ _ => String.toList_injective) hmap

/-- **The words of a message tell the error.** -/
theorem Worded.eq_of_words_eq (h : e.Worded ws) (h' : e'.Worded ws') (hws : ws = ws') :
    e = e' := by
  -- Two kinds differ in a word that is no numeral, and two errors of a kind in a numeral.
  cases h <;> cases h' <;> simp_all

/-- **A fault can be read back from its message**, whatever it carries, and so can the refusal
to run twice. -/
theorem message_eq_iff (h : e.isFault = true ∨ e = .alreadyRun)
    (h' : e'.isFault = true ∨ e' = .alreadyRun) : e.message = e'.message ↔ e = e' := by
  obtain ⟨ws, hws⟩ := exists_worded h
  obtain ⟨ws', hws'⟩ := exists_worded h'
  exact ⟨fun heq => hws.eq_of_words_eq hws' (hws.words_eq hws' heq), fun heq => heq ▸ rfl⟩

/-- Two patterns of the same digits, of which one is longer than the width that the other is
filled up to. -/
theorem message_eq_iff_patterns :
    let e := unknownComparison (-1) 5
    let e' := unknownComparison 0xffff 5
    (e.isFault = true ∨ e = .alreadyRun) ∧ (e'.isFault = true ∨ e' = .alreadyRun) ∧
      e.message = "unknown comparison operator 0xffffffffffffffff at ip 5" ∧
      e'.message = "unknown comparison operator 0xffff at ip 5" ∧
      (e.message = e'.message ↔ e = e') := by
  intro e e'
  have he : e.isFault = true ∨ e = .alreadyRun := Or.inl rfl
  have he' : e'.isFault = true ∨ e' = .alreadyRun := Or.inl rfl
  exact ⟨he, he', by decide +kernel, by decide +kernel, message_eq_iff he he'⟩

end Error

end StackMachine
