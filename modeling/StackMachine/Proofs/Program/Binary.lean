import Mathlib.Data.Nat.Bitwise
import Mathlib.Tactic.Ring
import StackMachine.Program.Forms
import StackMachine.Proofs.Program.Basic

/-!
# Programs as bytes, and back

The bytes of a program are its words in base 256, eight digits each and the low ones
first. Nothing is lost on the way and nothing is added: every program can be read back
from its bytes, and every sequence of bytes that can be read is the bytes of the program
it was read as. So programs and the sequences of bytes whose number is a multiple of
eight are the same thing, `StackMachine.Program.ofBytes_eq_ok_iff`.

The two directions are not symmetric for numbers: a number that is too large for the
bytes loses what does not fit (`StackMachine.ofLittleEndian_littleEndian`), while bytes
never lose anything (`StackMachine.littleEndian_ofLittleEndian`). It is the bit pattern
of a word that is written, `StackMachine.Word.twosComplement`, and this always fits.

* `StackMachine.testBit_getElem?_littleEndian` – which bits a byte holds;
* `StackMachine.Program.wordsOfBytes_append` – reading takes up eight bytes at a time;
* `StackMachine.Program.bytesBijective` – all of it, for a program and for any bytes.
-/

namespace StackMachine

/-! ### The bytes of a number -/

variable {bytes rest : List UInt8} {count n i j k : Nat}

@[simp] theorem length_littleEndian (count n : Nat) : (littleEndian count n).length = count := by
  induction count generalizing n with
  | zero => rfl
  | succ count ih => rw [littleEndian, List.length_cons, ih]

/-- A number is read back up to what does not fit into the bytes. -/
theorem ofLittleEndian_littleEndian (count n : Nat) :
    ofLittleEndian (littleEndian count n) = n % 256 ^ count := by
  induction count generalizing n with
  | zero => simp [littleEndian, ofLittleEndian, Nat.mod_one]
  | succ count ih =>
    have hlow : (UInt8.ofNat n).toNat = n % 256 := UInt8.toNat_ofNat'
    rw [littleEndian, ofLittleEndian, ih, hlow, pow_succ', Nat.mod_mul]

theorem ofLittleEndian_lt (bytes : List UInt8) : ofLittleEndian bytes < 256 ^ bytes.length := by
  induction bytes with
  | nil => simp [ofLittleEndian]
  | cons b rest ih =>
    have hb : b.toNat < 256 := b.toNat_lt
    rw [ofLittleEndian, List.length_cons, pow_succ]
    omega

/-- **Bytes are written as they were read**, high bytes that are zero included. -/
theorem littleEndian_ofLittleEndian (bytes : List UInt8) :
    littleEndian bytes.length (ofLittleEndian bytes) = bytes := by
  induction bytes with
  | nil => rfl
  | cons b rest ih =>
    have hb : b.toNat < 256 := b.toNat_lt
    have hdiv : (b.toNat + 256 * ofLittleEndian rest) / 256 = ofLittleEndian rest := by omega
    have hlow : UInt8.ofNat (b.toNat + 256 * ofLittleEndian rest) = b := by
      rw [← UInt8.toNat_inj, UInt8.toNat_ofNat']
      omega
    rw [List.length_cons, ofLittleEndian, littleEndian, hdiv, hlow, ih]

theorem getElem?_littleEndian (h : j < count) :
    (littleEndian count n)[j]? = some (UInt8.ofNat (n / 256 ^ j)) := by
  induction count generalizing n j with
  | zero => omega
  | succ count ih =>
    rcases j with _ | j
    · rw [littleEndian, List.getElem?_cons_zero, pow_zero, Nat.div_one]
    · rw [littleEndian, List.getElem?_cons_succ, ih (by omega), Nat.div_div_eq_div_mul, pow_succ']

/-- **A byte holds eight bits of the number**, those from eight times its place on. -/
theorem testBit_getElem?_littleEndian (hj : j < count) :
    ∃ b, (littleEndian count n)[j]? = some b ∧
      ∀ k < 8, b.toNat.testBit k = n.testBit (8 * j + k) := by
  refine ⟨_, getElem?_littleEndian hj, fun k hk => ?_⟩
  have hbase : (256 : Nat) ^ j = 2 ^ (8 * j) := (pow_mul 2 8 j).symm
  rw [UInt8.toNat_ofNat', Nat.testBit_mod_two_pow, hbase, Nat.testBit_div_two_pow,
    decide_eq_true hk, Bool.true_and, Nat.add_comm]

/-! ### The bytes of a word -/

namespace Word

variable {w : Word}

/-- **The two's complement of a word**: its value, or what a negative one lacks to
`2 ^ 64`. -/
def twosComplement (w : Word) : Nat := (w.toInt % 2 ^ 64).toNat

/-- The bit pattern of a word is its two's complement. -/
theorem toNat_toUInt64 (w : Word) : w.toUInt64.toNat = w.twosComplement := by
  have hlt := w.toUInt64.toNat_lt
  have hmod : w.toInt % 2 ^ 64 = (w.toUInt64.toNat : Int) % 2 ^ 64 := by
    rw [← Int64.toInt_toBitVec, BitVec.toInt_eq_toNat_bmod, Int64.toNat_toBitVec]
    exact Int.bmod_emod
  rw [twosComplement, hmod]
  omega

@[simp] theorem length_toBytes (w : Word) : w.toBytes.length = 8 := length_littleEndian 8 _

/-- A word is read back from its bytes, since its bit pattern fits into them. -/
@[simp] theorem ofBytes_toBytes (w : Word) : ofBytes w.toBytes = w := by
  have hlt : w.toUInt64.toNat < 256 ^ byteCount := w.toUInt64.toNat_lt
  rw [ofBytes, toBytes, ofLittleEndian_littleEndian, Nat.mod_eq_of_lt hlt, UInt64.ofNat_toNat,
    Int64.toInt64_toUInt64]

/-- Eight bytes are the bytes of the word they are read as. -/
theorem toBytes_ofBytes (h : bytes.length = 8) : (ofBytes bytes).toBytes = bytes := by
  have hlt : ofLittleEndian bytes < UInt64.size := by
    have := ofLittleEndian_lt bytes
    rwa [h] at this
  rw [toBytes, ofBytes, UInt64.toUInt64_toInt64, UInt64.toNat_ofNat_of_lt' hlt, byteCount, ← h,
    littleEndian_ofLittleEndian]

end Word

/-! ### The bytes of a program -/

namespace Program

variable {p q : Program} {ws : List Word} {w : Word}

/-- **Reading takes up eight bytes**, and goes on with the rest. -/
theorem wordsOfBytes_append (h : bytes.length = 8) :
    wordsOfBytes (bytes ++ rest) = Word.ofBytes bytes :: wordsOfBytes rest := by
  match bytes, h with
  | [_, _, _, _, _, _, _, _], _ => rfl

/-- Words are read back from their bytes. -/
theorem wordsOfBytes_flatMap (ws : List Word) : wordsOfBytes (ws.flatMap Word.toBytes) = ws := by
  induction ws with
  | nil => rfl
  | cons w ws ih =>
    rw [List.flatMap_cons, wordsOfBytes_append w.length_toBytes, Word.ofBytes_toBytes, ih]

/-- Bytes are those of the words they are read as, if none is left over. -/
theorem flatMap_wordsOfBytes (h : 8 ∣ bytes.length) :
    (wordsOfBytes bytes).flatMap Word.toBytes = bytes := by
  obtain ⟨size, hsize⟩ := h
  induction size generalizing bytes with
  | zero =>
    obtain rfl := List.eq_nil_of_length_eq_zero hsize
    rfl
  | succ size ih =>
    have hfirst : (bytes.take 8).length = 8 := by
      rw [List.length_take]
      omega
    have hrest : (bytes.drop 8).length = 8 * size := by
      rw [List.length_drop]
      omega
    calc (wordsOfBytes bytes).flatMap Word.toBytes
        = (wordsOfBytes (bytes.take 8 ++ bytes.drop 8)).flatMap Word.toBytes := by
          rw [List.take_append_drop]
      _ = bytes.take 8 ++ bytes.drop 8 := by
          rw [wordsOfBytes_append hfirst, List.flatMap_cons, Word.toBytes_ofBytes hfirst, ih hrest]
      _ = bytes := List.take_append_drop 8 bytes

theorem length_flatMap_toBytes (ws : List Word) :
    (ws.flatMap Word.toBytes).length = 8 * ws.length := by
  induction ws with
  | nil => rfl
  | cons w ws ih =>
    rw [List.flatMap_cons, List.length_append, Word.length_toBytes, ih, List.length_cons]
    ring

theorem length_toBytes (p : Program) : p.toBytes.length = 8 * p.size := by
  rw [toBytes, length_flatMap_toBytes, length_toList]

/-- The bytes of a word begin eight times as far from the start as the word does. -/
theorem getElem?_flatMap_toBytes (hw : ws[i]? = some w) (hj : j < 8) :
    (ws.flatMap Word.toBytes)[8 * i + j]? = w.toBytes[j]? := by
  induction ws generalizing i with
  | nil => cases hw
  | cons v ws ih =>
    rw [List.flatMap_cons]
    rcases i with _ | i
    · obtain rfl : v = w := Option.some.inj hw
      rw [List.getElem?_append_left (by rw [Word.length_toBytes]; omega), Nat.mul_zero,
        Nat.zero_add]
    · have hle : v.toBytes.length ≤ 8 * (i + 1) + j := by
        rw [Word.length_toBytes]
        omega
      have hplace : 8 * (i + 1) + j - v.toBytes.length = 8 * i + j := by
        rw [Word.length_toBytes]
        omega
      rw [List.getElem?_append_right hle, hplace]
      exact ih hw

/-! ### Programs and bytes correspond -/

theorem ofBytes_of_dvd (h : 8 ∣ bytes.length) : ofBytes bytes = .ok (ofList (wordsOfBytes bytes)) :=
  if_pos (Nat.mod_eq_zero_of_dvd h)

theorem ofBytes_of_not_dvd (h : ¬8 ∣ bytes.length) :
    ofBytes bytes =
      .error (.undecodable ("length " ++ toString bytes.length ++
        " is not a multiple of 8 bytes")) := by
  have hmod : ¬bytes.length % Word.byteCount = 0 := fun hmod => h (Nat.dvd_of_mod_eq_zero hmod)
  have htext : " is not a multiple of " ++ (toString Word.byteCount ++ " bytes") =
      " is not a multiple of 8 bytes" := by decide
  rw [ofBytes, if_neg hmod, ← htext]
  simp only [toString, String.append_assoc]

/-- **Bytes are read as a program exactly when they are the bytes of the program.** -/
theorem ofBytes_eq_ok_iff : ofBytes bytes = .ok p ↔ bytes = p.toBytes := by
  by_cases h : 8 ∣ bytes.length
  · rw [ofBytes_of_dvd h, Except.ok.injEq, ofList_eq_iff]
    constructor
    · intro hwords
      rw [toBytes, ← hwords, flatMap_wordsOfBytes h]
    · rintro rfl
      exact wordsOfBytes_flatMap p.toList
  · rw [ofBytes_of_not_dvd h]
    constructor
    · rintro ⟨⟩
    · rintro rfl
      exact absurd ⟨p.size, p.length_toBytes⟩ h

/-- **Programs and their bytes determine each other.** -/
structure BytesBijective (p : Program) (bytes : List UInt8) : Prop where
  /-- A program is read back from its bytes. -/
  readBack : ofBytes p.toBytes = .ok p
  /-- There are eight bytes for every word. -/
  length : p.toBytes.length = 8 * p.size
  /-- The byte `j` of the word `i` holds the bits of its two's complement from `8 * j` on. -/
  layout : ∀ i w, p.get? i = some w → ∀ j < 8, ∃ b, p.toBytes[8 * i + j]? = some b ∧
    ∀ k < 8, b.toNat.testBit k = w.twosComplement.testBit (8 * j + k)
  /-- Bytes are a program exactly when their number is a multiple of eight. -/
  readable_iff : (∃ q, ofBytes bytes = .ok q) ↔ 8 ∣ bytes.length
  /-- Other bytes are refused, and the refusal tells their number. -/
  refused : ¬8 ∣ bytes.length → ofBytes bytes =
    .error (.undecodable ("length " ++ toString bytes.length ++ " is not a multiple of 8 bytes"))
  /-- Bytes that are a program are the bytes of that program. -/
  writtenBack : ∀ q, ofBytes bytes = .ok q → q.toBytes = bytes

/-- **The form of programs as bytes is a bijection** onto the sequences of bytes whose number
is a multiple of eight, whatever the words and whatever the bytes. -/
theorem bytesBijective (p : Program) (bytes : List UInt8) : p.BytesBijective bytes where
  readBack := ofBytes_eq_ok_iff.mpr rfl
  length := p.length_toBytes
  layout i w hw j hj := by
    rw [← getElem?_toList] at hw
    obtain ⟨b, hb, hbits⟩ := testBit_getElem?_littleEndian (n := w.toUInt64.toNat) hj
    refine ⟨b, (getElem?_flatMap_toBytes hw hj).trans hb, fun k hk => ?_⟩
    rw [hbits k hk, Word.toNat_toUInt64]
  readable_iff := by
    constructor
    · rintro ⟨q, hq⟩
      rw [ofBytes_eq_ok_iff.mp hq]
      exact ⟨q.size, q.length_toBytes⟩
    · exact fun h => ⟨_, ofBytes_of_dvd h⟩
  refused := ofBytes_of_not_dvd
  writtenBack q hq := (ofBytes_eq_ok_iff.mp hq).symm

/-- The sign of a word is in its last byte, and the rest of minus two is all ones. -/
example : (ofList [0x0101, -2]).toBytes =
    [0x01, 0x01, 0, 0, 0, 0, 0, 0, 0xFE, 0xFF, 0xFF, 0xFF, 0xFF, 0xFF, 0xFF, 0xFF] := by
  decide

end Program

end StackMachine
