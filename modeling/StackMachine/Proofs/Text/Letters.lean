/-!
# Letters and their case

Mnemonics are recognized in capitals and the directive for raw words in small letters, and
in both cases it is the ASCII letters alone that may be written either way. The two
conversions do not undo each other, but each forgets what the other has done: so texts that
are the same in small letters are the same in capitals, and there is one relation between
texts, `StackMachine.Text.SameLetters`, that says that they differ in the case of letters
at most.
-/

/-! ### Characters -/

namespace Char

/-- The capitals are the code points from 65 to 90. -/
theorem toNat_toLower (c : Char) :
    c.toLower.toNat = if 65 ≤ c.toNat ∧ c.toNat ≤ 90 then c.toNat + 32 else c.toNat := by
  have hcapital : ('A'.val ≤ c.val ∧ c.val ≤ 'Z'.val) ↔ 65 ≤ c.toNat ∧ c.toNat ≤ 90 := Iff.rfl
  unfold toLower
  by_cases h : 65 ≤ c.toNat ∧ c.toNat ≤ 90
  · have hlt : c.val.toNat + (32 : UInt32).toNat < 2 ^ 32 := by
      change c.toNat + 32 < _
      omega
    rw [dif_pos (hcapital.mpr h), if_pos h]
    exact (UInt32.toNat_add _ _).trans (Nat.mod_eq_of_lt hlt)
  · rw [dif_neg (fun h' => h (hcapital.mp h')), if_neg h]

/-- The small letters are the code points from 97 to 122. -/
theorem toNat_toUpper (c : Char) :
    c.toUpper.toNat = if 97 ≤ c.toNat ∧ c.toNat ≤ 122 then c.toNat - 32 else c.toNat := by
  have hsmall : ('a'.val ≤ c.val ∧ c.val ≤ 'z'.val) ↔ 97 ≤ c.toNat ∧ c.toNat ≤ 122 := Iff.rfl
  unfold toUpper
  by_cases h : 97 ≤ c.toNat ∧ c.toNat ≤ 122
  · -- The distance between the cases is subtracted by adding its complement.
    have hsub : ('A'.val - 'a'.val).toNat = 2 ^ 32 - 32 := rfl
    have hc : c.val.toNat = c.toNat := rfl
    rw [dif_pos (hsmall.mpr h), if_pos h]
    change (c.val + ('A'.val - 'a'.val)).toNat = _
    rw [UInt32.toNat_add, hsub, hc]
    omega
  · rw [dif_neg (fun h' => h (hsmall.mp h')), if_neg h]

/-- What becomes a character that is no small letter was this character before. -/
theorem eq_of_toLower_eq {c d : Char} (h : c.toLower = d) (hd : ¬(97 ≤ d.toNat ∧ d.toNat ≤ 122)) :
    c = d := by
  have hnat := congrArg toNat h
  rw [toNat_toLower] at hnat
  apply toNat_inj.mp
  split at hnat <;> omega

theorem toLower_toUpper (c : Char) : c.toUpper.toLower = c.toLower := by
  apply toNat_inj.mp
  rw [toNat_toLower, toNat_toLower, toNat_toUpper]
  grind

theorem toUpper_toLower (c : Char) : c.toLower.toUpper = c.toUpper := by
  apply toNat_inj.mp
  rw [toNat_toUpper, toNat_toUpper, toNat_toLower]
  grind

end Char

namespace StackMachine

/-! ### Texts -/

namespace Text

/-- **The same text but for the case of ASCII letters.** -/
def SameLetters (a b : String) : Prop := a.toList.map Char.toLower = b.toList.map Char.toLower

instance (a b : String) : Decidable (SameLetters a b) := inferInstanceAs (Decidable (_ = _))

/-- Capitals tell the same texts apart as small letters. -/
theorem sameLetters_iff {a b : String} :
    SameLetters a b ↔ a.toList.map Char.toUpper = b.toList.map Char.toUpper := by
  constructor
  · intro h
    have hupper := congrArg (List.map Char.toUpper) h
    simpa only [List.map_map, Function.comp_def, Char.toUpper_toLower] using hupper
  · intro h
    have hlower := congrArg (List.map Char.toLower) h
    rw [SameLetters]
    simpa only [List.map_map, Function.comp_def, Char.toLower_toUpper] using hlower

end Text

end StackMachine
