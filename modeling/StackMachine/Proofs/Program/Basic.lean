import StackMachine.Program.Basic

/-!
# Programs as lists

A program is an array, since it is read at addresses; what is said about it is easier to
say of the list of its words. The two are the same thing.
-/

namespace StackMachine

namespace Program

variable (p : Program) (words : List Word)

@[simp] theorem toList_ofList : (ofList words).toList = words := by
  simp [ofList, toList]

@[simp] theorem ofList_toList : ofList p.toList = p :=
  rfl

theorem length_toList : p.toList.length = p.size := by
  simp [toList, size]

theorem getElem?_toList (address : Nat) : p.toList[address]? = p.get? address := by
  simp [toList, get?]

theorem ofList_eq_iff : ofList words = p ↔ words = p.toList := by
  constructor
  · rintro rfl
    exact (toList_ofList words).symm
  · rintro rfl
    exact ofList_toList p

/-- An address is inside the program exactly when there is a word at it. -/
theorem get?_eq_none_iff {p : Program} {address : Nat} :
    p.get? address = none ↔ p.size ≤ address := by
  simp [get?, size]

theorem lt_size_of_get? {p : Program} {address : Nat} {w : Word} (h : p.get? address = some w) :
    address < p.size := by
  refine Nat.lt_of_not_le fun hle => ?_
  rw [get?_eq_none_iff.mpr hle] at h
  cases h

/-- Words that are added at the end leave the words of the program where they are. -/
theorem get?_append_of_lt {p : Program} {address : Nat} (h : address < p.size)
    (extra : List Word) : (ofList (p.toList ++ extra)).get? address = p.get? address := by
  rw [← length_toList] at h
  rw [← getElem?_toList, ← getElem?_toList, toList_ofList, List.getElem?_append_left h]

end Program

end StackMachine
