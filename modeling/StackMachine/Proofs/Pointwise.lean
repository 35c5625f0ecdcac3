import Mathlib.Data.List.Forall2

/-!
# Lists, element by element

A computation on all elements of a list that may fail succeeds exactly when it succeeds on
each of them, and then its values are related to the elements one by one. This is the
relation `List.Forall₂` between lists, so what has to be said about the values of such a
computation – how many there are, and which one is at a place – is said of the relation.
-/

/-- **Two computations in a row succeed exactly when both do.** -/
theorem Except.bind_eq_ok_iff {ε α β : Type} {x : Except ε α} {f : α → Except ε β} {b : β} :
    x >>= f = .ok b ↔ ∃ a, x = .ok a ∧ f a = .ok b := by
  cases x with
  | error e =>
    constructor
    · intro h
      cases h
    · rintro ⟨a, ha, -⟩
      cases ha
  | ok a =>
    constructor
    · exact fun h => ⟨a, rfl, h⟩
    · rintro ⟨a', ha, h⟩
      cases ha
      exact h

/-- **Two computations in a row fail exactly when the first does, or else the second.** -/
theorem Except.bind_eq_error_iff {ε α β : Type} {x : Except ε α} {f : α → Except ε β} {e : ε} :
    x >>= f = .error e ↔ x = .error e ∨ ∃ a, x = .ok a ∧ f a = .error e := by
  cases x with
  | error e' =>
    constructor
    · intro h
      cases h
      exact Or.inl rfl
    · rintro (h | ⟨a, ⟨⟩, -⟩)
      cases h
      rfl
  | ok a =>
    constructor
    · exact fun h => Or.inr ⟨a, rfl, h⟩
    · rintro (⟨⟨⟩⟩ | ⟨a', ha, h⟩)
      cases ha
      exact h

theorem Except.map_eq_ok_iff {ε α β : Type} {x : Except ε α} {f : α → β} {b : β} :
    x.map f = .ok b ↔ ∃ a, x = .ok a ∧ f a = b := by
  cases x <;> simp [Except.map]

theorem Except.map_eq_error_iff {ε α β : Type} {x : Except ε α} {f : α → β} {e : ε} :
    x.map f = .error e ↔ x = .error e := by
  cases x <;> simp [Except.map]

/-- **Two computations agree**: both succeed, with related values, or both fail, with related
errors. -/
inductive Except.Agree {ε ε' α β : Type} (E : ε → ε' → Prop) (R : α → β → Prop) :
    Except ε α → Except ε' β → Prop
  | ok {a : α} {b : β} : R a b → Agree E R (.ok a) (.ok b)
  | error {e : ε} {e' : ε'} : E e e' → Agree E R (.error e) (.error e')

/-- **Computations that agree go on to agree** when all that follows does. -/
theorem Except.Agree.bind {ε ε' α α' β β' : Type} {E : ε → ε' → Prop} {R : α → α' → Prop}
    {S : β → β' → Prop} {x : Except ε α} {y : Except ε' α'} {f : α → Except ε β}
    {g : α' → Except ε' β'} (h : Agree E R x y) (hfg : ∀ a b, R a b → Agree E S (f a) (g b)) :
    Agree E S (x >>= f) (y >>= g) := by
  cases h with
  | ok h => exact hfg _ _ h
  | error h => exact .error h

/-- A check that throws is passed when its condition does not hold. -/
theorem Except.guard_eq_ok_iff {ε α : Type} {c : Prop} [Decidable c] {e : ε} {x : Except ε α}
    {a : α} :
    (if c then (throw e : Except ε PUnit) >>= fun _ => x else x) = .ok a ↔ ¬c ∧ x = .ok a := by
  by_cases h : c
  · rw [if_pos h]
    exact iff_of_false (by rintro ⟨⟩) fun hx => hx.1 h
  · rw [if_neg h]
    exact ⟨fun hx => ⟨h, hx⟩, And.right⟩

namespace List

/-- What is found in a table is one of its entries. -/
theorem mem_of_lookup_eq_some {α β : Type} [BEq α] [LawfulBEq α] {entries : List (α × β)} {a : α}
    {b : β} (h : entries.lookup a = some b) : (a, b) ∈ entries := by
  obtain ⟨before, after, hsplit, -⟩ := lookup_eq_some_iff.mp h
  simp [hsplit]

/-- One element more of a sequence with gaps. -/
theorem filterMap_range_succ {α : Type} (f : Nat → Option α) (n : Nat) :
    (range (n + 1)).filterMap f = (range n).filterMap f ++ (f n).toList := by
  rw [range_succ, filterMap_append]
  rcases h : f n with _ | a <;> simp [h]

section Forall₂

variable {α β γ : Type} {R : α → β → Prop} {x : α} {y : β} {xs : List α} {ys : List β}

/-- There is a partner for a list when there is one for each element. -/
theorem exists_forall₂_iff : (∃ ys, Forall₂ R xs ys) ↔ ∀ x ∈ xs, ∃ y, R x y := by
  induction xs with
  | nil => simp
  | cons x xs ih =>
    rw [forall_mem_cons, ← ih]
    constructor
    · rintro ⟨_, _ | ⟨h, hs⟩⟩
      exact ⟨⟨_, h⟩, _, hs⟩
    · rintro ⟨⟨y, h⟩, ys, hs⟩
      exact ⟨y :: ys, .cons h hs⟩

/-- **Every element has its partner, at the same place.** -/
theorem Forall₂.exists_getElem? (h : Forall₂ R xs ys) {i : Nat} (hx : xs[i]? = some x) :
    ∃ y, R x y ∧ ys[i]? = some y := by
  induction h generalizing i with
  | nil => simp at hx
  | cons hxy _ ih =>
    cases i with
    | zero =>
      cases hx
      exact ⟨_, hxy, rfl⟩
    | succ i => exact ih hx

/-- Every partner is the partner of an element. -/
theorem Forall₂.exists_of_mem_right (h : Forall₂ R xs ys) (hy : y ∈ ys) : ∃ x ∈ xs, R x y := by
  obtain ⟨i, hi⟩ := List.mem_iff_getElem?.mp hy
  obtain ⟨x, hxy, hx⟩ := h.flip.exists_getElem? hi
  exact ⟨x, List.mem_of_getElem? hx, hxy⟩

theorem forall₂_replicate (n : Nat) (h : R x y) : Forall₂ R (replicate n x) (replicate n y) := by
  induction n with
  | zero => exact .nil
  | succ n ih => exact .cons h ih

theorem flatMap_eq_of_forall₂ {f : α → List γ} {g : β → List γ} (h : Forall₂ R xs ys)
    (hfg : ∀ x y, R x y → f x = g y) : xs.flatMap f = ys.flatMap g := by
  induction h with
  | nil => rfl
  | cons hxy _ ih => rw [flatMap_cons, flatMap_cons, hfg _ _ hxy, ih]

end Forall₂

section mapM

variable {ε α β : Type} {f : α → Except ε β} {x : α} {xs : List α} {ys : List β}

theorem mapM_nil_eq_ok_iff : ([] : List α).mapM f = .ok ys ↔ ys = [] := by
  rw [List.mapM_nil]
  exact ⟨fun h => by cases h; rfl, fun h => by rw [h]; rfl⟩

theorem mapM_cons_eq_ok_iff :
    (x :: xs).mapM f = .ok ys ↔ ∃ z zs, f x = .ok z ∧ xs.mapM f = .ok zs ∧ ys = z :: zs := by
  rw [List.mapM_cons, Except.bind_eq_ok_iff]
  refine exists_congr fun z => ?_
  rw [Except.bind_eq_ok_iff]
  constructor
  · rintro ⟨hz, zs, hzs, h⟩
    cases h
    exact ⟨zs, hz, hzs, rfl⟩
  · rintro ⟨zs, hz, hzs, rfl⟩
    exact ⟨hz, zs, hzs, rfl⟩

/-- **A computation on all elements succeeds when it succeeds on each of them.** -/
theorem mapM_eq_ok_iff : xs.mapM f = .ok ys ↔ Forall₂ (fun x y => f x = .ok y) xs ys := by
  induction xs generalizing ys with
  | nil => rw [mapM_nil_eq_ok_iff, forall₂_nil_left_iff]
  | cons x xs ih =>
    rw [mapM_cons_eq_ok_iff, forall₂_cons_left_iff]
    simp only [ih]

/-- **A computation on all elements fails the way it fails on one of them first.** -/
theorem mapM_eq_error_iff {e : ε} :
    xs.mapM f = .error e ↔ ∃ before x after, xs = before ++ x :: after ∧
      (∀ y ∈ before, ∃ b, f y = .ok b) ∧ f x = .error e := by
  induction xs with
  | nil =>
    rw [List.mapM_nil]
    exact iff_of_false (by rintro ⟨⟩) (by simp)
  | cons x xs ih =>
    rw [List.mapM_cons, Except.bind_eq_error_iff]
    simp only [Except.bind_eq_error_iff, ih]
    constructor
    · rintro (h | ⟨b, hb, ⟨before, y, after, rfl, hbefore, hy⟩ | ⟨_, -, ⟨⟩⟩⟩)
      · exact ⟨[], x, xs, rfl, by simp, h⟩
      · exact ⟨x :: before, y, after, rfl, List.forall_mem_cons.mpr ⟨⟨b, hb⟩, hbefore⟩, hy⟩
    · rintro ⟨_ | ⟨x', before⟩, y, after, h, hbefore, hy⟩
      · cases h
        exact Or.inl hy
      · cases h
        obtain ⟨⟨b, hb⟩, hbefore⟩ := List.forall_mem_cons.mp hbefore
        exact Or.inr ⟨b, hb, Or.inl ⟨before, y, after, rfl, hbefore, hy⟩⟩

/-- **Computations on all elements agree** when they do on elements that are related. -/
theorem agree_mapM {ε' α' β' : Type} {E : ε → ε' → Prop} {R : α → α' → Prop} {S : β → β' → Prop}
    {g : α' → Except ε' β'} {xs' : List α'} (h : Forall₂ R xs xs')
    (hfg : ∀ x y, R x y → Except.Agree E S (f x) (g y)) :
    Except.Agree E (Forall₂ S) (xs.mapM f) (xs'.mapM g) := by
  induction h with
  | nil => exact .ok .nil
  | cons hxy _ ih =>
    rw [List.mapM_cons, List.mapM_cons]
    exact (hfg _ _ hxy).bind fun _ _ hz => ih.bind fun _ _ hzs => .ok (.cons hz hzs)

/-- A computation on all elements of several lists, one list after the other. -/
theorem mapM_flatMap {γ : Type} (g : γ → List α) (zs : List γ) :
    (zs.flatMap g).mapM f = (zs.mapM fun z => (g z).mapM f).map List.flatten := by
  induction zs with
  | nil => rfl
  | cons z zs ih =>
    rw [List.flatMap_cons, List.mapM_append, List.mapM_cons, ih]
    cases (g z).mapM f with
    | error e => rfl
    | ok ys => cases zs.mapM fun z => (g z).mapM f <;> rfl

end mapM

end List
