import StackMachine.Proofs.Assembly.Findings

/-!
# Where the errors of the assembler point

What the assembler reports carries the place of a token: the number of its line, and its
column, counted in characters. There is exactly one token of the text at that place, and it is
the one that the message is about (`StackMachine.Assembly.exists_explains_at`).

Neither coordinate is looked at on the way. The place is that of the token that was found
wrong, and this token is one of those that the text is taken apart into, so it stands in the
text wherever the scanner says it does. What is left is that no two tokens stand at one place.
-/

namespace StackMachine

namespace Assembly

variable {source : String} {e : Error} {s : Spot} {line column : Nat}

/-! ### The place of an error -/

/-- The place that an error carries, if it carries a line and a column. -/
def place? : Error → Option (Nat × Nat)
  | .malformedToken line column _ => some (line, column)
  | .badStatement line column _ => some (line, column)
  | _ => none

/-- **An error is about a token**: it carries the place of the token, or at least the line,
and what it says of the token is so. -/
inductive Explains : Error → Spot → Prop
  | name {line : Nat} {t : Token} {name : String} : t.text = name ++ ":" →
      Explains (.malformedToken line t.column ("invalid label name `" ++ name ++ "`")) ⟨line, t⟩
  | duplicate {line : Nat} {t : Token} {name : String} : t.text = name ++ ":" →
      Explains (.duplicateLabel line name) ⟨line, t⟩
  | mnemonic {line : Nat} {t : Token} :
      Explains (.badStatement line t.column ("invalid instruction name: " ++ t.text)) ⟨line, t⟩
  | count {line : Nat} {t : Token} {h : Head} {count : Nat} : Text.SameLetters t.text h.name →
      Explains (.badStatement line t.column
        (h.name ++ " expects " ++ toString h.arity ++ " operand(s), got " ++ toString count))
        ⟨line, t⟩
  | undefined {line : Nat} {t : Token} {name : String} : t.text = "@" ++ name →
      Explains (.undefinedLabel line name) ⟨line, t⟩
  | numeral {line : Nat} {t : Token} :
      Explains (.malformedToken line t.column ("invalid integer `" ++ t.text ++ "`")) ⟨line, t⟩

theorem Explains.place_eq (h : Explains e s) (hplace : place? e = some (line, column)) :
    s.line = line ∧ s.token.column = column := by
  cases h <;> cases hplace <;> exact ⟨rfl, rfl⟩

/-- What is wrong with a token is about that token. -/
theorem Wrong.explains {earlier : List Site} {site : Site} (h : Wrong earlier site e) :
    Explains e site.toSpot := by
  cases h with
  | name htext _ => exact .name htext
  | duplicate htext _ _ => exact .duplicate htext
  | mnemonic _ => exact .mnemonic
  | count hname _ => exact .count hname
  | undefined htext _ => exact .undefined htext
  | numeral _ _ => exact .numeral

/-! ### The tokens that are looked at -/

theorem mem_spots_of_mem_outline {l : Line} {site : Site} (h : site ∈ l.outline) :
    site.toSpot ∈ l.spots := by
  rw [Line.spots, List.map_append, List.mem_append]
  rcases List.mem_append.mp h with h | h
  · obtain ⟨d, hd, rfl⟩ := List.mem_map.mp h
    exact Or.inl (List.mem_map_of_mem (List.mem_map_of_mem hd))
  · obtain ⟨number, labels, _ | ⟨t, rest⟩⟩ := l
    · cases h
    · obtain rfl := List.mem_singleton.mp h
      exact Or.inr List.mem_cons_self

theorem mem_spots_of_mem_operands {l : Line} {site : Site} (h : site ∈ l.operands) :
    site.toSpot ∈ l.spots := by
  obtain ⟨t, ht, rfl⟩ := List.mem_map.mp h
  exact List.mem_map_of_mem (List.mem_append_right _ (List.mem_of_mem_tail ht))

/-- **The sites of a text are tokens of that text.** -/
theorem standsIn_of_mem {site : Site} (h : site ∈ outline source ++ operands source) :
    site.toSpot.StandsIn source := by
  have hapart : IsApart source (Line.ofSource source) := isApart_ofSource
  rw [← hapart.tokens.mem_iff, List.mem_flatMap]
  rcases List.mem_append.mp h with h | h
  · obtain ⟨l, hl, hsite⟩ := List.mem_flatMap.mp h
    exact ⟨l, hl, mem_spots_of_mem_outline hsite⟩
  · obtain ⟨l, hl, hsite⟩ := List.mem_flatMap.mp h
    exact ⟨l, hl, mem_spots_of_mem_operands hsite⟩

/-- **What the assembler reports is about a token of the text.** -/
theorem exists_explains (h : assemble source = .error e) :
    ∃ s : Spot, s.StandsIn source ∧ Explains e s := by
  obtain ⟨before, site, after, hsites, -, hwrong⟩ := (checks_assemble e).mp h
  have hmem : site ∈ outline source ++ operands source := by simp [hsites]
  exact ⟨site.toSpot, standsIn_of_mem hmem, hwrong.explains⟩

/-! ### The token at a place -/

/-- **The error points at the token that it is about**: this is the one token of the text that
is in that line and begins in that column. -/
theorem exists_explains_at (h : assemble source = .error e)
    (hplace : place? e = some (line, column)) :
    ∃ s, Explains e s ∧
      ∀ s' : Spot, s'.StandsIn source ∧ s'.line = line ∧ s'.token.column = column ↔ s' = s := by
  obtain ⟨s, hs, hexplains⟩ := exists_explains h
  obtain ⟨hline, hcolumn⟩ := hexplains.place_eq hplace
  refine ⟨s, hexplains, fun s' => ?_⟩
  constructor
  · rintro ⟨hs', hline', hcolumn'⟩
    exact hs'.eq_of_place hs (hline'.trans hline.symm) (hcolumn'.trans hcolumn.symm)
  · rintro rfl
    exact ⟨hs, hline, hcolumn⟩

/-- The line before ends with a carriage return, and before the token is a wide blank. -/
theorem exists_explains_at_wide_blank :
    assemble "NOP\r\n\u3000ä,, PUSH" =
        .error (.badStatement 2 2 "invalid instruction name: ä") ∧
      ∃ s, Explains (.badStatement 2 2 "invalid instruction name: ä") s ∧
        ∀ s' : Spot, s'.StandsIn "NOP\r\n\u3000ä,, PUSH" ∧ s'.line = 2 ∧ s'.token.column = 2 ↔
          s' = s :=
  have h : assemble "NOP\r\n\u3000ä,, PUSH" =
      .error (.badStatement 2 2 "invalid instruction name: ä") := by rfl
  ⟨h, exists_explains_at h rfl⟩

end Assembly

end StackMachine
