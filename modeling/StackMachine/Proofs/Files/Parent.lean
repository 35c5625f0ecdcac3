import StackMachine.Proofs.Files.Path

/-!
# The directory before a path

The directory of a path is what stands before its last name, without the separators and the
steps to the same directory in between. It is found in the text of the path alone, and resolved
by itself, so that it is not plain that it is there whenever the path can be written: the path
is resolved through what was left out as well.

It is there all the same. What is left out at the end of a text are whole steps
(`StackMachine.Path.exists_splitOn_trimmed`), so the steps of the directory are the first of
those that the path is resolved by. Where nothing is left of the text it was a path from the
root, and the directory is the root.

* `StackMachine.FileSystem.contains_of_target` – **a path that can be written has a directory
  that is there**.
-/

namespace StackMachine

namespace Path

variable {path directory : String} {front name r : List Char}

/-! ### What is looked through -/

/-- What is looked through at the end of a path is the end of it. -/
theorem trimmed_suffix (r : List Char) : trimmed r <:+ r := by
  fun_induction trimmed r with
  | case1 rest ih => exact ih.trans (List.suffix_cons _ _)
  | case2 rest ih => exact ih.trans (List.suffix_cons _ _)
  | case3 => exact List.suffix_rfl

/-- **What is looked through are whole steps**, the last of them empty if there is a separator
at the end. -/
theorem exists_splitOn_trimmed (r : List Char) :
    ∃ steps, r.reverse.splitOn '/' = (trimmed r).reverse.splitOn '/' ++ steps ∧
      (r.head? = some '/' → ∃ before, steps = before ++ [[]]) := by
  fun_induction trimmed r with
  | case1 rest ih =>
    obtain ⟨steps, ih, -⟩ := ih
    refine ⟨steps ++ [[]], ?_, fun _ => ⟨steps, rfl⟩⟩
    rw [List.reverse_cons, List.splitOn_append_cons_self, ih, List.splitOn_nil, List.append_assoc]
  | case2 rest ih =>
    -- The step to the same directory stands where the empty step would.
    obtain ⟨steps, ih, hlast⟩ := ih
    obtain ⟨before, rfl⟩ := hlast rfl
    rw [List.reverse_cons, List.splitOn_append_cons_self, List.splitOn_nil,
      ← List.append_assoc] at ih
    refine ⟨before ++ [['.']], ?_, nofun⟩
    rw [List.reverse_cons, List.reverse_cons, List.append_assoc, List.singleton_append,
      List.splitOn_append_cons_self, List.append_cancel_right ih, List.append_assoc]
    rfl
  | case3 r hslash =>
    refine ⟨[], (List.append_nil _).symm, fun hhead => ?_⟩
    obtain ⟨rest, hr⟩ := List.head?_eq_some_iff.mp hhead
    exact absurd hr (hslash rest)

/-- What is looked through to its beginning begins with a separator, if there is anything of
it. -/
theorem head?_of_trimmed_eq_nil (h : trimmed r = []) (hr : r ≠ []) :
    r.reverse.head? = some '/' := by
  rw [List.head?_reverse]
  fun_induction trimmed r with
  | case1 rest ih =>
    rcases eq_or_ne rest [] with rfl | hrest
    · rfl
    · rw [List.getLast?_cons, ih h hrest]
      rfl
  | case2 rest ih =>
    rw [List.getLast?_cons, ih h (List.cons_ne_nil _ _)]
    rfl
  | case3 => exact absurd h hr

/-! ### The directory -/

/-- **The directory of a path**: nothing, the root, or the text before the last name without
what is looked through. -/
theorem Cut.parent?_cases (h : Cut path front name) (hne : name ≠ []) (hhere : name ≠ ['.'])
    (hparent : parent? path = some directory) :
    front = [] ∧ directory = "" ∨
      ∃ before, front = before ++ ['/'] ∧
        (trimmed before.reverse = [] ∧ directory = "/" ∨
          trimmed before.reverse ≠ [] ∧
            directory = String.ofList (trimmed before.reverse).reverse) := by
  simp only [parent?] at hparent
  split at hparent
  · cases hparent
  obtain rfl := Option.some.inj hparent
  rw [h.beforeLast_eq hne hhere]
  rcases h.front with rfl | ⟨before, rfl⟩
  · exact Or.inl ⟨rfl, rfl⟩
  · refine Or.inr ⟨before, rfl, ?_⟩
    rw [List.reverse_concat, trimmed]
    by_cases htrimmed : trimmed before.reverse = []
    · exact Or.inl ⟨htrimmed, by simp [htrimmed]⟩
    · exact Or.inr ⟨htrimmed, by simp [htrimmed]⟩

end Path

namespace FileSystem

variable {fs : FileSystem} {path directory : String} {l : Location}

theorem pathProblem?_eq_none_iff :
    pathProblem? path = none ↔
      '\x00' ∉ path.toList ∧ path ≠ "" ∧ path.utf8ByteSize ≤ maxPathBytes := by
  simp only [pathProblem?, List.contains_iff_mem, String.isEmpty_iff, ← Nat.not_lt]
  split
  · simp_all
  split
  · simp_all
  split <;> simp_all

/-- A text that is fine as a path has beginnings that are fine as well. -/
theorem pathProblem?_of_append {text rest : List Char} (hpath : pathProblem? path = none)
    (htext : path.toList = text ++ rest) (hne : text ≠ []) :
    pathProblem? (String.ofList text) = none := by
  obtain ⟨hnul, -, hsize⟩ := pathProblem?_eq_none_iff.mp hpath
  have hsplit : path = String.ofList text ++ String.ofList rest := by
    apply String.toList_injective
    simp [htext]
  rw [htext, List.mem_append, not_or] at hnul
  rw [hsplit, String.utf8ByteSize_append] at hsize
  refine pathProblem?_eq_none_iff.mpr ⟨by simpa using hnul.1, by simpa using hne, ?_⟩
  exact Nat.le_trans (Nat.le_add_right _ _) hsize

/-- The steps of a path whose last name has a separator before it. -/
theorem steps_of_cut {before name : List Char} (hcut : Path.Cut path (before ++ ['/']) name) :
    steps path = steps (String.ofList before) ++ [String.ofList name] := by
  rw [steps, steps, hcut.text, List.append_assoc, List.singleton_append,
    List.splitOn_append_cons_self, List.splitOn_eq_singleton hcut.name, List.map_append,
    List.map_singleton, String.toList_ofList]

theorem contains_of_locate (h : fs.locate path = .ok l) : fs.contains path = true := by
  rw [contains, h]
  rfl

/-- The beginning of a path names something if its steps lead somewhere. -/
theorem contains_of_append {text rest : List Char} (hpath : pathProblem? path = none)
    (htext : path.toList = text ++ rest) (hne : text ≠ [])
    (hwalk : fs.walk (fs.origin path) (steps (String.ofList text)) = .ok l) :
    fs.contains (String.ofList text) = true := by
  have horigin : fs.origin (String.ofList text) = fs.origin path := by
    rw [origin, origin, String.toList_ofList, htext, List.head?_append_of_ne_nil _ hne]
  have hsound := pathProblem?_of_append hpath htext hne
  refine contains_of_locate (l := l) (locate_eq_ok_iff.mpr ⟨hsound, ?_⟩)
  rw [horigin]
  exact hwalk

/-- The root is there if a walk begins in it. -/
theorem contains_root (hwalk : fs.walk [] [""] = .ok l) : fs.contains "/" = true := by
  have hd : fs.isDirectory [] = true := by
    by_contra hd
    rw [walk, if_pos (by simpa using hd)] at hwalk
    cases hwalk
  have hstay : fs.Leads [] "" [] := .stay hd (Or.inl rfl)
  have hsteps : steps "/" = ["", ""] := by decide
  refine contains_of_locate (l := []) (locate_eq_ok_iff.mpr ⟨by decide, ?_⟩)
  rw [hsteps]
  exact walk_cons_eq_ok_iff.mpr ⟨[], hstay, walk_cons_eq_ok_iff.mpr ⟨[], hstay, rfl⟩⟩

/-- A path that is looked through to its beginning begins at the root. -/
theorem origin_of_trimmed {before name : List Char} (hcut : Path.Cut path (before ++ ['/']) name)
    (htrimmed : Path.trimmed before.reverse = []) : fs.origin path = [] := by
  rw [origin, hcut.text, List.append_assoc, if_pos]
  rcases eq_or_ne before [] with rfl | hbefore
  · rfl
  · have hhead := Path.head?_of_trimmed_eq_nil htrimmed (by simpa using hbefore)
    rw [List.reverse_reverse] at hhead
    rw [List.head?_append_of_ne_nil _ hbefore, hhead]

/-- **A path that can be written has a directory that is there**, if it has one. -/
theorem contains_of_target (h : fs.target path = .ok l)
    (hparent : Path.parent? path = some directory) (hne : directory ≠ "") :
    fs.contains directory = true := by
  obtain ⟨d, written, rfl, hplace⟩ := exists_target h
  obtain ⟨front, name, hcut⟩ := Path.exists_cut path
  obtain rfl := hplace.eq_of_cut hcut
  have hname : name ≠ [] := by
    rintro rfl
    exact hplace.isName.ne_empty rfl
  have hhere : name ≠ ['.'] := by
    rintro rfl
    exact hplace.isName.ne_here rfl
  obtain ⟨-, hempty⟩ | ⟨before, rfl, hdirectory⟩ := hcut.parent?_cases hname hhere hparent
  · exact absurd hempty hne
  -- The steps of the directory are the first ones of the path.
  obtain ⟨steps', hsteps, hwalk⟩ := hplace.leads
  obtain rfl := List.append_cancel_right (hsteps.symm.trans (steps_of_cut hcut))
  obtain ⟨rest, hrest⟩ := List.reverse_prefix.mpr (Path.trimmed_suffix before.reverse)
  obtain ⟨through, hthrough, -⟩ := Path.exists_splitOn_trimmed before.reverse
  rw [List.reverse_reverse] at hrest hthrough
  rw [steps, String.toList_ofList, hthrough, List.map_append] at hwalk
  obtain ⟨k, hk, -⟩ := walk_append_eq_ok_iff.mp hwalk
  rcases hdirectory with ⟨htrimmed, rfl⟩ | ⟨htrimmed, rfl⟩
  · rw [origin_of_trimmed hcut htrimmed, htrimmed] at hk
    exact contains_root hk
  · generalize (Path.trimmed before.reverse).reverse = text at *
    have htext : path.toList = text ++ (rest ++ '/' :: name) := by
      rw [hcut.text, ← hrest]
      simp
    refine contains_of_append (l := k) hplace.sound htext (by simpa using hne) ?_
    rw [steps, String.toList_ofList]
    exact hk

end FileSystem

end StackMachine
