import Mathlib.Data.List.TakeWhile
import StackMachine.Files.Path
import StackMachine.Proofs.Files.FileSystem

/-!
# The last step of a path

A path is resolved from its front and taken apart from behind, and the two do not look at the
same things: resolving knows the steps between the separators, and taking apart knows the
characters of the text, in reverse. What they have in common is the place **before the last
step**, and everything here is about the two sides of a cut at this place,
`StackMachine.Path.Cut`.

A file is only ever written at the end of a path whose last step is its name, and, a step up
apart, only found there; in particular there is no separator behind it. For such a path,
exchanging the extension exchanges it in the name and keeps the rest
(`StackMachine.Path.Cut.withExtension_cases`), with the one exception of a name that is two
dots and an extension, which comes to a step up.

* `StackMachine.FileSystem.same_or_elsewhere` – **a path with another extension than the file
  had is written somewhere else**.
-/

/-- An element that occurs in a list has a last place in it. -/
theorem List.exists_last_of_mem {α : Type} [BEq α] [LawfulBEq α] {a : α} {xs : List α}
    (h : a ∈ xs) : ∃ before after, xs = before ++ a :: after ∧ a ∉ after := by
  obtain ⟨after, before, hxs, hafter⟩ := List.eq_append_cons_of_mem (List.mem_reverse.mpr h)
  refine ⟨before.reverse, after.reverse, ?_, by simpa using hafter⟩
  rw [← List.reverse_reverse xs, hxs]
  simp

namespace StackMachine

namespace Path

variable {path extension : String} {front name stem e : List Char}

/-- What is scanned from behind up to a character that does not occur in it. -/
theorem ne_of_mem_reverse {c : Char} {after : List Char} (h : c ∉ after) :
    ∀ d ∈ after.reverse, (d != c) = true := by
  intro d hd
  rw [List.mem_reverse] at hd
  exact bne_iff_ne.mpr fun heq => h (heq ▸ hd)

/-! ### Names and extensions -/

/-- The last dot of a name separates its extension, unless the name begins with it. -/
theorem splitExtension_append (hstem : stem ≠ []) (he : '.' ∉ e) :
    splitExtension (stem ++ '.' :: e) = (stem, some e) := by
  have hreverse : (stem ++ '.' :: e).reverse = e.reverse ++ '.' :: stem.reverse := by simp
  simp only [splitExtension, hreverse, List.dropWhile_append_of_pos (ne_of_mem_reverse he),
    List.takeWhile_append_of_pos (ne_of_mem_reverse he)]
  simp [hstem]

/-- **A name has an extension behind its last dot, or none.** -/
theorem splitExtension_cases (name : List Char) :
    splitExtension name = (name, none) ∨
      ∃ stem e, name = stem ++ '.' :: e ∧ stem ≠ [] ∧ splitExtension name = (stem, some e) := by
  by_cases hdot : '.' ∈ name
  · obtain ⟨stem, e, rfl, he⟩ := List.exists_last_of_mem hdot
    rcases eq_or_ne stem [] with rfl | hstem
    · left
      have hreverse : ([] ++ '.' :: e).reverse = e.reverse ++ ['.'] := by simp
      simp only [splitExtension, hreverse, List.dropWhile_append_of_pos (ne_of_mem_reverse he)]
      simp
    · exact Or.inr ⟨stem, e, rfl, hstem, splitExtension_append hstem he⟩
  · left
    have hnone : name.reverse.dropWhile (· != '.') = [] :=
      List.dropWhile_eq_nil_iff.mpr (ne_of_mem_reverse hdot)
    simp only [splitExtension, hnone]

/-! ### Cuts -/

/-- **A path is cut before its last step**: what stands before it is nothing at all or ends
with a separator. -/
structure Cut (path : String) (front name : List Char) : Prop where
  text : path.toList = front ++ name
  front : front = [] ∨ ∃ before, front = before ++ ['/']
  name : '/' ∉ name

/-- Every path is cut somewhere. -/
theorem exists_cut (path : String) : ∃ front name, Cut path front name := by
  by_cases h : '/' ∈ path.toList
  · obtain ⟨before, name, htext, hname⟩ := List.exists_last_of_mem h
    exact ⟨before ++ ['/'], name, by simp [htext], Or.inr ⟨before, rfl⟩, hname⟩
  · exact ⟨[], path.toList, rfl, Or.inl rfl, h⟩

namespace Cut

/-- Another last step behind the same front. -/
theorem exchange (h : Cut path front name) {name' : List Char} (hname : '/' ∉ name') :
    Cut (String.ofList (front ++ name')) front name' :=
  ⟨String.toList_ofList, h.front, hname⟩

/-- **The last step is the last one that is resolved.** -/
theorem exists_steps (h : Cut path front name) :
    ∃ before, FileSystem.steps path = before ++ [String.ofList name] := by
  rw [FileSystem.steps, h.text]
  rcases h.front with rfl | ⟨before, rfl⟩
  · exact ⟨[], by simp [List.splitOn_eq_singleton h.name]⟩
  · refine ⟨(before.splitOn '/').map String.ofList, ?_⟩
    rw [List.append_assoc, List.singleton_append, List.splitOn_append_cons_self,
      List.splitOn_eq_singleton h.name, List.map_append, List.map_singleton]

/-- Nothing is looked through at the end of a path whose last step says something. -/
theorem trimmed_reverse (h : Cut path front name) (hne : name ≠ []) (hhere : name ≠ ['.']) :
    trimmed path.toList.reverse = name.reverse ++ front.reverse := by
  rw [h.text, List.reverse_append]
  rcases hreverse : name.reverse with _ | ⟨c, rest⟩
  · exact absurd (List.reverse_eq_nil_iff.mp hreverse) hne
  · have hname (d : Char) (hd : d ∈ c :: rest) : d ≠ '/' := by
      rw [← hreverse, List.mem_reverse] at hd
      exact fun heq => h.name (heq ▸ hd)
    rw [List.cons_append, trimmed]
    · intro _ heq
      exact hname c List.mem_cons_self (List.cons.inj heq).1
    · intro _ heq
      obtain ⟨rfl, htail⟩ := List.cons.inj heq
      rcases rest with _ | ⟨d, rest⟩
      · exact hhere (List.reverse_eq_iff.mp hreverse)
      · exact hname d (by simp) (List.cons.inj htail).1

/-- **The name of a path**, when its last step is one. -/
theorem name?_eq (h : Cut path front name) (hne : name ≠ []) (hhere : name ≠ ['.']) :
    name? path.toList.reverse = if name = ['.', '.'] then none else some name := by
  have htake : (name.reverse ++ front.reverse).takeWhile (· != '/') = name.reverse := by
    rw [List.takeWhile_append_of_pos (ne_of_mem_reverse h.name)]
    rcases h.front with rfl | ⟨before, rfl⟩ <;> simp
  rw [name?, lastComponent, h.trimmed_reverse hne hhere, htake, List.reverse_reverse]
  by_cases hup : name = ['.', '.'] <;> simp [hne, hhere, hup]

theorem beforeLast_eq (h : Cut path front name) (hne : name ≠ []) (hhere : name ≠ ['.']) :
    beforeLast path.toList.reverse = front.reverse := by
  rw [beforeLast, h.trimmed_reverse hne hhere,
    List.dropWhile_append_of_pos (ne_of_mem_reverse h.name)]
  rcases h.front with rfl | ⟨before, rfl⟩ <;> simp

/-- **Setting the extension** of a path that ends with a name. -/
theorem setExtension_eq (h : Cut path front name) (hne : name ≠ []) (hhere : name ≠ ['.'])
    (hup : name ≠ ['.', '.']) :
    setExtension path extension =
      String.ofList (front ++ ((splitExtension name).1 ++ '.' :: extension.toList)) := by
  have hname := h.name?_eq hne hhere
  rw [if_neg hup] at hname
  apply String.toList_inj.mp
  simp [setExtension, hname, h.beforeLast_eq hne hhere]

/-- **Exchanging the extension** of a path that ends with a name: it is put behind the name, or
in place of the old one. Only the name that is two dots and an extension comes to a step up. -/
theorem withExtension_cases (h : Cut path front name) (hne : name ≠ []) (hhere : name ≠ ['.'])
    (hup : name ≠ ['.', '.']) (extension : String) :
    (extension? path = none ∧ withExtension path extension =
        String.ofList (front ++ (name ++ '.' :: extension.toList))) ∨
      ∃ stem e, name = stem ++ '.' :: e ∧ extension? path = some (String.ofList e) ∧
        withExtension path extension = String.ofList (front ++
          if stem = ['.'] then ['.', '.'] else stem ++ '.' :: extension.toList) := by
  have hname := h.name?_eq hne hhere
  rw [if_neg hup] at hname
  have hext : extension? path = (splitExtension name).2.map String.ofList := by
    rw [extension?, hname, Option.bind_some]
  rcases splitExtension_cases name with hsplit | ⟨stem, e, rfl, hstem, hsplit⟩
  · left
    rw [hsplit, Option.map_none] at hext
    refine ⟨hext, ?_⟩
    rw [withExtension, cutExtension, hext]
    exact (h.setExtension_eq hne hhere hup).trans (by rw [hsplit])
  · right
    rw [hsplit, Option.map_some] at hext
    refine ⟨stem, e, rfl, hext, ?_⟩
    have hcut : cutExtension path = String.ofList (front ++ (stem ++ ['.'])) := by
      have htext : front ++ (stem ++ '.' :: e) = (front ++ (stem ++ ['.'])) ++ e := by simp
      rw [cutExtension, hext, h.text, htext]
      simp only [String.length_ofList]
      rw [List.length_append, Nat.add_sub_cancel, List.take_left]
    have hdot : Cut (cutExtension path) front (stem ++ ['.']) := by
      rw [hcut]
      exact h.exchange fun hc => h.name (by simp_all)
    rw [withExtension]
    by_cases htwo : stem = ['.']
    · -- What is left of the name is a step up, which has no extension to set.
      subst htwo
      have hnone : name? (cutExtension path).toList.reverse = none :=
        (hdot.name?_eq (by simp) (by simp)).trans (if_pos rfl)
      rw [setExtension, hnone, if_pos rfl]
      exact hcut
    · have hstep : stem ++ ['.'] ≠ ['.', '.'] := fun heq =>
        htwo (List.append_cancel_right (show stem ++ ['.'] = ['.'] ++ ['.'] from heq))
      rw [if_neg htwo, hdot.setExtension_eq (by simp) (by simp [hstem]) hstep,
        splitExtension_append hstem (by simp)]

/-- A path that ends with a step up has no name, and keeps its text. -/
theorem withExtension_of_up (h : Cut path front ['.', '.']) (extension : String) :
    withExtension path extension = path := by
  have hname : name? path.toList.reverse = none :=
    (h.name?_eq (by simp) (by simp)).trans (if_pos rfl)
  have hext : extension? path = none := by rw [extension?, hname, Option.bind_none]
  rw [withExtension, cutExtension, hext, setExtension, hname]

end Cut

end Path

/-! ### Files -/

namespace FileSystem

variable {fs : FileSystem} {path : String} {front name : List Char} {d : Location}

/-- **A file is written under the last step of its path.** -/
theorem Target.eq_of_cut {written : String} (h : fs.Target path d written)
    (hcut : Path.Cut path front name) : written = String.ofList name := by
  obtain ⟨before, hsteps, -⟩ := h.leads
  obtain ⟨before', hsteps'⟩ := hcut.exists_steps
  have hlast := congrArg List.getLast? (hsteps.symm.trans hsteps')
  simpa using hlast

/-- **A file is found under the last step of its path**, unless this is a step up. -/
theorem name_of_read {bytes : List UInt8} {l : Location} (hl : fs.locate path = .ok l)
    (hfile : fs.node? l = some (.file bytes)) (hcut : Path.Cut path front name) :
    name = ['.', '.'] ∨
      name ≠ [] ∧ name ≠ ['.'] ∧ name ≠ ['.', '.'] ∧ ∃ d, l = d ++ [String.ofList name] := by
  obtain ⟨before, hsteps⟩ := hcut.exists_steps
  obtain ⟨-, hwalk⟩ := locate_eq_ok_iff.mp hl
  rw [hsteps] at hwalk
  obtain ⟨d, -, hlast⟩ := walk_append_eq_ok_iff.mp hwalk
  obtain ⟨k, hleads, hk⟩ := walk_cons_eq_ok_iff.mp hlast
  obtain rfl : k = l := Except.ok.inj hk
  have htext : name = (String.ofList name).toList := String.toList_ofList.symm
  generalize String.ofList name = step at hleads htext
  subst htext
  cases hleads with
  | stay hd _ =>
    rw [isDirectory, hfile] at hd
    cases hd
  | up _ => exact Or.inl rfl
  | down _ hname _ =>
    refine Or.inr ⟨fun h => hname.ne_empty ?_, fun h => hname.ne_here ?_,
      fun h => hname.ne_above ?_, d, rfl⟩ <;> exact String.toList_inj.mp h

/-- **What a file has to do with its path with another extension**, where that can be written:
the extension was the same one, and so is the path, or it was not, and the file stands
somewhere else. -/
theorem same_or_elsewhere {bytes : List UInt8} {extension : String} {l : Location}
    (hread : fs.read path = .ok bytes) (hext : '/' ∉ extension.toList)
    (htarget : fs.target (Path.withExtension path extension) = .ok l) :
    Path.extension? path = some extension ∧ Path.withExtension path extension = path ∨
      Path.extension? path ≠ some extension ∧ fs.locate path ≠ .ok l := by
  obtain ⟨front, name, hcut⟩ := Path.exists_cut path
  obtain ⟨place, hplace, hfile⟩ := read_eq_ok_iff.mp hread
  obtain ⟨d, written, rfl, hwritten⟩ := exists_target htarget
  rcases name_of_read hplace hfile hcut with rfl | ⟨hne, hhere, hup, k, rfl⟩
  · -- A step up cannot be written.
    rw [hcut.withExtension_of_up] at hwritten
    exact absurd (hwritten.eq_of_cut hcut) hwritten.isName.ne_above
  have hlast {last : List Char} (hlast : '/' ∉ last)
      (htext : Path.withExtension path extension = String.ofList (front ++ last)) :
      written = String.ofList last := by
    rw [htext] at hwritten
    exact hwritten.eq_of_cut (hcut.exchange hlast)
  have helsewhere (hname : written ≠ String.ofList name) :
      fs.locate path ≠ .ok (d ++ [written]) := by
    intro heq
    have hsame := List.append_inj_right' (Except.ok.inj (hplace.symm.trans heq)) rfl
    exact hname (List.singleton_inj.mp hsame).symm
  have hsep := hcut.name
  rcases hcut.withExtension_cases hne hhere hup extension with
    ⟨hnone, htext⟩ | ⟨stem, e, rfl, hsome, htext⟩
  · refine Or.inr ⟨by simp [hnone], helsewhere ?_⟩
    rw [hlast (by simp [hsep, hext]) htext]
    simp
  · by_cases htwo : stem = ['.']
    · -- What is left of two dots and an extension is a step up again.
      rw [if_pos htwo] at htext
      exact absurd (hlast (by decide) htext) hwritten.isName.ne_above
    · rw [if_neg htwo] at htext
      have hname := hlast (by simp_all) htext
      by_cases he : e = extension.toList
      · left
        rw [hsome, htext, he, String.ofList_toList, ← he, ← hcut.text, String.ofList_toList]
        exact ⟨rfl, rfl⟩
      · refine Or.inr ⟨fun heq => he ?_, helsewhere fun heq => he ?_⟩
        · rw [← Option.some.inj (hsome.symm.trans heq), String.toList_ofList]
        · have hsame := String.ofList_injective (hname.symm.trans heq)
          exact (List.cons.inj (List.append_cancel_left hsame)).2.symm

end FileSystem

end StackMachine
