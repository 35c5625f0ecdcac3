import StackMachine.Files.FileSystem
import StackMachine.Proofs.Pointwise

/-!
# Reading what was written

A file system is a value, and writing to a path makes another one. What the two have to do
with each other is settled here: the path that was written is read back as the bytes that
were written, and a path that leads to another file is read as before.

Neither is plain, because a path is resolved anew in the new file system, and a directory
is one for having something below it. What makes it right is that a file is only ever
written *into a directory*: so the new entry makes nothing a directory that was none, and
takes nothing away that stood on the way to something
(`StackMachine.FileSystem.node?_put_of_ne`). Every path that was resolved is resolved the
same way ever after (`StackMachine.FileSystem.Extends`).

* `StackMachine.FileSystem.read_of_write` – **a file that was written is read back**;
* `StackMachine.FileSystem.read_of_write_elsewhere` – and the others are read as before.
-/

namespace StackMachine

namespace FileSystem

variable {fs fs' : FileSystem} {path : String} {l d l' : Location} {name : String} {node : Node}

/-! ### Places -/

/-- Something stands at or below a location, or is found from there. -/
def OnTheWay (fs : FileSystem) (l : Location) : Prop :=
  l <+: fs.workingDirectory ∨ ∃ entry ∈ fs.entries, l <+: entry.1

/-- A place without an entry is a directory when it is on the way to something. -/
theorem node?_of_no_entry (h : fs.entries.lookup l = none) :
    fs.node? l = some .directory ∧ fs.OnTheWay l ∨ fs.node? l = none ∧ ¬fs.OnTheWay l := by
  have hway : (l.isPrefixOf fs.workingDirectory ||
      fs.entries.any fun entry => l.isPrefixOf entry.1) = true ↔ fs.OnTheWay l := by
    simp [OnTheWay]
  rw [node?, h]
  by_cases hl : fs.OnTheWay l
  · exact Or.inl ⟨if_pos (hway.mpr hl), hl⟩
  · exact Or.inr ⟨if_neg fun h => hl (hway.mp h), hl⟩

theorem node?_of_entry (h : fs.entries.lookup l = some node) : fs.node? l = some node := by
  rw [node?, h]

/-- A directory is on the way to something, if only to itself. -/
theorem onTheWay_of_isDirectory (h : fs.isDirectory d = true) : fs.OnTheWay d := by
  rw [isDirectory, beq_iff_eq] at h
  rcases he : fs.entries.lookup d with _ | node
  · rcases node?_of_no_entry he with ⟨-, hway⟩ | ⟨hnone, -⟩
    · exact hway
    · rw [h] at hnone
      cases hnone
  · exact Or.inr ⟨(d, node), List.mem_of_lookup_eq_some he, List.prefix_rfl⟩

/-! ### Writing -/

theorem node?_put_self (fs : FileSystem) (l : Location) (node : Node) :
    (fs.put l node).node? l = some node :=
  node?_of_entry (by simp [put])

/-- The entries of other places stay. -/
theorem lookup_put_of_ne (fs : FileSystem) (node : Node) (h : l' ≠ l) :
    (fs.put l node).entries.lookup l' = fs.entries.lookup l' := by
  rw [put, List.lookup_cons, beq_false_of_ne h]
  change (fs.entries.filter fun entry => entry.1 != l).lookup l' = fs.entries.lookup l'
  induction fs.entries with
  | nil => rfl
  | cons entry entries ih =>
    obtain ⟨place, stands⟩ := entry
    by_cases hplace : place = l
    · rw [List.filter_cons_of_neg (by simp [hplace]), ih, List.lookup_cons,
        beq_false_of_ne (hplace ▸ h)]
    · rw [List.filter_cons_of_pos (by simp [hplace]), List.lookup_cons, List.lookup_cons, ih]

/-- Something new in a directory puts nothing else on the way that was not there. -/
theorem onTheWay_put_iff (node : Node) (hd : fs.isDirectory d = true) (h : l ≠ d ++ [name]) :
    (fs.put (d ++ [name]) node).OnTheWay l ↔ fs.OnTheWay l := by
  constructor
  · rintro (hl | ⟨entry, hentry, hl⟩)
    · exact Or.inl hl
    · rcases List.mem_cons.mp hentry with rfl | hentry
      · -- A place before the new one is on the way to its directory.
        have hl : l <+: d := (List.prefix_concat_iff.mp hl).resolve_left h
        rcases onTheWay_of_isDirectory hd with hd | ⟨entry, hentry, hd⟩
        · exact Or.inl (hl.trans hd)
        · exact Or.inr ⟨entry, hentry, hl.trans hd⟩
      · exact Or.inr ⟨entry, (List.mem_filter.mp hentry).1, hl⟩
  · rintro (hl | ⟨entry, hentry, hl⟩)
    · exact Or.inl hl
    · by_cases hplace : entry.1 = d ++ [name]
      · exact Or.inr ⟨_, List.mem_cons_self, hplace ▸ hl⟩
      · exact Or.inr ⟨entry, List.mem_cons_of_mem _ (List.mem_filter.mpr ⟨hentry, by simpa⟩), hl⟩

/-- **Something new in a directory changes nothing anywhere else.** -/
theorem node?_put_of_ne (hd : fs.isDirectory d = true) (h : l ≠ d ++ [name]) :
    (fs.put (d ++ [name]) node).node? l = fs.node? l := by
  have hentry := lookup_put_of_ne fs node h
  rcases he : fs.entries.lookup l with _ | stands
  · have hway := onTheWay_put_iff node hd h
    rcases node?_of_no_entry (hentry.trans he) with ⟨hnew, hway'⟩ | ⟨hnew, hway'⟩ <;>
      rcases node?_of_no_entry he with ⟨hold, hway''⟩ | ⟨hold, hway''⟩
    · rw [hnew, hold]
    · exact absurd (hway.mp hway') hway''
    · exact absurd (hway.mpr hway'') hway'
    · rw [hnew, hold]
  · rw [node?_of_entry he, node?_of_entry (hentry.trans he)]

/-! ### Paths -/

/-- A name that a file or a directory can have. -/
structure IsName (name : String) : Prop where
  ne_empty : name ≠ ""
  ne_here : name ≠ "."
  ne_above : name ≠ ".."
  size : name.utf8ByteSize ≤ maxNameBytes

/-- **Where a step of a path leads.** -/
inductive Leads (fs : FileSystem) (l : Location) : String → Location → Prop
  | stay {step : String} (hd : fs.isDirectory l = true) (hstep : step = "" ∨ step = ".") :
    Leads fs l step l
  | up (hd : fs.isDirectory l = true) : Leads fs l ".." l.dropLast
  | down {name : String} (hd : fs.isDirectory l = true) (hname : IsName name)
      (hthere : (fs.node? (l ++ [name])).isNone = false) :
    Leads fs l name (l ++ [name])

/-- A walk takes one step after the other. -/
theorem walk_cons_eq_ok_iff {step : String} {rest : List String} :
    fs.walk l (step :: rest) = .ok l' ↔ ∃ k, fs.Leads l step k ∧ fs.walk k rest = .ok l' := by
  rw [walk]
  constructor
  · intro h
    by_cases hd : fs.isDirectory l = true
    · rw [if_neg (by simp [hd])] at h
      by_cases hstep : step = "" ∨ step = "."
      · rw [if_pos (by simpa using hstep)] at h
        exact ⟨l, .stay hd hstep, h⟩
      · rw [if_neg (by simpa using hstep)] at h
        by_cases hup : step = ".."
        · subst hup
          exact ⟨_, .up hd, h⟩
        · rw [if_neg (by simpa using hup)] at h
          by_cases hsize : maxNameBytes < step.utf8ByteSize
          · rw [if_pos hsize] at h
            cases h
          · rw [if_neg hsize] at h
            rcases hthere : (fs.node? (l ++ [step])).isNone with _ | _
            · rw [if_neg (by simp [hthere])] at h
              rw [not_or] at hstep
              exact ⟨_, .down hd ⟨hstep.1, hstep.2, hup, Nat.le_of_not_lt hsize⟩ hthere, h⟩
            · rw [if_pos hthere] at h
              cases h
    · rw [if_pos (by simpa using hd)] at h
      cases h
  · rintro ⟨k, hleads, hrest⟩
    cases hleads with
    | stay hd hstep =>
      rw [if_neg (by simp [hd]), if_pos (by simpa using hstep)]
      exact hrest
    | up hd =>
      rw [if_neg (by simp [hd]), if_neg (by decide), if_pos (by decide)]
      exact hrest
    | down hd hname hthere =>
      rw [if_neg (by simp [hd]), if_neg (by simp [hname.ne_empty, hname.ne_here]),
        if_neg (by simp [hname.ne_above]), if_neg (Nat.not_lt.mpr hname.size),
        if_neg (by simp [hthere])]
      exact hrest

theorem walk_append_eq_ok_iff {before rest : List String} :
    fs.walk l (before ++ rest) = .ok l' ↔
      ∃ k, fs.walk l before = .ok k ∧ fs.walk k rest = .ok l' := by
  induction before generalizing l with
  | nil => simp [walk]
  | cons step before ih =>
    simp only [List.cons_append, walk_cons_eq_ok_iff, ih]
    constructor
    · rintro ⟨j, hj, k, hk, hrest⟩
      exact ⟨k, ⟨j, hj, hk⟩, hrest⟩
    · rintro ⟨k, ⟨j, hj, hk⟩, hrest⟩
      exact ⟨j, hj, k, hk, hrest⟩

theorem locate_eq_ok_iff :
    fs.locate path = .ok l ↔
      pathProblem? path = none ∧ fs.walk (fs.origin path) (steps path) = .ok l := by
  rw [locate]
  rcases pathProblem? path with _ | problem <;> simp

theorem read_eq_ok_iff {bytes : List UInt8} :
    fs.read path = .ok bytes ↔
      ∃ l, fs.locate path = .ok l ∧ fs.node? l = some (.file bytes) := by
  rw [read, Except.bind_eq_ok_iff]
  refine exists_congr fun l => and_congr_right fun _ => ?_
  rcases fs.node? l with _ | _ | _
  · exact iff_of_false (by rintro ⟨⟩) (by rintro ⟨⟩)
  · exact ⟨fun h => congrArg (some ∘ Node.file) (Except.ok.inj h), by rintro ⟨⟩; rfl⟩
  · exact iff_of_false (by rintro ⟨⟩) (by rintro ⟨⟩)

/-- What is known of a path that can be written: it names something in a directory. -/
structure Target (fs : FileSystem) (path : String) (d : Location) (name : String) : Prop where
  sound : pathProblem? path = none
  directory : fs.isDirectory d = true
  isName : IsName name
  free : fs.isDirectory (d ++ [name]) = false
  leads : ∃ before, steps path = before ++ [name] ∧ fs.walk (fs.origin path) before = .ok d

theorem exists_target (h : fs.target path = .ok l) :
    ∃ d name, l = d ++ [name] ∧ fs.Target path d name := by
  rw [target] at h
  rcases hsound : pathProblem? path with _ | problem
  · rw [hsound] at h
    rcases hsteps : (steps path).reverse with _ | ⟨last, before⟩
    · rw [hsteps] at h
      cases h
    · simp only [hsteps, List.dropWhile_cons] at h
      by_cases hlast : last = ""
      · -- A separator at the end asks for a directory.
        rw [if_pos (beq_iff_eq.mpr hlast)] at h
        split at h
        · cases h
        · simp only [Except.bind_eq_ok_iff, Except.guard_eq_ok_iff] at h
          obtain ⟨d, -, -, hname, -⟩ := h
          simp [hlast] at hname
      · rw [if_neg fun heq => hlast (beq_iff_eq.mp heq)] at h
        simp only [Except.bind_eq_ok_iff, Except.guard_eq_ok_iff] at h
        obtain ⟨d, hwalk, hdir, hname, hsize, hfree, h⟩ := h
        obtain rfl := Except.ok.inj h
        simp only [List.head?_cons, Bool.or_eq_true, beq_iff_eq, Option.some.injEq, not_or] at hname
        have hpath : steps path = before.reverse ++ [last] := by
          rw [← List.reverse_reverse (steps path), hsteps, List.reverse_cons]
        exact ⟨d, last, rfl, hsound, by simpa using hdir,
          ⟨hlast, hname.1.2, hname.2, Nat.le_of_not_lt hsize⟩, Bool.eq_false_iff.mpr hfree,
          before.reverse, hpath, hwalk⟩
  · rw [hsound] at h
    cases h

/-! ### Paths and writing -/

/-- **The second file system resolves all the paths of the first**, for it has all its
directories, and something wherever the first has something. -/
structure Extends (fs fs' : FileSystem) : Prop where
  workingDirectory : fs'.workingDirectory = fs.workingDirectory
  directories : ∀ l, fs.isDirectory l = true → fs'.isDirectory l = true
  occupied : ∀ l, (fs.node? l).isNone = false → (fs'.node? l).isNone = false

theorem Extends.leads (h : fs.Extends fs') {step : String} (hleads : fs.Leads l step l') :
    fs'.Leads l step l' := by
  cases hleads with
  | stay hd hstep => exact .stay (h.directories _ hd) hstep
  | up hd => exact .up (h.directories _ hd)
  | down hd hname hthere => exact .down (h.directories _ hd) hname (h.occupied _ hthere)

theorem Extends.walk (h : fs.Extends fs') {path : List String} (hwalk : fs.walk l path = .ok l') :
    fs'.walk l path = .ok l' := by
  induction path generalizing l with
  | nil => exact hwalk
  | cons step path ih =>
    obtain ⟨k, hleads, hrest⟩ := walk_cons_eq_ok_iff.mp hwalk
    exact walk_cons_eq_ok_iff.mpr ⟨k, h.leads hleads, ih hrest⟩

theorem Extends.origin (h : fs.Extends fs') (path : String) :
    fs'.origin path = fs.origin path := by
  rw [FileSystem.origin, FileSystem.origin, h.workingDirectory]

theorem Extends.locate (h : fs.Extends fs') (hl : fs.locate path = .ok l) :
    fs'.locate path = .ok l := by
  obtain ⟨hsound, hwalk⟩ := locate_eq_ok_iff.mp hl
  rw [← h.origin path] at hwalk
  exact locate_eq_ok_iff.mpr ⟨hsound, h.walk hwalk⟩

/-- **A file that is written into a directory leaves all paths as they are.** -/
theorem extends_put (bytes : List UInt8) (hd : fs.isDirectory d = true)
    (hfree : fs.isDirectory (d ++ [name]) = false) :
    fs.Extends (fs.put (d ++ [name]) (.file bytes)) where
  workingDirectory := rfl
  directories l hl := by
    have hne : l ≠ d ++ [name] := by
      rintro rfl
      rw [hfree] at hl
      cases hl
    rw [isDirectory, node?_put_of_ne hd hne]
    exact hl
  occupied l hl := by
    by_cases hne : l = d ++ [name]
    · rw [hne, node?_put_self]
      rfl
    · rw [node?_put_of_ne hd hne]
      exact hl

theorem write_eq_ok_iff {bytes : List UInt8} :
    fs.write path bytes = .ok fs' ↔
      ∃ l, fs.target path = .ok l ∧ fs.put l (.file bytes) = fs' := by
  rw [write, Except.bind_eq_ok_iff]
  exact exists_congr fun l => and_congr_right fun _ => ⟨Except.ok.inj, congrArg Except.ok⟩

/-- The path that is written leads to what was written. -/
theorem Target.locate {bytes : List UInt8} (h : fs.Target path d name) :
    (fs.put (d ++ [name]) (.file bytes)).locate path = .ok (d ++ [name]) := by
  obtain ⟨before, hsteps, hwalk⟩ := h.leads
  have hext := extends_put bytes h.directory h.free
  rw [locate_eq_ok_iff, hext.origin, hsteps]
  refine ⟨h.sound, walk_append_eq_ok_iff.mpr ⟨d, hext.walk hwalk, ?_⟩⟩
  refine walk_cons_eq_ok_iff.mpr ⟨_, .down (hext.directories d h.directory) h.isName ?_, rfl⟩
  rw [node?_put_self]
  rfl

/-- **A file that was written is read back.** -/
theorem read_of_write {bytes : List UInt8} (h : fs.write path bytes = .ok fs') :
    fs'.read path = .ok bytes := by
  obtain ⟨_, htarget, rfl⟩ := write_eq_ok_iff.mp h
  obtain ⟨d, name, rfl, hplace⟩ := exists_target htarget
  exact read_eq_ok_iff.mpr ⟨_, hplace.locate, node?_put_self _ _ _⟩

/-- **A file that was not written is read as before**, whatever path leads to it. -/
theorem read_of_write_elsewhere {other : String} {bytes contents : List UInt8}
    (h : fs.write path bytes = .ok fs') (hne : fs.locate other ≠ fs.target path)
    (hread : fs.read other = .ok contents) : fs'.read other = .ok contents := by
  obtain ⟨_, htarget, rfl⟩ := write_eq_ok_iff.mp h
  obtain ⟨l, hl, hfile⟩ := read_eq_ok_iff.mp hread
  rw [htarget, hl] at hne
  obtain ⟨d, name, rfl, hplace⟩ := exists_target htarget
  refine read_eq_ok_iff.mpr ⟨l, (extends_put bytes hplace.directory hplace.free).locate hl, ?_⟩
  rw [node?_put_of_ne hplace.directory fun heq => hne (congrArg Except.ok heq)]
  exact hfile

end FileSystem

end StackMachine
