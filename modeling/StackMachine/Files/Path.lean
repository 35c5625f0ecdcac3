/-!
# Paths

What the text of a path says by itself, before any file is looked at: the last name
in it, the part before that name, and the extension of the name. Separators at the
end and steps to the same directory (`.`) say nothing and are looked through, with
one exception: a path that *is* `.` stays what it is. A step to the directory above
(`..`) is no name and has no extension.

Paths are taken apart from behind, so everything here is about their characters in
reverse. Removing a name leaves the rest of the text as it was written, doubled
separators included.
-/

namespace StackMachine

namespace Path

/-- A reversed path without the separators and the steps to the same directory at
its end. -/
def trimmed : List Char → List Char
  | '/' :: rest => trimmed rest
  | '.' :: '/' :: rest => trimmed ('/' :: rest)
  | path => path

/-- The last component of a reversed path, in order. -/
def lastComponent (path : List Char) : List Char :=
  ((trimmed path).takeWhile (· != '/')).reverse

/-- What stands before the last component of a reversed path, still reversed. -/
def beforeLast (path : List Char) : List Char := (trimmed path).dropWhile (· != '/')

/-- The name that a reversed path ends with, in order, if it ends with a name. -/
def name? (path : List Char) : Option (List Char) :=
  let last := lastComponent path
  if last.isEmpty || last == ['.'] || last == ['.', '.'] then none else some last

/-- A name without its extension, and the extension. The last dot separates the two,
unless the name begins with it. -/
def splitExtension (name : List Char) : List Char × Option (List Char) :=
  let reversed := name.reverse
  match reversed.dropWhile (· != '.') with
  | [] => (name, none)
  | _ :: stem =>
    if stem.isEmpty then (name, none)
    else (stem.reverse, some (reversed.takeWhile (· != '.')).reverse)

/-- The extension of the name that a path ends with. -/
def extension? (path : String) : Option String :=
  (name? path.toList.reverse).bind fun name => (splitExtension name).2.map String.ofList

/-- The path of the directory that holds what a path names; empty when the path is a
single component, and missing when there is no component at all. -/
def parent? (path : String) : Option String :=
  let reversed := path.toList.reverse
  if (lastComponent reversed).isEmpty then none
  else
    let before := beforeLast reversed
    let directory := (trimmed before).reverse
    some (if directory.isEmpty && !before.isEmpty then "/" else String.ofList directory)

/-- The path with an extension put in place of the one that its name has, dot
included, or added when there is none. A path that does not end with a name stays
the same. -/
def setExtension (path extension : String) : String :=
  let reversed := path.toList.reverse
  match name? reversed with
  | none => path
  | some name =>
    String.ofList ((beforeLast reversed).reverse ++ (splitExtension name).1) ++ "." ++ extension

/-- The path without as many characters at its end as the extension of its name has.
The dot of the extension stays. -/
def cutExtension (path : String) : String :=
  match extension? path with
  | none => path
  | some extension =>
    let characters := path.toList
    String.ofList (characters.take (characters.length - extension.length))

/-- The path with the extension of its name exchanged, or added when there is none.
The old extension is cut off first, and what is left then gets the new one. This
matters for a name of two dots and an extension: what is left of it is a step to the
directory above, which gets none. -/
def withExtension (path extension : String) : String :=
  setExtension (cutExtension path) extension

end Path

end StackMachine
