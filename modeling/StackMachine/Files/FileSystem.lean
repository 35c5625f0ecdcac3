/-!
# File systems

A file system as a value: which places hold a file, with its bytes, which hold a
directory, and in which directory a relative path begins. A **location** is the
list of the names that lead to a place from the root. Every directory on the way to
something that is there is there too, without an entry of its own.

A path is resolved step by step: each step needs a directory to start from, an
empty step and `.` stay where they are, `..` goes up, and a name goes down to what
has that name. Since an empty step needs a directory as well, a separator at the end
of a path is only right after a directory.
-/

namespace StackMachine

/-- Why something could not be done with a file. -/
inductive FileError
  /-- There is nothing at the path. -/
  | notFound
  /-- A file stands where a directory is needed. -/
  | notDirectory
  /-- A directory stands where a file is needed. -/
  | isDirectory
  /-- A name, or the whole path, is too long. -/
  | nameTooLong
  /-- The path contains the character that no path can contain. -/
  | invalidPath
  /-- The contents are not text. -/
  | invalidText
  /-- Something else, which the message tells. -/
  | other (text : String)
  deriving DecidableEq, Repr

/-- The message of a file error. -/
def FileError.message : FileError → String
  | notFound => "No such file or directory (os error 2)"
  | notDirectory => "Not a directory (os error 20)"
  | isDirectory => "Is a directory (os error 21)"
  | nameTooLong => "File name too long (os error 36)"
  | invalidPath => "file name contained an unexpected NUL byte"
  | invalidText => "stream did not contain valid UTF-8"
  | other text => text

/-- The names that lead to a place, from the root. -/
abbrev Location := List String

/-- What stands at a location. -/
inductive Node
  | file (bytes : List UInt8)
  | directory
  deriving DecidableEq, Repr

/-- The files and directories, and where relative paths begin. -/
structure FileSystem where
  /-- The directory in which relative paths begin. -/
  workingDirectory : Location
  /-- What stands where, each location at most once. -/
  entries : List (Location × Node)
  deriving DecidableEq, Repr

namespace FileSystem

/-- What stands at a location. -/
def node? (fs : FileSystem) (location : Location) : Option Node :=
  match fs.entries.lookup location with
  | some node => some node
  | none =>
    if location.isPrefixOf fs.workingDirectory ||
        fs.entries.any (fun entry => location.isPrefixOf entry.1) then some .directory
    else none

/-- Whether a location is a directory. -/
def isDirectory (fs : FileSystem) (location : Location) : Bool :=
  fs.node? location == some .directory

/-- Puts something at a location, in place of what was there. -/
def put (fs : FileSystem) (location : Location) (node : Node) : FileSystem :=
  { fs with entries := (location, node) :: fs.entries.filter fun entry => entry.1 != location }

/-- The longest name there can be, in bytes. -/
def maxNameBytes : Nat := 255

/-- The longest path there can be, in bytes. -/
def maxPathBytes : Nat := 4095

/-- Follows the steps of a path from a location. -/
def walk (fs : FileSystem) (location : Location) : List String → Except FileError Location
  | [] => .ok location
  | step :: rest =>
    if !fs.isDirectory location then .error .notDirectory
    else if step == "" || step == "." then fs.walk location rest
    else if step == ".." then fs.walk location.dropLast rest
    else if maxNameBytes < step.utf8ByteSize then .error .nameTooLong
    else if (fs.node? (location ++ [step])).isNone then .error .notFound
    else fs.walk (location ++ [step]) rest

/-- The steps of a path, an empty one between two separators. -/
def steps (path : String) : List String := (path.toList.splitOn '/').map String.ofList

/-- Where the steps of a path begin. -/
def origin (fs : FileSystem) (path : String) : Location :=
  if path.toList.head? = some '/' then [] else fs.workingDirectory

/-- What is wrong with the text of a path, whatever the files are. -/
def pathProblem? (path : String) : Option FileError :=
  if path.toList.contains '\x00' then some .invalidPath
  else if path.isEmpty then some .notFound
  else if maxPathBytes < path.utf8ByteSize then some .nameTooLong
  else none

/-- The location of what a path names. -/
def locate (fs : FileSystem) (path : String) : Except FileError Location :=
  match pathProblem? path with
  | some problem => .error problem
  | none => fs.walk (fs.origin path) (steps path)

/-- Whether a path names anything. -/
def contains (fs : FileSystem) (path : String) : Bool := (fs.locate path).isOk

/-- The bytes of a file. -/
def read (fs : FileSystem) (path : String) : Except FileError (List UInt8) := do
  match fs.node? (← fs.locate path) with
  | some (.file bytes) => return bytes
  | some .directory => throw .isDirectory
  | none => throw .notFound

/-- The location that a file is written to. The steps before the last one have to
lead to a directory, and the last one has to be a name that is no directory's; a
separator after it asks for a directory, which cannot be written. -/
def target (fs : FileSystem) (path : String) : Except FileError Location := do
  if let some problem := pathProblem? path then throw problem
  let reversed := (steps path).reverse
  match reversed.dropWhile (· == "") with
  | [] => throw .isDirectory
  | last :: before =>
    let directory ← fs.walk (fs.origin path) before.reverse
    if !fs.isDirectory directory then throw .notDirectory
    if reversed.head? == some "" || last == "." || last == ".." then throw .isDirectory
    if maxNameBytes < last.utf8ByteSize then throw .nameTooLong
    let location := directory ++ [last]
    if fs.isDirectory location then throw .isDirectory
    return location

/-- The file system after a file was written. -/
def write (fs : FileSystem) (path : String) (bytes : List UInt8) :
    Except FileError FileSystem := do
  return fs.put (← fs.target path) (.file bytes)

end FileSystem

end StackMachine
