/-!
# Paths

A path is a text whose parts are separated by slashes. One that starts with a
slash is followed from the root of the file system, any other one from the
working directory. `Path.join` puts a name behind a directory, `Path.parent`
drops the last part, and `Path.hasExtension` looks at the end of a file's name.
-/

namespace RecordSchema

namespace Path

/-- The pieces of a text between occurrences of a character. -/
def split (separator : Char) : List Char → List (List Char)
  | [] => [[]]
  | c :: rest =>
    if c = separator then
      [] :: split separator rest
    else
      match split separator rest with
      | [] => [[c]]
      | piece :: pieces => (c :: piece) :: pieces

/-- The parts of a path, empty ones included. -/
def parts (path : String) : List String :=
  (split '/' path.toList).map String.ofList

/-- Whether a path starts at the root of the file system. -/
def isAbsolute (path : String) : Bool :=
  path.toList.head? == some '/'

/-- The path of a name inside a directory. -/
def join (directory name : String) : String :=
  if directory = "" || directory.toList.getLast? == some '/' then
    directory ++ name
  else
    directory ++ "/" ++ name

/-- The parts that lead somewhere. A point for the directory itself counts only
at the start. -/
def steps (path : String) : List String :=
  match parts path with
  | [] => []
  | first :: rest =>
    (if first = "" then [] else [first]) ++ rest.filter fun part => part != "" && part != "."

/-- The parts that lead from the root to where a path starts. `working` are those
that lead to the working directory. -/
def start (working : List String) (path : String) : List String :=
  if isAbsolute path then [] else working

/-- The parts of a path from the root. -/
def partsFrom (working : List String) (path : String) : List String :=
  start working path ++ parts path

/-- The parts of a path from the root, of its own only those that lead somewhere. -/
def stepsFrom (working : List String) (path : String) : List String :=
  start working path ++ steps path

/-- Whether a part is a name, and not empty or points. -/
def isName (part : String) : Bool :=
  part != "" && part != "." && part != ".."

theorem isName_iff {part : String} :
    isName part = true ↔ part ≠ "" ∧ part ≠ "." ∧ part ≠ ".." := by
  simp [isName, and_assoc]

/-- The path without its last part; empty if there is nothing in front of it. -/
def parent (path : String) : String :=
  let front := String.intercalate "/" (steps path).dropLast
  if isAbsolute path then "/" ++ front else front

/-- Whether a file's name has the given extension behind its last point. A name
that starts with its only point has no extension. -/
def hasExtension (extension name : String) : Bool :=
  let suffix := '.' :: extension.toList
  suffix.isSuffixOf name.toList && decide (suffix.length < name.toList.length) &&
    !extension.toList.contains '.'

end Path

end RecordSchema
