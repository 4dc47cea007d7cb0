/-!
# Access to files

`Filesystem m` is what the library needs of a place that holds files: questions
about paths, reading, listing, and writing, as actions of `m`. Loading and the
commands are written against it, so that they do the same on a disk and on a
tree of files held in memory. A `FileError` says why reading or writing failed.
-/

namespace RecordSchema

/-- A reason why a file could not be read or written. -/
inductive FileError where
  | notFound
  | notDirectory
  | isDirectory
  | alreadyExists
  /-- The bytes of the file are not UTF-8. -/
  | notText
  /-- Any other failure, in the system's words. -/
  | other (description : String)
  deriving DecidableEq

namespace FileError

/-- The wording of an error. -/
def message : FileError → String
  | notFound => "No such file or directory (os error 2)"
  | notDirectory => "Not a directory (os error 20)"
  | isDirectory => "Is a directory (os error 21)"
  | alreadyExists => "File exists (os error 17)"
  | notText => "stream did not contain valid UTF-8"
  | other description => description

end FileError

/-- Actions on files. -/
structure Filesystem (m : Type → Type) where
  /-- Whether the path leads to a directory. -/
  isDirectory : String → m Bool
  /-- Whether the path leads to a file. -/
  isFile : String → m Bool
  /-- The text of a file. -/
  readText : String → m (Except FileError String)
  /-- The names in a directory, in any order. -/
  list : String → m (Except FileError (List String))
  /-- Makes a directory and those above it, as far as they are missing. Those
  that have been made stay if one of them cannot be. -/
  makeDirectories : String → m (Except FileError Unit)
  /-- Gives a file a text; the directory has to be there. -/
  writeText : String → String → m (Except FileError Unit)

/-- The text that the bytes of a file stand for. -/
def Filesystem.decode (content : ByteArray) : Except FileError String :=
  match String.fromUTF8? content with
  | some text => .ok text
  | none => .error .notText

end RecordSchema
