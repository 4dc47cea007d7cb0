import RecordSchema.Files.Filesystem
import RecordSchema.Files.Path
import RecordSchema.Schema.FromText

/-!
# Loading schemas

A schema is loaded from one file, or from the files of a directory whose names
have the extension `json`, in the order of their names. The types of several
files make up one schema, in the order of the files, and no two of them may
share a name.
-/

namespace RecordSchema

/-- The error with the file in which a malformation is. -/
def SchemaError.inFile (path : String) : SchemaError → SchemaError
  | .malformed reason => .malformed (.inFile path reason)
  | error => error

namespace Schema

/-- The schema with the types of another one, read from a file, behind its own. -/
def merge (path : String) (front : Schema) : Schema → Except SchemaError Schema
  | [] => .ok front
  | (name, properties) :: rest =>
    match front.insert name properties with
    | .error error => .error (error.inFile path)
    | .ok extended => merge path extended rest

variable {m : Type → Type} [Monad m]

/-- The schema in the text of a file. -/
def ofFileText (path text : String) : Logged SchemaError Schema := do
  let schema ← (Schema.ofText text).mapError (·.inFile path)
  Logged.report (.loadedFile path schema.length)
  return schema

/-- The schema in a file. -/
def loadFile (filesystem : Filesystem m) (path : String) : m (Logged SchemaError Schema) := do
  match ← filesystem.readText path with
  | .error error => return Logged.fail (.malformed (.unreadableFile path error))
  | .ok text => return ofFileText path text

/-- The schema in several files, behind the types that have been read. -/
def loadFiles (filesystem : Filesystem m) :
    List String → Schema → m (Logged SchemaError Schema)
  | [], front => return Logged.ok front
  | path :: rest, front => do
    let loaded ← loadFile filesystem path
    (loaded.bind fun schema => Logged.ofExcept (front.merge path schema)).bindAction fun merged =>
      loadFiles filesystem rest merged

/-- The paths of the schema files of a directory, in the order of their names. -/
def filePaths (directory : String) (names : List String) : List String :=
  ((names.filter (Path.hasExtension "json")).mergeSort fun a b => decide (a ≤ b)).map
    (Path.join directory)

/-- The schema in the files of a directory. -/
def loadDirectory (filesystem : Filesystem m) (directory : String) :
    m (Logged SchemaError Schema) := do
  match ← filesystem.list directory with
  | .error error => return Logged.fail (.malformed (.unreadableDirectory directory error))
  | .ok names =>
    let paths := filePaths directory names
    let loaded ← loadFiles filesystem paths []
    return loaded.bind fun schema => do
      Logged.report (.loadedDirectory directory paths.length schema.length)
      return schema

/-- The schema at a path: that of a file, or that of a directory's files. -/
def load (filesystem : Filesystem m) (path : String) : m (Logged SchemaError Schema) := do
  if ← filesystem.isDirectory path then
    loadDirectory filesystem path
  else
    loadFile filesystem path

end Schema

end RecordSchema
